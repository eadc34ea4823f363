import BoxLint.Proofs.Suppression

/-!
# Removing a cast

A cast that boxes is kept because without it the compiler would box by itself, and the detector
would report that. Whether the suppressor hides a diagnostic on a cast (`Suppressor.verdict`) is
here set beside what the detector makes of the same conversion once the compiler has inserted it
(`Operation.inserted`). Both ask whether the conversion boxes, but the detector also names both of
its types, and a C# conversion counts as boxing without a result type
(`Operation.BoxesToNothing`). On these conversions the two part ways, and on no others
(`verdict_iff_reportsOnce`).
-/

namespace BoxLint

namespace Operation

/-- The operation as if the compiler had inserted it. -/
def inserted : Operation → Operation
  | .plain k b cs => .plain k { b with isImplicit := true } cs
  | .conversion k o b cs => .conversion k o { b with isImplicit := true } cs

@[simp] theorem isConversion_inserted (op : Operation) :
    op.inserted.isConversion = op.isConversion := by
  cases op <;> rfl

@[simp] theorem operandType?_inserted (op : Operation) :
    op.inserted.operandType? = op.operandType? := by
  cases op <;> rfl

@[simp] theorem type_inserted (op : Operation) : op.inserted.binding.type = op.binding.type := by
  cases op <;> rfl

@[simp] theorem span_inserted (op : Operation) : op.inserted.binding.span = op.binding.span := by
  cases op <;> rfl

theorem isImplicitBoxing_inserted (op : Operation) :
    op.inserted.isImplicitBoxing = op.isBoxing := by
  cases op <;> rfl

/-- A C# conversion that is classified as boxing and has a resolved operand, but gives no type. -/
def BoxesToNothing (op : Operation) : Prop :=
  ∃ o b cs source, op = .conversion (some .boxing) o b cs ∧ b.dialect = .csharp ∧
    o.binding.type = some source ∧ source.isError = false ∧ b.type = none

theorem exists_operandType_of_isBoxing {op : Operation} (h : op.isBoxing = true) :
    ∃ source, op.operandType? = some source := by
  unfold isBoxing at h
  cases ht : op.operandType? with
  | none => simp [ht] at h
  | some source => exact ⟨source, rfl⟩

theorem boxesToNothing_iff {op : Operation} :
    op.BoxesToNothing ↔ op.isBoxing = true ∧ op.binding.type = none := by
  constructor
  · rintro ⟨o, b, cs, source, rfl, hdialect, hsource, herror, htype⟩
    refine ⟨?_, htype⟩
    simp [isBoxing, operandType?, operand?, boxesFrom, hsource, herror, hdialect]
  · rintro ⟨hbox, htype⟩
    cases op with
    | plain k b cs => simp [isBoxing, operandType?, operand?] at hbox
    | conversion k o b cs =>
      obtain ⟨source, hsource⟩ := exists_operandType_of_isBoxing hbox
      simp only [isBoxing, hsource, Bool.and_eq_true, Bool.not_eq_true'] at hbox
      obtain ⟨herror, hbox⟩ := hbox
      cases hdialect : b.dialect with
      | csharp =>
        obtain rfl : k = some .boxing := by simpa [boxesFrom, hdialect] using hbox
        exact ⟨o, b, cs, source, rfl, hdialect, hsource, herror, htype⟩
      | visualBasic =>
        -- in Visual Basic a conversion without a result type does not box
        have htype : b.type = none := htype
        simp [boxesFrom, hdialect, htype] at hbox

end Operation

/-- The outcome is a single diagnostic, at a given location. -/
def ReportsOnce {σ : Type} (o : Outcome σ Diagnostic) (l : Location) : Prop :=
  o.error = none ∧ ∃ d, o.delivered = [d] ∧ d.location = l

namespace Detector

variable {rule : EffectiveRule} {m : FileModel} {op : Operation}

theorem finding?_inserted_isSome (he : rule.enabled = true) :
    (∃ d, finding? rule m op.inserted = some d) ↔ op.isBoxing = true ∧ op.binding.type ≠ none := by
  simp only [finding?_eq_some_iff, he, true_and, Operation.isImplicitBoxing_inserted,
    Operation.operandType?_inserted, Operation.type_inserted]
  constructor
  · rintro ⟨d, hbox, source, target, -, htarget, -⟩
    exact ⟨hbox, by simp [htarget]⟩
  · rintro ⟨hbox, htype⟩
    obtain ⟨source, hsource⟩ := Operation.exists_operandType_of_isBoxing hbox
    obtain ⟨target, htarget⟩ := Option.ne_none_iff_exists'.1 htype
    exact ⟨_, hbox, source, target, hsource, htarget, rfl⟩

theorem reportsOnce_inserted_iff (he : rule.enabled = true) {σ : Type} (h : Host σ) (st : σ) :
    ReportsOnce (Pass.run h st (actions rule true m op.inserted))
        (.inTree m.tree.id op.binding.span) ↔
      op.isBoxing = true ∧ op.binding.type ≠ none := by
  rw [← @finding?_inserted_isSome rule m op he]
  by_cases hc : op.isConversion = true
  · rw [actions_of_isConversion true (by simpa using hc)]
    cases hf : finding? rule m op.inserted with
    | none => simp [ReportsOnce, Pass.run]
    | some d =>
      obtain ⟨-, -, source, target, -, -, rfl⟩ := finding?_eq_some_iff.1 hf
      simp [ReportsOnce, Pass.run, diagnostic, Diagnostic.ofTemplate]
  · have hc' : op.inserted.isConversion = false := by simpa using hc
    simp [ReportsOnce, actions, inspect, hc', Pass.run, finding?_of_not_isConversion]

end Detector

/-- **Where the suppressor and the detector agree on a cast.** Take a diagnostic on a cast that the
user wrote, bound to the operation `op`. That it is hidden exactly if the detector, once the
compiler has inserted `op`, succeeds with one diagnostic at its span, holds unless `op` is a C#
conversion that boxes to no type, and fails on each of these. -/
theorem verdict_iff_reportsOnce {rule : EffectiveRule} (he : rule.enabled = true) {m : FileModel}
    {n : Node} {op : Operation} {d : Diagnostic} (hfind : m.tree.find? d.location.span = some n)
    (hcast : n.isExplicitCast = true) (hop : m.operation? n = some op)
    {σ : Type} (h : Host σ) (st : σ) :
    (Suppressor.verdict m d = .ok true ↔
        ReportsOnce (Pass.run h st (Detector.actions rule true m op.inserted))
          (.inTree m.tree.id op.binding.span)) ↔
      ¬ op.BoxesToNothing := by
  have hverdict : Suppressor.verdict m d = .ok true ↔ op.isBoxing = true := by
    simp [Suppressor.verdict_eq_ok_iff, hfind, hcast, hop]
  rw [hverdict, Detector.reportsOnce_inserted_iff he, Operation.boxesToNothing_iff]
  tauto

namespace ObjectCast

/-- The rule with its own settings. -/
def rule : EffectiveRule := Settings.default.effective Rule.implicitBoxing

/-- At a cast with a type the two sides can be compared, and agree. -/
theorem verdict_iff_reportsOnce_typed :
    rule.enabled = true ∧
      (file (some (.reference "System.Object"))).tree.find? (redundant 0).location.span =
        some node ∧
      node.isExplicitCast = true ∧
      (Suppressor.verdict (file (some (.reference "System.Object"))) (redundant 0) = .ok true ↔
        ReportsOnce (Pass.run Host.quiet () (Detector.actions rule true
          (file (some (.reference "System.Object")))
          (conversion (some (.reference "System.Object"))).inserted)) (.inTree 0 node.span)) := by
  refine ⟨rfl, by decide, by decide, ?_⟩
  refine (verdict_iff_reportsOnce rfl (show _ = some node by decide) (by decide) ?_ _ _).2 ?_
  · rfl
  · rw [Operation.boxesToNothing_iff]
    rintro ⟨-, h⟩
    exact absurd h (by simp [conversion, Operation.binding])

/-- At a cast without a type the diagnostic is hidden, and the detector would report nothing. -/
theorem verdict_without_report :
    rule.enabled = true ∧ (file none).tree.find? (redundant 0).location.span = some node ∧
      node.isExplicitCast = true ∧ (file none).operation? node = some (conversion none) ∧
      ¬ (Suppressor.verdict (file none) (redundant 0) = .ok true ↔
        ReportsOnce (Pass.run Host.quiet ()
          (Detector.actions rule true (file none) (conversion none).inserted))
          (.inTree (file none).tree.id (conversion none).binding.span)) := by
  have hdelivered : (Pass.run Host.quiet ()
      (Detector.actions rule true (file none) (conversion none).inserted)).delivered = [] := rfl
  refine ⟨rfl, by decide, by decide, rfl, fun hiff => ?_⟩
  obtain ⟨-, d, hd, -⟩ := hiff.1 (by decide)
  rw [hdelivered] at hd
  exact List.cons_ne_nil d [] hd.symm

end ObjectCast

end BoxLint
