import BoxLint.Proofs.DepthLoop
import BoxLint.Proofs.Findings

/-!
# What is suppressed

Whether a diagnostic is suppressed depends on nothing but itself, the settings and the files
(`Suppressible`). A batch is gone through diagnostic by diagnostic, and one that cannot be traced
back to a cast leaves the others alone: what is suppressed of a batch is the batch without its other
members (`suppress_of_staysDown`), so batches may be cut and joined.

All this is so where the search for a diagnostic's node ends, as it does if no file has parent links
that go round in a circle (`Compilation.Acyclic`). In a circle the first search runs for ever, and
nothing is returned for the whole batch (`ObjectCast.suppress_selfParent`).
-/

namespace BoxLint

/-- In no file do parent links go round in a circle. -/
def Compilation.Acyclic (c : Compilation) : Prop := ∀ m ∈ c.files, m.tree.Acyclic

instance (c : Compilation) : Decidable c.Acyclic :=
  inferInstanceAs (Decidable (∀ m ∈ c.files, m.tree.Acyclic))

theorem Compilation.Acyclic.searchEnds {c : Compilation} (hc : c.Acyclic) {id : TreeId}
    {m : FileModel} (hm : c.model? id = some m) (s : Span) : m.tree.searchEnds s = true :=
  (hc m (List.mem_of_getElem? hm)).searchEnds s

/-- The diagnostic lies on a cast that the user wrote, and the cast boxes. -/
def OnBoxingCast (c : Compilation) (d : Diagnostic) : Prop :=
  ∃ t m n op, d.location.tree = some t ∧ c.model? t = some m ∧
    m.tree.find? d.location.span = some n ∧ n.isExplicitCast = true ∧
    m.operation? n = some op ∧ op.isBoxing = true

/-- What makes a diagnostic one to suppress: suppressing is switched on, the diagnostic calls a
cast redundant, and the cast boxes. -/
def Suppressible (s : Settings) (c : Compilation) (d : Diagnostic) : Prop :=
  s.isEnabled "SPR0004" true = true ∧ d.id = "IDE0004" ∧ OnBoxingCast c d

namespace Suppressor

theorem verdict_eq_ok_iff {m : FileModel} {d : Diagnostic} {b : Bool} :
    verdict m d = .ok b ↔ ∃ n op, m.tree.find? d.location.span = some n ∧
      n.isExplicitCast = true ∧ m.operation? n = some op ∧ op.isBoxing = b := by
  unfold verdict
  cases hn : m.tree.find? d.location.span with
  | none => simp
  | some n =>
    by_cases hc : n.isExplicitCast = true
    · cases ho : m.operation? n with
      | none => simp [hc, ho]
      | some op => simp [hc, ho]
    · simp [hc]

/-- Whether a diagnostic lies on a boxing cast, by the verdict on it. -/
def hides (c : Compilation) (d : Diagnostic) : Bool :=
  match d.location.tree.bind c.model? with
  | none => false
  | some m => (verdict m d).toOption.getD false

theorem hides_iff {c : Compilation} {d : Diagnostic} : hides c d = true ↔ OnBoxingCast c d := by
  have hok : ∀ m, (verdict m d).toOption.getD false = true ↔ verdict m d = .ok true := by
    intro m
    cases verdict m d <;> simp [Except.toOption]
  unfold hides OnBoxingCast
  cases ht : d.location.tree with
  | none => simp
  | some t => cases hm : c.model? t <;> simp [hm, hok, verdict_eq_ok_iff]

instance (c : Compilation) (d : Diagnostic) : Decidable (OnBoxingCast c d) :=
  decidable_of_iff (hides c d = true) hides_iff

/-- The suppressions of the diagnostics in a batch that lie on casts that box. -/
def hidden (c : Compilation) (ds : List Diagnostic) : List Suppression :=
  (ds.filter (OnBoxingCast c ·)).map (⟨Rule.boxingCast, ·⟩)

section Acyclic

variable {c : Compilation} (hc : c.Acyclic)

include hc

theorem faultless_actions (d : Diagnostic) : (actions c d).Faultless := by
  intro e he
  rw [actions, List.mem_cons] at he
  simp only [reduceCtorEq, false_or] at he
  split at he
  · simp at he
  · rw [List.mem_cons] at he
    simp only [reduceCtorEq, false_or] at he
    split at he
    · simp at he
    · rename_i m hm
      rw [actionsIn, if_pos (hc.searchEnds hm _)] at he
      split at he <;> simp at he

theorem deliveries_actions (d : Diagnostic) :
    (actions c d).deliveries = if OnBoxingCast c d then [⟨Rule.boxingCast, d⟩] else [] := by
  have hin : ∀ m, m.tree.searchEnds d.location.span = true → (actionsIn m d).deliveries =
      if (verdict m d).toOption.getD false = true then [⟨Rule.boxingCast, d⟩] else [] := by
    intro m hends
    rw [actionsIn, if_pos hends]
    match verdict m d with
    | .error e => rfl
    | .ok true => rfl
    | .ok false => rfl
  simp only [← hides_iff, hides]
  unfold actions
  cases ht : d.location.tree with
  | none => rfl
  | some t =>
    cases hm : c.model? t with
    | none => simp [hm, Pass.deliveries, Action.delivered?]
    | some m => simp [hm, Pass.deliveries_cons, Action.delivered?, hin m (hc.searchEnds hm _)]

theorem faultless_pass (ds : List Diagnostic) : (pass c ds).Faultless :=
  Pass.Faultless.flatMap fun d _ => faultless_actions hc d

theorem deliveries_pass (ds : List Diagnostic) : (pass c ds).deliveries = hidden c ds := by
  rw [pass, hidden, Pass.deliveries_flatMap]
  induction ds with
  | nil => rfl
  | cons d ds ih =>
    rw [List.flatMap_cons, ih, deliveries_actions hc, List.filter_cons]
    by_cases hd : OnBoxingCast c d <;> simp [hd]

end Acyclic

end Suppressor

instance (s : Settings) (c : Compilation) (d : Diagnostic) : Decidable (Suppressible s c d) :=
  inferInstanceAs (Decidable (_ ∧ _ ∧ _))

/-- The suppressions of the diagnostics in a batch that are to be suppressed. -/
def suppressionsOf (s : Settings) (c : Compilation) (reported : List Diagnostic) :
    List Suppression :=
  (reported.filter (Suppressible s c ·)).map (⟨Rule.boxingCast, ·⟩)

section Batch

variable {s : Settings} {c : Compilation}

theorem suppressionsOf_append (a b : List Diagnostic) :
    suppressionsOf s c (a ++ b) = suppressionsOf s c a ++ suppressionsOf s c b := by
  rw [suppressionsOf, List.filter_append, List.map_append, suppressionsOf, suppressionsOf]

theorem suppressionsOf_cons_of_not {d : Diagnostic} (hd : ¬ Suppressible s c d)
    (ds : List Diagnostic) : suppressionsOf s c (d :: ds) = suppressionsOf s c ds := by
  rw [suppressionsOf, List.filter_cons_of_neg (by simpa using hd), suppressionsOf]

theorem any_suppressionsOf {ds : List Diagnostic} {d : Diagnostic} :
    (suppressionsOf s c ds).any (·.diagnostic == d) = true ↔ d ∈ ds ∧ Suppressible s c d := by
  simp [suppressionsOf, List.any_map, Function.comp_def]

namespace Linter

variable {σ : Type} {h : Host σ} {st : σ}

theorem hidden_candidates (he : s.isEnabled "SPR0004" true = true) (reported : List Diagnostic) :
    Suppressor.hidden c (candidates reported) = suppressionsOf s c reported := by
  have hcand : candidates reported = reported.filter fun d => decide (d.id = "IDE0004") := by
    rw [candidates]
    congr 1
  rw [Suppressor.hidden, hcand, List.filter_filter, suppressionsOf]
  simp only [Suppressible, he, true_and, Bool.decide_and, Bool.and_comm]

theorem suppress_of_staysDown (hc : c.Acyclic) (hd : h.StaysDown st) (reported : List Diagnostic) :
    ((ofSettings s).suppress h st c reported).result = .ok (suppressionsOf s c reported) := by
  have hs : (ofSettings s).suppresses = s.isEnabled "SPR0004" true := rfl
  rw [suppress, hs]
  by_cases he : s.isEnabled "SPR0004" true = true
  · rw [if_pos he, Pass.report_run hd (Suppressor.faultless_pass hc _),
      Suppressor.deliveries_pass hc, hidden_candidates he]
    rfl
  · rw [if_neg he]
    simp [suppressionsOf, Suppressible, he]

theorem staysDown_analyze (hd : h.StaysDown st) (listed : List TreeId) :
    h.StaysDown ((ofSettings s).analyze h st c listed).state := by
  unfold analyze
  split
  · rw [Pass.report_run hd (faultless_pass c listed)]
    exact hd.foldl _
  · exact hd

theorem run_of_staysDown (hc : c.Acyclic) (hd : h.StaysDown st) (listed : List TreeId)
    (reported : List Diagnostic) :
    ∃ ds, ((ofSettings s).run h st c listed reported).result =
      .ok ⟨ds, suppressionsOf s c reported⟩ := by
  obtain ⟨ds, hds⟩ : ∃ ds, ((ofSettings s).analyze h st c listed).result = .ok ds :=
    ⟨_, analyze_of_staysDown hd c listed⟩
  refine ⟨ds, ?_⟩
  simp only [run, hds, suppress_of_staysDown hc (staysDown_analyze hd listed) reported]
  rfl

end Linter

end Batch

/-- **Diagnostics are suppressed one by one.** If no parent links go round in a circle and the
signal stays down, suppressing gives the members of the batch that are to be suppressed, in their
order and as often as they occur; a batch may be cut in two, a diagnostic that is not to be
suppressed may be left out, and after a run a diagnostic counts as suppressed exactly if it is in
the batch and to be suppressed. -/
theorem suppress_eq_filter {σ : Type} {h : Host σ} {st : σ} (hd : h.StaysDown st)
    (s : Settings) {c : Compilation} (hc : c.Acyclic) :
    (∀ reported, ((Linter.ofSettings s).suppress h st c reported).result =
      .ok ((reported.filter (Suppressible s c ·)).map (⟨Rule.boxingCast, ·⟩))) ∧
    (∀ a b, ∃ x y, ((Linter.ofSettings s).suppress h st c a).result = .ok x ∧
      ((Linter.ofSettings s).suppress h st c b).result = .ok y ∧
      ((Linter.ofSettings s).suppress h st c (a ++ b)).result = .ok (x ++ y)) ∧
    (∀ a d b, ¬ Suppressible s c d →
      ((Linter.ofSettings s).suppress h st c (a ++ d :: b)).result =
        ((Linter.ofSettings s).suppress h st c (a ++ b)).result) ∧
    ∀ listed reported, ∃ f, ((Linter.ofSettings s).run h st c listed reported).result = .ok f ∧
      ∀ d, f.isSuppressed d = true ↔ d ∈ reported ∧ Suppressible s c d := by
  simp only [Linter.suppress_of_staysDown hc hd]
  refine ⟨fun _ => rfl, fun a b => ?_, fun a d b hs => ?_, fun listed reported => ?_⟩
  · exact ⟨_, _, rfl, rfl, by rw [suppressionsOf_append]⟩
  · rw [suppressionsOf_append, suppressionsOf_cons_of_not hs, suppressionsOf_append]
  · obtain ⟨ds, hrun⟩ := Linter.run_of_staysDown (s := s) hc hd listed reported
    exact ⟨_, hrun, fun d => any_suppressionsOf⟩

/-! ## The cast of a literal -/

namespace ObjectCast

/-- The conversion of the cast `(object)1`, with the type it was given. -/
def conversion (type : Option TypeInfo) : Operation :=
  .conversion (some .boxing)
    (.plain .literal ⟨some (.value "System.Int32"), 1, Span.ofLength 6 28 1, .csharp, false⟩ [])
    ⟨type, 0, Span.ofLength 6 20 9, .csharp, false⟩ []

/-- The node of the cast. -/
def node : Node := ⟨0, NodeKind.castExpression.code, .csharp, Span.ofLength 6 20 9, none⟩

/-- The file with the cast. -/
def file (type : Option TypeInfo) : FileModel :=
  (((FileModel.ofTree (Tree.empty 0 "Test0.cs" .csharp)).addNode node.rawKind node.span
    none).addNode NodeKind.literal.code (Span.ofLength 6 28 1) (some 0)).addRoot (conversion type)

/-- The diagnostic that calls the cast redundant, in a file with a given number. -/
def redundant (id : TreeId) : Diagnostic :=
  .ofTemplate "IDE0004" .hidden "Cast is redundant" (.inTree id node.span) []

/-- The file with the cast of a literal to an object. -/
def compilation : Compilation := ⟨[file (some (.reference "System.Object"))]⟩

theorem acyclic_compilation : compilation.Acyclic := by decide

/-- A diagnostic in a file that does not exist is passed over, and the one on the cast is
suppressed as often as it occurs. -/
theorem suppress_eq_filter_batch :
    Host.quiet.StaysDown () ∧ compilation.Acyclic ∧
      ¬ Suppressible Settings.default compilation (redundant 3) ∧
      ((Linter.ofSettings Settings.default).suppress Host.quiet () compilation
        [redundant 0, redundant 3, redundant 0]).result =
          .ok [⟨Rule.boxingCast, redundant 0⟩, ⟨Rule.boxingCast, redundant 0⟩] ∧
      ((Linter.ofSettings Settings.default).suppress Host.quiet () compilation
        [redundant 0, redundant 3, redundant 0]).result =
          ((Linter.ofSettings Settings.default).suppress Host.quiet () compilation
            [redundant 0, redundant 0]).result := by
  have hmissing : ¬ Suppressible Settings.default compilation (redundant 3) := by decide
  obtain ⟨hfilter, -, hdrop, -⟩ :=
    suppress_eq_filter Host.staysDown_quiet Settings.default acyclic_compilation
  exact ⟨Host.staysDown_quiet, acyclic_compilation, hmissing, (hfilter _).trans rfl,
    hdrop [_] _ _ hmissing⟩

/-- The file in which the node of the cast names itself as its parent. -/
def selfParent : FileModel :=
  ((FileModel.ofTree (Tree.empty 0 "Test0.cs" .csharp)).addNode node.rawKind node.span
    (some 0)).addRoot (conversion (some (.reference "System.Object")))

/-- The node of the cast is the only node there is at the diagnostic, and the cast boxes; but to
measure its depth the loop goes from the node to itself and never ends, so suppressing returns
nothing. -/
theorem suppress_selfParent :
    Host.quiet.StaysDown () ∧ Suppressible Settings.default ⟨[selfParent]⟩ (redundant 0) ∧
      (∀ iterations result,
        ¬ selfParent.tree.LoopEnds 0 (selfParent.tree.parent? 0) iterations result) ∧
      ((Linter.ofSettings Settings.default).suppress Host.quiet () ⟨[selfParent]⟩
        [redundant 0]).result = .error .endless := by
  refine ⟨Host.staysDown_quiet, by decide, fun iterations result hends => ?_, rfl⟩
  have hchain := (Tree.loopEnds_iff_chainEnds.1 hends).1
  exact absurd hchain (by decide)

end ObjectCast

end BoxLint
