import BoxLint.Proofs.Suppression

/-!
# The dialect of an operation

Whether a conversion boxes is read off the compiler's classification in C# and off the types in
Visual Basic. Where the classification is honest (`Operation.Honest`) both come to the same
(`Operation.isBoxing_of_honest`), so the dialect of an operation does not matter: whatever dialects
its operations are given, at any depth and each by itself (`Compilation.retagged`), a compilation
makes the linter do the same, action by action.
-/

namespace BoxLint

theorem map_flatMap_mapIdx {α β γ : Type} {xs : List α} {h : Nat → α → α} {v : α → List β}
    {g : β → γ} (hx : ∀ i, ∀ x ∈ xs, (v (h i x)).map g = (v x).map g) :
    ((xs.mapIdx h).flatMap v).map g = (xs.flatMap v).map g := by
  have hzip : (xs.zipIdx.flatMap fun x => v (h x.2 x.1)).map g = xs.flatMap fun x => (v x).map g :=
    map_flatMap_zipIdx fun x hmem => hx x.2 x.1 (List.fst_mem_of_mem_zipIdx hmem)
  rw [List.mapIdx_eq_zipIdx_map, List.flatMap_map]
  exact hzip.trans List.map_flatMap.symm

namespace Operation

/-! ## Other dialects -/

mutual

/-- The operation with the dialects that `f` gives to the paths. -/
def retagged (f : Path → Dialect) : Operation → Operation
  | .plain k b cs => .plain k { b with dialect := f [] } (retaggedFrom f 0 cs)
  | .conversion k o b cs =>
    .conversion k (retagged (fun p => f (.operand :: p)) o) { b with dialect := f [] }
      (retaggedFrom f 0 cs)

/-- Children that are numbered from `n` on, with the dialects that `f` gives to the paths. -/
def retaggedFrom (f : Path → Dialect) (n : Nat) : List Operation → List Operation
  | [] => []
  | c :: cs => retagged (fun p => f (.child n :: p)) c :: retaggedFrom f (n + 1) cs

end

theorem retaggedFrom_eq_mapIdx (f : Path → Dialect) (n : Nat) (cs : List Operation) :
    retaggedFrom f n cs = cs.mapIdx fun i c => c.retagged fun p => f (.child (n + i) :: p) := by
  induction cs generalizing n with
  | nil => rfl
  | cons c cs ih =>
    have hshift : ∀ i, n + 1 + i = n + (i + 1) := fun i => by omega
    simp only [retaggedFrom, ih, List.mapIdx_cons, Nat.add_zero, hshift]

variable (f : Path → Dialect) (op : Operation)

@[simp] theorem isConversion_retagged : (op.retagged f).isConversion = op.isConversion := by
  cases op <;> simp only [retagged, isConversion]

@[simp] theorem kindName_retagged : (op.retagged f).kindName = op.kindName := by
  cases op <;> simp only [retagged, kindName]

@[simp] theorem binding_retagged :
    (op.retagged f).binding = { op.binding with dialect := f [] } := by
  cases op <;> simp only [retagged, binding]

@[simp] theorem operandType?_retagged : (op.retagged f).operandType? = op.operandType? := by
  cases op with
  | plain k b cs => simp only [retagged, operandType?, operand?]
  | conversion k o b cs => simp [retagged, operandType?, operand?]

/-! ## Honest classifications -/

/-- The compiler calls a conversion boxing exactly if it goes from a value type to a reference
type. -/
def Honest : Operation → Prop
  | .plain _ _ _ => True
  | .conversion k o b _ => k = some .boxing ↔
      o.binding.type.any TypeInfo.isValue = true ∧ b.type.any TypeInfo.isReference = true

instance : DecidablePred Honest
  | .plain _ _ _ => inferInstanceAs (Decidable True)
  | .conversion _ _ _ _ => inferInstanceAs (Decidable (_ ↔ _ ∧ _))

variable {f op}

theorem Honest.retagged (h : op.Honest) : (op.retagged f).Honest := by
  cases op with
  | plain k b cs => trivial
  | conversion k o b cs => simpa [Operation.retagged, Honest] using h

/-- Under an honest classification the types decide, in both dialects. -/
theorem isBoxing_of_honest (h : op.Honest) :
    op.isBoxing =
      (op.operandType?.any TypeInfo.isValue && op.binding.type.any TypeInfo.isReference) := by
  cases op with
  | plain k b cs => simp [isBoxing, operandType?, operand?]
  | conversion k o b cs =>
    cases hsource : o.binding.type with
    | none => simp [isBoxing, operandType?, operand?, hsource]
    | some source =>
      have hclass : (k == some .boxing) = (source.isValue && b.type.any TypeInfo.isReference) := by
        rw [Bool.eq_iff_iff, beq_iff_eq, Bool.and_eq_true]
        simpa only [Honest, hsource, Option.any_some] using h
      have hboxes : (conversion k o b cs).boxesFrom source =
          (source.isValue && b.type.any TypeInfo.isReference) := by
        cases hd : b.dialect with
        | csharp => simp [boxesFrom, hd, hclass]
        | visualBasic => simp [boxesFrom, hd, Bool.and_comm]
      -- the guard against types that did not resolve is part of being a value type
      have hguard : (!source.isError && source.isValue) = source.isValue := by
        cases he : source.flags.error <;> simp [TypeInfo.isError, TypeInfo.isValue, he]
      have hoperand : (conversion k o b cs).operandType? = some source := hsource
      have htype : (conversion k o b cs).binding.type = b.type := rfl
      simp only [isBoxing, hoperand, htype, hboxes, Option.any_some]
      rw [← Bool.and_assoc, hguard]

theorem isBoxing_retagged (h : op.Honest) : (op.retagged f).isBoxing = op.isBoxing := by
  rw [isBoxing_of_honest h, isBoxing_of_honest h.retagged, operandType?_retagged, binding_retagged]

/-! ## Visits -/

/-- What is the same of an honest operation in any dialects is the same of all operations that are
visited. -/
theorem map_visits_retagged {β : Type} {g : Operation → β}
    (hg : ∀ op f, Honest op → g (op.retagged f) = g op) (op : Operation) (f : Path → Dialect)
    (hop : ∀ o ∈ op.visits, o.Honest) : (op.retagged f).visits.map g = op.visits.map g := by
  induction op using induction generalizing f with
  | plain k b cs ih =>
    rw [visits_plain] at hop ⊢
    have hself := hg (.plain k b cs) f (hop _ List.mem_cons_self)
    rw [retagged] at hself ⊢
    rw [visits_plain, List.map_cons, List.map_cons, hself, retaggedFrom_eq_mapIdx,
      map_flatMap_mapIdx fun i c hc => ih c hc _ fun o ho =>
        hop o (List.mem_cons_of_mem _ (List.mem_flatMap.2 ⟨c, hc, ho⟩))]
  | conversion k o b cs iho ih =>
    rw [visits_conversion] at hop ⊢
    have hself := hg (.conversion k o b cs) f (hop _ List.mem_cons_self)
    have hoperand := iho (fun p => f (.operand :: p)) fun o' ho' =>
      hop o' (List.mem_cons_of_mem _ (List.mem_append_left _ ho'))
    rw [retagged] at hself ⊢
    rw [visits_conversion, List.map_cons, List.map_cons, hself, List.map_append, List.map_append,
      hoperand, retaggedFrom_eq_mapIdx, map_flatMap_mapIdx fun i c hc => ih c hc _ fun o' ho' =>
        hop o' (List.mem_cons_of_mem _ (List.mem_append_right _ (List.mem_flatMap.2 ⟨c, hc, ho'⟩)))]

end Operation

namespace FileModel

/-- The file with the dialects that `f` gives to the roots and the paths from there. -/
def retagged (m : FileModel) (f : Nat → Operation.Path → Dialect) : FileModel :=
  { m with roots := m.roots.mapIdx fun r op => op.retagged (f r) }

/-- Every classification in the file is honest. -/
def Honest (m : FileModel) : Prop := ∀ op ∈ m.operations, op.Honest

instance : DecidablePred Honest := fun m => inferInstanceAs (Decidable (∀ op ∈ m.operations, _))

variable {m : FileModel}

theorem map_operations_retagged {β : Type} {g : Operation → β}
    (hg : ∀ op f, Operation.Honest op → g (op.retagged f) = g op) (hm : m.Honest)
    (f : Nat → Operation.Path → Dialect) :
    (m.retagged f).operations.map g = m.operations.map g := by
  simp only [Honest, operations, Operation.visitsAll_eq_flatMap] at hm ⊢
  refine map_flatMap_mapIdx fun r op hop => ?_
  exact Operation.map_visits_retagged hg op (f r) fun o ho =>
    hm o (List.mem_flatMap.2 ⟨op, hop, ho⟩)

theorem map_conversions_retagged {β : Type} {g : Operation → β}
    (hg : ∀ op f, Operation.Honest op → g (op.retagged f) = g op) (hm : m.Honest)
    (f : Nat → Operation.Path → Dialect) :
    (m.retagged f).conversions.map g = m.conversions.map g := by
  have hconversions : ∀ m : FileModel, m.conversions.map g =
      ((m.operations.map fun op => (op.isConversion, g op)).filter (·.1)).map (·.2) := by
    intro m
    rw [List.filter_map, List.map_map]
    rfl
  rw [hconversions, hconversions, map_operations_retagged _ hm]
  intro op f hop
  rw [Operation.isConversion_retagged, hg op f hop]

/-- What suppressing looks at: the node of an operation, whether the compiler inserted it, and
whether it boxes. -/
def castView (op : Operation) : NodeId × Bool × Bool :=
  (op.binding.node, op.binding.isImplicit, op.isBoxing)

theorem map_castView_operation? (m : FileModel) (n : Node) :
    (m.operation? n).map castView =
      ((m.operations.map castView).find? fun v => v.1 == n.id && !v.2.1).or
        ((m.operations.map castView).find? fun v => v.1 == n.id) := by
  simp only [operation?, List.find?_map, List.find?_filter, List.head?_filter, Option.map_or,
    Bool.decide_and, Bool.decide_eq_true]
  rfl

/-- The operation of a node boxes or not, whatever the dialects. -/
theorem map_isBoxing_operation?_retagged (hm : m.Honest) (f : Nat → Operation.Path → Dialect)
    (n : Node) :
    ((m.retagged f).operation? n).map (·.isBoxing) = (m.operation? n).map (·.isBoxing) := by
  have hview : ∀ op f, Operation.Honest op → castView (op.retagged f) = castView op := by
    intro op f hop
    simp [castView, Operation.isBoxing_retagged hop]
  have hboxing : ∀ o : Option Operation,
      o.map (·.isBoxing) = (o.map castView).map fun v => v.2.2 := by
    intro o
    rw [Option.map_map]
    rfl
  rw [hboxing, hboxing, map_castView_operation?, map_castView_operation?,
    map_operations_retagged hview hm]

end FileModel

namespace Compilation

/-- The compilation with the dialects that `f` gives to the sites. -/
def retagged (c : Compilation) (f : Site → Dialect) : Compilation :=
  ⟨c.files.mapIdx fun k m => m.retagged fun r p => f ⟨k, r, p⟩⟩

/-- Every classification in the compilation is honest. -/
def Honest (c : Compilation) : Prop := ∀ m ∈ c.files, m.Honest

instance : DecidablePred Honest := fun c => inferInstanceAs (Decidable (∀ m ∈ c.files, _))

theorem treeIds_retagged (c : Compilation) (f : Site → Dialect) :
    (c.retagged f).treeIds = c.treeIds := by
  simp [treeIds, retagged]

theorem model?_retagged (c : Compilation) (f : Site → Dialect) (k : TreeId) :
    (c.retagged f).model? k = (c.model? k).map (·.retagged fun r p => f ⟨k, r, p⟩) := by
  simp [model?, retagged]

theorem Honest.of_model? {c : Compilation} (hc : c.Honest) {k : TreeId} {m : FileModel}
    (hm : c.model? k = some m) : m.Honest :=
  hc m (List.mem_of_getElem? hm)

end Compilation

/-! ## Detecting -/

namespace Detector

variable {rule : EffectiveRule} {m : FileModel} {op : Operation}

theorem finding?_retagged (h : op.Honest) (f : Operation.Path → Dialect) :
    finding? rule m (op.retagged f) = finding? rule m op := by
  have himplicit : (op.retagged f).isImplicitBoxing = op.isImplicitBoxing := by
    simp [Operation.isImplicitBoxing, Operation.isBoxing_retagged h]
  have hdiagnostic : ∀ source target,
      diagnostic rule m (op.retagged f) source target = diagnostic rule m op source target := by
    intro source target
    simp [diagnostic]
  simp only [finding?, himplicit, hdiagnostic, Operation.operandType?_retagged,
    Operation.binding_retagged]

end Detector

namespace Linter

variable {s : Settings} {c : Compilation}

theorem conversionActions_retagged (kept : Bool) (m : FileModel) {op : Operation} (h : op.Honest)
    (f : Operation.Path → Dialect) :
    (ofSettings s).conversionActions kept m (op.retagged f) =
      (ofSettings s).conversionActions kept m op := by
  have hinspect : Detector.inspect (ofSettings s).rule m (op.retagged f) =
      Detector.inspect (ofSettings s).rule m op := by
    simp only [Detector.inspect, Operation.isConversion_retagged, Detector.finding?_retagged h,
      Operation.kindName_retagged, Operation.binding_retagged]
  rw [conversionActions, conversionActions, if_pos (wants_ofSettings s _),
    if_pos (wants_ofSettings s _), Detector.actions, Detector.actions, hinspect]

theorem filePass_retagged {m : FileModel} (hm : m.Honest) (f : Nat → Operation.Path → Dialect) :
    (ofSettings s).filePass (m.retagged f) = (ofSettings s).filePass m := by
  have htree : (m.retagged f).tree = m.tree := rfl
  -- the roots of a file do not matter to what is done at one operation
  have hfile : ∀ kept op, (ofSettings s).conversionActions kept (m.retagged f) op =
      (ofSettings s).conversionActions kept m op := by
    intro kept op
    have hfinding : Detector.finding? (ofSettings s).rule (m.retagged f) op =
        Detector.finding? (ofSettings s).rule m op := Detector.finding?_congr rfl rfl rfl
    simp only [conversionActions, Detector.actions, Detector.inspect, hfinding]
  simp only [filePass, htree, List.flatMap_def, funext (hfile _)]
  rw [FileModel.map_conversions_retagged (fun op f hop => conversionActions_retagged _ m hop f) hm]

theorem treePass_retagged (hc : c.Honest) (f : Site → Dialect) (k : TreeId) :
    (ofSettings s).treePass (c.retagged f) k = (ofSettings s).treePass c k := by
  rw [treePass, treePass, Compilation.model?_retagged]
  cases hm : c.model? k with
  | none => rfl
  | some m => simp only [Option.map_some, filePass_retagged (hc.of_model? hm)]

theorem pass_retagged (hc : c.Honest) (f : Site → Dialect) (listed : List TreeId) :
    (ofSettings s).pass (c.retagged f) listed = (ofSettings s).pass c listed := by
  have htrees : (ofSettings s).treePass (c.retagged f) = (ofSettings s).treePass c :=
    funext fun k => treePass_retagged hc f k
  rw [pass, pass, htrees]

end Linter

/-! ## Suppressing -/

namespace Suppressor

theorem verdict_retagged {m : FileModel} (hm : m.Honest) (f : Nat → Operation.Path → Dialect)
    (d : Diagnostic) : verdict (m.retagged f) d = verdict m d := by
  have htree : (m.retagged f).tree = m.tree := rfl
  unfold verdict
  rw [htree]
  cases m.tree.find? d.location.span with
  | none => rfl
  | some n =>
    have hop := FileModel.map_isBoxing_operation?_retagged hm f n
    cases h : m.operation? n <;> cases h' : (m.retagged f).operation? n <;> simp_all

theorem actionsIn_retagged {m : FileModel} (hm : m.Honest) (f : Nat → Operation.Path → Dialect)
    (d : Diagnostic) : actionsIn (m.retagged f) d = actionsIn m d := by
  have htree : (m.retagged f).tree = m.tree := rfl
  rw [actionsIn, actionsIn, htree, verdict_retagged hm]

theorem pass_retagged {c : Compilation} (hc : c.Honest) (f : Site → Dialect)
    (ds : List Diagnostic) : pass (c.retagged f) ds = pass c ds := by
  have hactions : ∀ d, actions (c.retagged f) d = actions c d := by
    intro d
    simp only [actions, Compilation.model?_retagged]
    cases d.location.tree with
    | none => rfl
    | some k =>
      cases hm : c.model? k with
      | none => simp only [hm, Option.map_none]
      | some m => simp only [hm, Option.map_some, actionsIn_retagged (hc.of_model? hm)]
  rw [pass, pass, funext hactions]

end Suppressor

/-- **The dialect of an operation does not matter under honest classifications.** Give each
operation of an honest compilation any dialect, at every depth and independently of the others.
Then an analysis and a suppression give what they gave before, whatever the settings, the listed
files, the batch of diagnostics and the host: the same result, the same log and the same state. -/
theorem reports_retagged {c : Compilation} (hc : c.Honest) (f : Site → Dialect) (s : Settings)
    {σ : Type} (h : Host σ) (st : σ) :
    (c.retagged f).treeIds = c.treeIds ∧
    (∀ listed, (Linter.ofSettings s).analyze h st (c.retagged f) listed =
      (Linter.ofSettings s).analyze h st c listed) ∧
    ∀ reported, (Linter.ofSettings s).suppress h st (c.retagged f) reported =
      (Linter.ofSettings s).suppress h st c reported := by
  refine ⟨c.treeIds_retagged f, fun listed => ?_, fun reported => ?_⟩
  · rw [Linter.analyze, Linter.analyze, Linter.pass_retagged hc]
  · rw [Linter.suppress, Linter.suppress, Suppressor.pass_retagged hc]

namespace NestedBoxing

/-- A file with the two conversions, and one with a cast. -/
def withCast : Compilation := ⟨[file, ObjectCast.file (some (.reference "System.Object"))]⟩

/-- Roots in Visual Basic, all else in C#. -/
def basicRoots (site : Site) : Dialect := if site.path = [] then .visualBasic else .csharp

/-- With the roots in Visual Basic the two conversions are still reported, the inner one in C#, and
the cast is still suppressed. -/
theorem reports_retagged_basicRoots :
    withCast.Honest ∧
      ((withCast.retagged basicRoots).at? [0, 1] ⟨0, 0, []⟩).map (·.2.binding.dialect) =
        some .visualBasic ∧
      (∃ ds, ((Linter.ofSettings Settings.default).analyze Host.quiet ()
          (withCast.retagged basicRoots) [0, 1]).result = .ok ds ∧ ds.length = 2) ∧
      ((Linter.ofSettings Settings.default).suppress Host.quiet () (withCast.retagged basicRoots)
        [ObjectCast.redundant 1]).result = .ok [⟨Rule.boxingCast, ObjectCast.redundant 1⟩] := by
  have hhonest : withCast.Honest := by decide
  obtain ⟨-, hanalyze, hsuppress⟩ :=
    reports_retagged hhonest basicRoots Settings.default Host.quiet ()
  refine ⟨hhonest, rfl, ?_, ?_⟩
  · rw [hanalyze]
    exact ⟨_, Linter.analyze_of_staysDown Host.staysDown_quiet _ _,
      (Diagnostic.sorted_perm _).length_eq⟩
  · rw [hsuppress]
    rfl

end NestedBoxing

end BoxLint
