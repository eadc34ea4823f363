import BoxLint.Proofs.Findings
import Mathlib.Data.List.Perm.Basic

/-!
# The order of operations

Compilers bind operations in an order of their own: the roots of a file, and the children of any
operation, may come in another order (`Operation.Reordered`). The operations that are visited are
then others, since each holds its children, but what is seen of them is the same, in another order
(`Operation.Reordered.perm_map_visits`). Sorting makes up for the order: the reports have the same
diagnostics at the same locations.
-/

namespace BoxLint

/-- Members that are exchanged for others and then put in another order give the same, in another
order. -/
theorem perm_flatMap_of_forall₂ {α β : Type} {r : α → α → Prop} {v : α → List β}
    {xs ys zs : List α} (hv : ∀ x ∈ xs, ∀ y, r x y → (v x).Perm (v y)) (hxy : List.Forall₂ r xs ys)
    (hyz : ys.Perm zs) : (xs.flatMap v).Perm (zs.flatMap v) := by
  have hexchange : (xs.flatMap v).Perm (ys.flatMap v) := by
    clear hyz
    induction hxy with
    | nil => exact .refl _
    | cons hx _ ih =>
      rw [List.flatMap_cons, List.flatMap_cons]
      exact (hv _ List.mem_cons_self _ hx).append
        (ih fun x hx y hxy => hv x (List.mem_cons_of_mem _ hx) y hxy)
  exact hexchange.trans (hyz.flatMap_right v)

namespace Operation

/-- The operations differ only in the order of children, at any depth: the children of the one are
reordered themselves and then put in the order of the other. -/
inductive Reordered : Operation → Operation → Prop
  | plain {k : PlainKind} {b : Binding} {cs ds cs' : List Operation}
      (children : List.Forall₂ Reordered cs ds) (order : ds.Perm cs') :
      Reordered (.plain k b cs) (.plain k b cs')
  | conversion {k : Option ConversionClass} {o o' : Operation} {b : Binding}
      {cs ds cs' : List Operation} (operand : Reordered o o')
      (children : List.Forall₂ Reordered cs ds) (order : ds.Perm cs') :
      Reordered (.conversion k o b cs) (.conversion k o' b cs')

namespace Reordered

variable {op op' : Operation}

theorem refl (op : Operation) : Reordered op op := by
  induction op using induction with
  | plain k b cs ih => exact .plain (List.forall₂_same.2 ih) (.refl cs)
  | conversion k o b cs iho ih => exact .conversion iho (List.forall₂_same.2 ih) (.refl cs)

theorem binding_eq (h : Reordered op op') : op.binding = op'.binding := by
  cases h <;> rfl

theorem operandType?_eq (h : Reordered op op') : op.operandType? = op'.operandType? := by
  cases h with
  | plain children order => rfl
  | conversion operand children order =>
    simp only [operandType?, operand?, Option.bind_some, operand.binding_eq]

theorem isBoxing_eq (h : Reordered op op') : op.isBoxing = op'.isBoxing := by
  have hboxes : ∀ source, op.boxesFrom source = op'.boxesFrom source := by
    intro source
    cases h <;> rfl
  simp only [isBoxing, h.operandType?_eq, hboxes]

/-- What does not depend on the order of children is, in some order, the same of all operations
that are visited. -/
theorem perm_map_visits {β : Type} {g : Operation → β}
    (hg : ∀ op op', Reordered op op' → g op = g op') (h : Reordered op op') :
    (op.visits.map g).Perm (op'.visits.map g) := by
  induction op using induction generalizing op' with
  | plain k b cs ih =>
    cases h with
    | plain children order =>
      rw [visits_plain, visits_plain, List.map_cons, List.map_cons, List.map_flatMap,
        List.map_flatMap, hg _ _ (.plain children order)]
      exact (perm_flatMap_of_forall₂ (fun c hc c' => ih c hc) children order).cons _
  | conversion k o b cs iho ih =>
    cases h with
    | conversion operand children order =>
      rw [visits_conversion, visits_conversion, List.map_cons, List.map_cons, List.map_append,
        List.map_append, List.map_flatMap, List.map_flatMap,
        hg _ _ (.conversion operand children order)]
      exact ((iho operand).append
        (perm_flatMap_of_forall₂ (fun c hc c' => ih c hc) children order)).cons _

end Reordered

end Operation

/-- What the detector finds at an operation does not depend on the order of children. -/
theorem Detector.finding?_reordered {rule : EffectiveRule} {m : FileModel} {op op' : Operation}
    (h : op.Reordered op') : finding? rule m op = finding? rule m op' := by
  have himplicit : op.isImplicitBoxing = op'.isImplicitBoxing := by
    rw [Operation.isImplicitBoxing, Operation.isImplicitBoxing, h.binding_eq, h.isBoxing_eq]
  simp only [finding?, diagnostic, himplicit, h.operandType?_eq, h.binding_eq]

/-! ## Files -/

/-- The files differ only in the order of roots and, at any depth, of children. -/
structure FileModel.Reordered (m m' : FileModel) : Prop where
  tree_eq : m.tree = m'.tree
  imports_eq : m.imports = m'.imports
  keywords_eq : m.keywords = m'.keywords
  roots : ∃ rs, List.Forall₂ Operation.Reordered m.roots rs ∧ rs.Perm m'.roots

/-- The compilations have the same files but for the order of operations. -/
def Compilation.Reordered (c c' : Compilation) : Prop :=
  List.Forall₂ FileModel.Reordered c.files c'.files

namespace FileModel.Reordered

variable {m m' : FileModel}

theorem perm_map_operations (h : Reordered m m') {β : Type} {g : Operation → β}
    (hg : ∀ op op', Operation.Reordered op op' → g op = g op') :
    (m.operations.map g).Perm (m'.operations.map g) := by
  obtain ⟨rs, hrs, hperm⟩ := h.roots
  rw [operations, operations, Operation.visitsAll_eq_flatMap, Operation.visitsAll_eq_flatMap,
    List.map_flatMap, List.map_flatMap]
  exact perm_flatMap_of_forall₂ (fun op _ op' hop => hop.perm_map_visits hg) hrs hperm

theorem perm_foundIn (h : Reordered m m') (l : Linter) : (l.foundIn m).Perm (l.foundIn m') := by
  have hkept : l.keptFinding? m' = l.keptFinding? m := by
    funext op
    rw [Linter.keptFinding?, Linter.keptFinding?, h.tree_eq,
      Detector.finding?_congr h.tree_eq h.imports_eq h.keywords_eq]
  have hfound : ∀ m₀ : FileModel, m₀.operations.filterMap (l.keptFinding? m) =
      (m₀.operations.map (l.keptFinding? m)).filterMap id := by
    intro m₀
    rw [List.filterMap_map]
    rfl
  have hg : ∀ op op', Operation.Reordered op op' → l.keptFinding? m op = l.keptFinding? m op' := by
    intro op op' hop
    rw [Linter.keptFinding?, Linter.keptFinding?, Detector.finding?_reordered hop]
  rw [Linter.foundIn, Linter.foundIn, hkept, hfound, hfound]
  exact (h.perm_map_operations hg).filterMap id

end FileModel.Reordered

namespace Compilation.Reordered

variable {c c' : Compilation}

theorem treeIds_eq (h : Reordered c c') : c.treeIds = c'.treeIds := by
  rw [treeIds, treeIds, List.Forall₂.length_eq h]

theorem rel_model? (h : Reordered c c') (k : TreeId) :
    Option.Rel FileModel.Reordered (c.model? k) (c'.model? k) := by
  obtain ⟨xs⟩ := c
  obtain ⟨ys⟩ := c'
  change List.Forall₂ FileModel.Reordered xs ys at h
  change Option.Rel FileModel.Reordered xs[k]? ys[k]?
  induction h generalizing k with
  | nil => exact .none
  | cons hm _ ih =>
    cases k with
    | zero => exact .some hm
    | succ k => exact ih k

theorem perm_found (h : Reordered c c') (s : Settings) (listed : List TreeId) :
    ((Linter.ofSettings s).found c listed).Perm ((Linter.ofSettings s).found c' listed) := by
  rw [Linter.found_eq_flatMap, Linter.found_eq_flatMap]
  refine List.Perm.flatMap_left listed fun k _ => ?_
  have hrel := h.rel_model? k
  generalize c.model? k = o, c'.model? k = o' at hrel ⊢
  cases hrel with
  | none => exact .refl _
  | some hm =>
    simp only [Option.toList_some, List.flatMap_singleton]
    exact hm.perm_foundIn _

end Compilation.Reordered

/-- **The order in which operations were bound does not matter.** Let two compilations differ only
in the order of each file's roots and, at any depth, of the children of operations, and let the
signal stay down. Then the reports have the same diagnostics, each as often, and the same
locations, one by one; if no location occurs twice the reports are equal. -/
theorem analyze_reordered {σ : Type} {h : Host σ} {st : σ} (hd : h.StaysDown st) (s : Settings)
    {c c' : Compilation} (hc : c.Reordered c') (listed : List TreeId) :
    c.treeIds = c'.treeIds ∧ ∃ ds ds' : List Diagnostic,
      ((Linter.ofSettings s).analyze h st c listed).result = .ok ds ∧
      ((Linter.ofSettings s).analyze h st c' listed).result = .ok ds' ∧
      ds.Perm ds' ∧ ds.map (·.location) = ds'.map (·.location) ∧
      ((ds.map (·.location)).Nodup → ds = ds') := by
  have hperm := hc.perm_found s listed
  refine ⟨hc.treeIds_eq, _, _, Linter.analyze_of_staysDown hd c listed,
    Linter.analyze_of_staysDown hd c' listed, ?_⟩
  split
  · exact ⟨Diagnostic.perm_sorted hperm, Diagnostic.map_location_sorted hperm,
      Diagnostic.sorted_eq_of_perm hperm⟩
  · exact ⟨.refl _, rfl, fun _ => rfl⟩

namespace NestedBoxing

/-- The `2` of a later statement, boxed to be an argument. -/
def later : Operation :=
  .conversion (some .boxing)
    (.plain .literal ⟨some (.value "System.Int32"), 3, Span.ofLength 7 24 1, .csharp, false⟩ [])
    ⟨some (.reference "System.Object"), 3, Span.ofLength 7 24 1, .csharp, true⟩ []

/-- A block of statements. -/
def block (statements : List Operation) : Operation :=
  .plain .block ⟨none, 0, Span.between 5 5 8 6, .csharp, false⟩ statements

/-- A file with given roots. -/
def fileOf (roots : List Operation) : FileModel :=
  { FileModel.ofTree (Tree.empty 0 "Test0.cs" .csharp) with roots := roots }

/-- Two statements in a block, and the block before another one. -/
def bound : Compilation := ⟨[fileOf [block [call, later], block []]]⟩

/-- The statements of the block and the roots the other way round. -/
def rebound : Compilation := ⟨[fileOf [block [], block [later, call]]]⟩

theorem reordered_rebound : bound.Reordered rebound := by
  have hsame : ∀ ops : List Operation, List.Forall₂ Operation.Reordered ops ops :=
    fun ops => List.forall₂_same.2 fun op _ => .refl op
  have hblock : (block [call, later]).Reordered (block [later, call]) :=
    .plain (hsame _) (.swap _ _ _)
  exact .cons ⟨rfl, rfl, rfl, _, .cons hblock (hsame _), .swap _ _ _⟩ .nil

/-- The three conversions lie at different locations, so the reports are equal. -/
theorem analyze_reordered_rebound :
    Host.quiet.StaysDown () ∧ bound.Reordered rebound ∧
      ∃ ds : List Diagnostic,
        ((Linter.ofSettings Settings.default).analyze Host.quiet () bound [0]).result = .ok ds ∧
        ((Linter.ofSettings Settings.default).analyze Host.quiet () rebound [0]).result = .ok ds ∧
        ds.length = 3 ∧ (ds.map (·.location)).Nodup := by
  obtain ⟨-, ds, ds', hds, hds', -, -, heq⟩ := analyze_reordered Host.staysDown_quiet
    Settings.default reordered_rebound [0]
  have hperm : ds.Perm ((Linter.ofSettings Settings.default).found bound [0]) := by
    rw [Linter.eq_of_analyze_eq_ok hds]
    exact Diagnostic.sorted_perm _
  have hnodup : (ds.map (·.location)).Nodup := by
    rw [(hperm.map _).nodup_iff]
    decide
  obtain rfl := heq hnodup
  exact ⟨Host.staysDown_quiet, reordered_rebound, ds, hds, hds', hperm.length_eq, hnodup⟩

end NestedBoxing

end BoxLint
