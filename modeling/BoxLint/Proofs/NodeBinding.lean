import BoxLint.Proofs.Sites

/-!
# The operation of a node

Several operations may be bound from one node: a conversion that the compiler inserted shares the
node of its operand. Operations stand at places of the file, which are ordered as they are visited
(`Place`), and a node has the first of its operations that the user wrote, or the first of all if
the user wrote none (`FileModel.BindsAt`, `FileModel.operation?_eq_some_iff`).

Roots that are added later stand behind all the others, so what came first still does
(`FileModel.IsFirst.addRoots`). They change the operation of a node only where it had none that the
user wrote.
-/

namespace BoxLint

/-! ## Places -/

/-- A place in a file: a root and a path down from it. -/
structure Place where
  root : Nat
  path : Operation.Path
  deriving DecidableEq, Repr

namespace Place

/-- Places are ordered by root, then by path. -/
instance : LT Place := ⟨fun a b => a.root < b.root ∨ a.root = b.root ∧ a.path < b.path⟩

theorem lt_def {a b : Place} : a < b ↔ a.root < b.root ∨ a.root = b.root ∧ a.path < b.path :=
  Iff.rfl

theorem lt_asymm {a b : Place} (h : a < b) : ¬ b < a := by
  rw [lt_def] at *
  rcases h with h | ⟨h, hpath⟩
  · omega
  · rintro (h' | ⟨-, hpath'⟩)
    · omega
    · exact List.lt_asymm hpath hpath'

end Place

/-- In an ascending list the first member with a property is the least one. -/
theorem find?_eq_some_iff_least {α : Type} {r : α → α → Prop} (hr : ∀ a b, r a b → ¬ r b a)
    {xs : List α} (hxs : xs.Pairwise r) {q : α → Bool} {x : α} :
    xs.find? q = some x ↔ x ∈ xs ∧ q x = true ∧ ∀ y ∈ xs, q y = true → x = y ∨ r x y := by
  constructor
  · intro h
    obtain ⟨hq, before, after, rfl, hbefore⟩ := List.find?_eq_some_iff_append.1 h
    refine ⟨List.mem_of_find?_eq_some h, hq, fun y hy hqy => ?_⟩
    rcases List.mem_append.1 hy with hy | hy
    · exact absurd hqy (by simpa using hbefore y hy)
    · rcases List.mem_cons.1 hy with rfl | hy
      · exact Or.inl rfl
      · exact Or.inr (List.rel_of_pairwise_cons (List.pairwise_append.1 hxs).2.1 hy)
  · rintro ⟨hx, hq, hleast⟩
    obtain ⟨before, after, rfl⟩ := List.append_of_mem hx
    refine List.find?_eq_some_iff_append.2 ⟨hq, before, after, rfl, fun y hy => ?_⟩
    have hyx : r y x := (List.pairwise_append.1 hxs).2.2 y hy x List.mem_cons_self
    cases hqy : q y with
    | false => rfl
    | true =>
      rcases hleast y (List.mem_append_left _ hy) hqy with rfl | hxy
      · exact absurd hyx (hr _ _ hyx)
      · exact absurd hyx (hr _ _ hxy)

namespace FileModel

variable {m : FileModel} {n : Node} {a b : Place} {op o : Operation} {P : Operation → Prop}

/-- The operation at a place of the file. -/
def atPlace? (m : FileModel) (a : Place) : Option Operation := m.at? a.root a.path

/-- The operations of the file with their places, in the order they are visited. -/
def placed (m : FileModel) : List (Place × Operation) :=
  (m.locatedIn 0).map fun x => (⟨x.1.root, x.1.path⟩, x.2.2)

theorem mem_placed : (a, o) ∈ m.placed ↔ m.atPlace? a = some o := by
  simp only [placed, List.mem_map, Prod.exists, mem_locatedIn, Prod.mk.injEq, atPlace?]
  constructor
  · rintro ⟨site, m', o', ⟨-, -, h⟩, rfl, rfl⟩
    exact h
  · intro h
    exact ⟨⟨0, a.root, a.path⟩, m, o, ⟨rfl, rfl, h⟩, rfl, rfl⟩

theorem map_snd_placed (m : FileModel) : m.placed.map Prod.snd = m.operations := by
  have h := congrArg (List.map Prod.snd) (m.map_snd_locatedIn 0)
  rw [List.map_map, List.map_map] at h
  rw [placed, List.map_map]
  exact h.trans (List.map_id _)

theorem pairwise_placed (m : FileModel) : m.placed.Pairwise (·.1 < ·.1) := by
  refine List.pairwise_map.2 ((m.pairwise_locatedIn 0).imp_of_mem fun {x y} hx hy hxy => ?_)
  rcases hxy with hfile | ⟨-, hxy⟩
  · rw [(mem_locatedIn.1 hx).1, (mem_locatedIn.1 hy).1] at hfile
    exact absurd hfile (Nat.lt_irrefl 0)
  · exact hxy

theorem mem_operations_iff : o ∈ m.operations ↔ ∃ a, m.atPlace? a = some o := by
  rw [← map_snd_placed, List.mem_map]
  simp only [Prod.exists, exists_eq_right, mem_placed]

/-! ## The first operation with a property -/

/-- The operation has the property, and stands before all others that have it. -/
def IsFirst (m : FileModel) (P : Operation → Prop) (a : Place) (op : Operation) : Prop :=
  m.atPlace? a = some op ∧ P op ∧ ∀ b o, m.atPlace? b = some o → P o → a = b ∨ a < b

theorem find?_operations_eq_some_iff {q : Operation → Bool} :
    m.operations.find? q = some op ↔ ∃ a, m.IsFirst (q · = true) a op := by
  have hleast : ∀ x, m.placed.find? (q ∘ Prod.snd) = some x ↔ x ∈ m.placed ∧ q x.2 = true ∧
      ∀ y ∈ m.placed, q y.2 = true → x = y ∨ x.1 < y.1 := fun x =>
    find?_eq_some_iff_least (fun _ _ h => Place.lt_asymm h) m.pairwise_placed
  rw [← map_snd_placed, List.find?_map, Option.map_eq_some_iff]
  constructor
  · rintro ⟨⟨a, op⟩, hfind, rfl⟩
    obtain ⟨hmem, hq, hfirst⟩ := (hleast _).1 hfind
    refine ⟨a, mem_placed.1 hmem, hq, fun b o hb hqb => ?_⟩
    rcases hfirst (b, o) (mem_placed.2 hb) hqb with heq | hlt
    · exact Or.inl (congrArg Prod.fst heq)
    · exact Or.inr hlt
  · rintro ⟨a, ha, hq, hfirst⟩
    refine ⟨(a, op), (hleast _).2 ⟨mem_placed.2 ha, hq, ?_⟩, rfl⟩
    rintro ⟨b, o⟩ hb hqb
    rcases hfirst b o (mem_placed.1 hb) hqb with rfl | hlt
    · obtain rfl : op = o := Option.some.inj (ha.symm.trans (mem_placed.1 hb))
      exact Or.inl rfl
    · exact Or.inr hlt

theorem find?_operations_eq_none_iff {q : Operation → Bool} :
    m.operations.find? q = none ↔ ∀ a o, m.atPlace? a = some o → ¬ q o = true := by
  simp only [List.find?_eq_none, mem_operations_iff]
  exact ⟨fun h a o ha => h o ⟨a, ha⟩, fun h o ⟨a, ha⟩ => h a o ha⟩

end FileModel

/-! ## The operation of a node -/

/-- The operation was bound from the node. -/
def Operation.BoundFrom (n : Node) (op : Operation) : Prop := op.binding.node = n.id

/-- The operation was bound from the node, and the user wrote it. -/
def Operation.WrittenAs (n : Node) (op : Operation) : Prop :=
  op.BoundFrom n ∧ op.binding.isImplicit = false

namespace FileModel

variable {m : FileModel} {n : Node} {a b : Place} {op o : Operation} {more : List Operation}

/-- The node has the operation at the place: the first of its operations that the user wrote, or
the first of all of them if the user wrote none. -/
def BindsAt (m : FileModel) (n : Node) (a : Place) (op : Operation) : Prop :=
  m.IsFirst (·.WrittenAs n) a op ∨
    (∀ b o, m.atPlace? b = some o → ¬ o.WrittenAs n) ∧ m.IsFirst (·.BoundFrom n) a op

theorem operation?_eq_find? (m : FileModel) (n : Node) :
    m.operation? n =
      (m.operations.find? fun o => o.binding.node == n.id && !o.binding.isImplicit).or
        (m.operations.find? fun o => o.binding.node == n.id) := by
  rw [operation?, List.find?_filter, List.head?_filter]
  simp only [Bool.decide_and, Bool.decide_eq_true]

theorem operation?_eq_some_iff : m.operation? n = some op ↔ ∃ a, m.BindsAt n a op := by
  rw [operation?_eq_find?, Option.or_eq_some_iff]
  simp only [find?_operations_eq_some_iff, find?_operations_eq_none_iff, Bool.and_eq_true,
    beq_iff_eq, Bool.not_eq_true', BindsAt, Operation.WrittenAs, Operation.BoundFrom, exists_or,
    exists_and_left]

theorem operation?_eq_none_iff :
    m.operation? n = none ↔ ∀ a o, m.atPlace? a = some o → ¬ o.BoundFrom n := by
  rw [operation?_eq_find?, Option.or_eq_none_iff]
  simp only [find?_operations_eq_none_iff, Bool.and_eq_true, beq_iff_eq, Operation.BoundFrom]
  exact ⟨fun h => h.2, fun h => ⟨fun a o ha hq => h a o ha hq.1, h⟩⟩

/-! ## Roots added later -/

/-- Adds root operations after the others. -/
def addRoots (m : FileModel) (more : List Operation) : FileModel := more.foldl addRoot m

theorem roots_addRoots (m : FileModel) (more : List Operation) :
    (m.addRoots more).roots = m.roots ++ more := by
  induction more generalizing m with
  | nil => exact (List.append_nil _).symm
  | cons op more ih =>
    have hcons : m.addRoots (op :: more) = (m.addRoot op).addRoots more := rfl
    rw [hcons, ih, addRoot, List.append_assoc]
    rfl

theorem root_lt_of_atPlace? (h : m.atPlace? a = some o) : a.root < m.roots.length := by
  obtain ⟨root, hroot, -⟩ := Option.bind_eq_some_iff.1 h
  exact (List.getElem?_eq_some_iff.1 hroot).1

theorem atPlace?_addRoots (h : a.root < m.roots.length) :
    (m.addRoots more).atPlace? a = m.atPlace? a := by
  rw [atPlace?, at?, roots_addRoots, List.getElem?_append_left h]
  rfl

/-- What comes first in a file still does when roots are added. -/
theorem IsFirst.addRoots {P : Operation → Prop} (h : m.IsFirst P a op) (more : List Operation) :
    (m.addRoots more).IsFirst P a op := by
  obtain ⟨ha, hP, hfirst⟩ := h
  have hroot := root_lt_of_atPlace? ha
  refine ⟨by rwa [atPlace?_addRoots hroot], hP, fun b o hb hPo => ?_⟩
  by_cases hlt : b.root < m.roots.length
  · rw [atPlace?_addRoots hlt] at hb
    exact hfirst b o hb hPo
  · exact Or.inr (Or.inl (by omega))

theorem BindsAt.addRoots_of_written (h : m.BindsAt n a op) (hw : op.binding.isImplicit = false)
    (more : List Operation) : (m.addRoots more).BindsAt n a op := by
  rcases h with h | ⟨hnone, ha, hbound, -⟩
  · exact Or.inl (h.addRoots more)
  · exact absurd ⟨hbound, hw⟩ (hnone a op ha)

/-- A node whose operations the compiler inserted keeps its operation, unless one that the user
wrote is added. -/
theorem BindsAt.addRoots_of_inserted (h : m.BindsAt n a op) (hi : op.binding.isImplicit = true)
    (more : List Operation) :
    (m.addRoots more).BindsAt n a op ∨ ∃ b o, (m.addRoots more).BindsAt n b o ∧
      o.binding.isImplicit = false ∧ m.roots.length ≤ b.root := by
  rcases h with ⟨-, hw, -⟩ | ⟨hnone, hfirst⟩
  · exact absurd (hw.2.symm.trans hi) Bool.false_ne_true
  · obtain ⟨ha, hbound, -⟩ := hfirst.addRoots more
    obtain ⟨o, ho⟩ := Option.ne_none_iff_exists'.1 fun h =>
      operation?_eq_none_iff.1 h a op ha hbound
    obtain ⟨b, hb⟩ := operation?_eq_some_iff.1 ho
    rcases hb with hwritten | ⟨hnone', -⟩
    · refine Or.inr ⟨b, o, Or.inl hwritten, hwritten.2.1.2, Nat.le_of_not_lt fun hlt => ?_⟩
      -- in the old roots the user wrote nothing of the node
      have hb := hwritten.1
      rw [atPlace?_addRoots hlt] at hb
      exact hnone b o hb hwritten.2.1
    · exact Or.inl (Or.inr ⟨hnone', hfirst.addRoots more⟩)

/-- **A node is bound to the first of its operations that the user wrote.** It has no operation
exactly if none at any place of the file was bound from it; otherwise it has the first that the user
wrote, or the first of all if the compiler inserted all of them. So root operations that are added
later never take over from an operation that the user wrote; from an inserted one only an operation
that the user wrote takes over, and it stands in the roots that were added. -/
theorem operation?_first (m : FileModel) (n : Node) :
    (m.operation? n = none ↔ ∀ a o, m.atPlace? a = some o → o.binding.node ≠ n.id) ∧
      (∀ op, m.operation? n = some op ↔ ∃ a, m.BindsAt n a op) ∧
      ∀ more op, m.operation? n = some op →
        (op.binding.isImplicit = false → (m.addRoots more).operation? n = some op) ∧
        (op.binding.isImplicit = true → (m.addRoots more).operation? n = some op ∨
          ∃ b o, (m.addRoots more).operation? n = some o ∧ (m.addRoots more).BindsAt n b o ∧
            o.binding.isImplicit = false ∧ m.roots.length ≤ b.root) := by
  refine ⟨operation?_eq_none_iff, fun op => operation?_eq_some_iff, fun more op h => ?_⟩
  obtain ⟨a, ha⟩ := operation?_eq_some_iff.1 h
  constructor
  · intro hw
    exact operation?_eq_some_iff.2 ⟨a, ha.addRoots_of_written hw more⟩
  · intro hi
    rcases ha.addRoots_of_inserted hi more with hsame | ⟨b, o, hb, hw, hroot⟩
    · exact Or.inl (operation?_eq_some_iff.2 ⟨a, hsame⟩)
    · exact Or.inr ⟨b, o, operation?_eq_some_iff.2 ⟨b, hb⟩, hb, hw, hroot⟩

end FileModel

namespace SharedNode

/-- The node of a literal. -/
def node : Node := ⟨0, NodeKind.literal.code, .csharp, Span.ofLength 6 20 1, none⟩

def literal : Operation :=
  .plain .literal ⟨some (.value "System.Int32"), 0, node.span, .csharp, false⟩ []

/-- A conversion that the compiler inserted, bound from the node of the literal. -/
def boxed (operand : Operation) : Operation :=
  .conversion (some .boxing) operand
    ⟨some (.reference "System.Object"), 0, node.span, .csharp, true⟩ []

/-- Two conversions, one inside the other, of an operation that has a node of its own. -/
def stacked : Operation :=
  boxed (boxed (.plain .other ⟨some (.value "System.Int32"), 1, node.span, .csharp, false⟩ []))

/-- A body that holds the literal under a conversion. -/
def body : Operation := .plain .block ⟨none, 2, node.span, .csharp, false⟩ [boxed literal]

def file : FileModel := (FileModel.ofTree (Tree.empty 0 "Test0.cs" .csharp)).addRoot stacked

/-- The node has the outer one of two conversions, until a body is added that holds the literal. -/
theorem operation?_first_body :
    file.operation? node = some stacked ∧ stacked.binding.isImplicit = true ∧
      (file.addRoots [body]).operation? node = some literal ∧
      ∃ b, (file.addRoots [body]).BindsAt node b literal ∧ file.roots.length ≤ b.root := by
  have hold : file.operation? node = some stacked := rfl
  have hnew : (file.addRoots [body]).operation? node = some literal := rfl
  obtain ⟨-, -, hadded⟩ := FileModel.operation?_first file node
  rcases (hadded [body] stacked hold).2 rfl with hsame | ⟨b, o, ho, hb, -, hroot⟩
  · cases hnew.symm.trans hsame
  · obtain rfl := Option.some.inj (hnew.symm.trans ho)
    exact ⟨hold, rfl, hnew, b, hb, hroot⟩

end SharedNode

end BoxLint
