import BoxLint.Proofs.InnermostNode

/-!
# Adding a node

As long as every node is added after its parent (`Tree.ParentsFirst`), a node that is added changes
no way up from the nodes that are there (`Tree.ParentsFirst.climb?_push`), so each keeps its depth
and its rank. The search then chooses between what it found before and the new node
(`Tree.find?_push`): the new node is found where it contains the span and comes before the old
result (`Tree.AddsNode`).
-/

namespace BoxLint

/-- The least member of a list depends on the measures of its members only. -/
theorem minOn?_congr {α β : Type} [LE β] [DecidableLE β] [Std.IsLinearPreorder β] {f g : α → β}
    {xs : List α} (h : ∀ x ∈ xs, f x = g x) : xs.minOn? f = xs.minOn? g := by
  induction xs with
  | nil => rfl
  | cons a xs ih =>
    rw [List.minOn?_cons, List.minOn?_cons, ih fun x hx => h x (List.mem_cons_of_mem a hx)]
    cases hm : xs.minOn? g with
    | none => rfl
    | some m =>
      have hmem : m ∈ a :: xs := List.mem_cons_of_mem a (List.minOn?_mem hm)
      simp only [Option.elim_some, minOn, h a List.mem_cons_self, h m hmem]

namespace Tree

variable {t : Tree} {rawKind : Nat} {s q : Span} {parent : Option NodeId} {i a : NodeId} {k : Nat}

/-- Parents are added before their children. -/
def ParentsFirst (t : Tree) : Prop := ∀ i p, t.parent? i = some p → p < i

/-- The node that is added next. -/
def newNode (t : Tree) (rawKind : Nat) (s : Span) (parent : Option NodeId) : Node :=
  ⟨t.nodes.length, rawKind, t.dialect, s, parent⟩

theorem nodes_push (t : Tree) (rawKind : Nat) (s : Span) (parent : Option NodeId) :
    (t.push rawKind s parent).nodes = t.nodes ++ [t.newNode rawKind s parent] := rfl

theorem parent?_push_of_lt (hi : i < t.nodes.length) :
    (t.push rawKind s parent).parent? i = t.parent? i := by
  rw [parent?, node?_push_of_lt hi, parent?]

theorem parent?_push_length (t : Tree) (rawKind : Nat) (s : Span) (parent : Option NodeId) :
    (t.push rawKind s parent).parent? t.nodes.length = parent := by
  rw [parent?, node?_push_length]
  rfl

theorem parentsFirst_empty (id : TreeId) (path : String) (dialect : Dialect) :
    (Tree.empty id path dialect).ParentsFirst := by
  intro i p h
  simp [parent?, node?, empty] at h

/-! ## Depth -/

namespace ParentsFirst

theorem push (ht : t.ParentsFirst) (rawKind : Nat) (s : Span) (parent : Option NodeId)
    (hparent : ∀ p, parent = some p → p < t.nodes.length) :
    (t.push rawKind s parent).ParentsFirst := by
  intro i p h
  have hi : i < t.nodes.length + 1 := by
    simpa [nodes_push] using lt_length_of_parent? h
  rcases Nat.lt_succ_iff_lt_or_eq.1 hi with hi | rfl
  · rw [parent?_push_of_lt hi] at h
    exact ht i p h
  · rw [parent?_push_length] at h
    exact hparent p h

theorem acyclic (ht : t.ParentsFirst) : t.Acyclic := acyclic_of_measure (fun i => i) ht

/-- The way up from an old node passes old nodes only. -/
theorem climb?_push (ht : t.ParentsFirst) (hi : i < t.nodes.length) :
    (t.push rawKind s parent).climb? k i = t.climb? k i := by
  induction k generalizing i with
  | zero => rfl
  | succ k ih =>
    rw [climb?, climb?, parent?_push_of_lt hi]
    cases hp : t.parent? i with
    | none => rfl
    | some p => exact ih (Nat.lt_trans (ht i p hp) hi)

theorem le_of_climb? (ht : t.ParentsFirst) (h : t.climb? k i = some a) : a ≤ i := by
  induction k generalizing i with
  | zero =>
    obtain rfl := Option.some.inj h
    exact Nat.le_refl _
  | succ k ih =>
    obtain ⟨p, hp, hpa⟩ := Option.bind_eq_some_iff.1 h
    exact Nat.le_trans (ih hpa) (Nat.le_of_lt (ht i p hp))

/-- The old nodes keep their depths. -/
theorem depth_push (ht : t.ParentsFirst) (hi : i < t.nodes.length) :
    (t.push rawKind s parent).depth i = t.depth i := by
  obtain ⟨k, a, hclimb, htop⟩ := ht.acyclic.exists_top i
  have ha : a < t.nodes.length := Nat.lt_of_le_of_lt (ht.le_of_climb? hclimb) hi
  rw [depth_of_top hclimb htop]
  refine depth_of_top (a := a) ?_ ?_
  · rw [ht.climb?_push hi, hclimb]
  · rw [parent?_push_of_lt ha, htop]

/-- The new node is one deeper than its parent. -/
theorem depth_push_length (ht : t.ParentsFirst)
    (hparent : ∀ p, parent = some p → p < t.nodes.length) :
    (t.push rawKind s parent).depth t.nodes.length = parent.elim 0 (t.depth · + 1) := by
  have hlink := parent?_push_length t rawKind s parent
  have hnew := (ht.push rawKind s parent hparent).acyclic
  cases parent with
  | none => exact depth_of_top rfl hlink
  | some p =>
    have hclimb : (t.push rawKind s (some p)).climb? 1 t.nodes.length = some p := by
      rw [climb?, hlink]
      rfl
    rw [hnew.depth_of_climb? hclimb, ht.depth_push (hparent p rfl)]
    rfl

end ParentsFirst

/-! ## The search -/

/-- The search prefers the first node: it starts later than the other, or it starts there and stops
earlier, or it has the same extent and is less deep. -/
def ComesBefore (t : Tree) (n x : Node) : Prop :=
  x.span.start < n.span.start ∨ n.span.start = x.span.start ∧
    (n.span.stop < x.span.stop ∨ n.span.stop = x.span.stop ∧ t.depth n.id < t.depth x.id)

instance (t : Tree) (n x : Node) : Decidable (t.ComesBefore n x) :=
  inferInstanceAs (Decidable (_ ∨ _ ∧ (_ ∨ _ ∧ _)))

theorem rank_lt_iff_comesBefore {n x : Node} : t.rank n < t.rank x ↔ t.ComesBefore n x := by
  rw [Rank.lt_def, NestingKey.lt_def, ComesBefore]
  simp only [rank, Span.nestingKey, NestingKey.mk.injEq]
  tauto

theorem not_comesBefore_of_span_eq {n x : Node} (hspan : n.span = x.span)
    (hdepth : t.depth x.id ≤ t.depth n.id) : ¬ t.ComesBefore n x := by
  rw [ComesBefore, hspan]
  rintro (hlt | ⟨-, hlt | ⟨-, hlt⟩⟩)
  · exact Std.lt_irrefl hlt
  · exact Std.lt_irrefl hlt
  · exact Nat.not_lt_of_le hdepth hlt

theorem around_of_find? {r : Node} (h : t.find? q = some r) : t.Around q r :=
  List.mem_filter.1 (List.minOn?_mem h)

theorem Numbered.id_lt (ht : t.Numbered) {x : Node} (hx : x ∈ t.nodes) : x.id < t.nodes.length := by
  obtain ⟨i, hi, rfl⟩ := List.getElem_of_mem hx
  rw [ht i _ (List.getElem?_eq_getElem hi)]
  exact hi

section Push

variable (ht : t.Numbered) (hfirst : t.ParentsFirst)

include ht hfirst

/-- The search chooses between what it found before and the new node. -/
theorem find?_push (q : Span) :
    (t.push rawKind s parent).find? q =
      (t.find? q).merge (minOn (t.push rawKind s parent).rank)
        (if s.contains q = true then some (t.newNode rawKind s parent) else none) := by
  have hold : (t.nodes.filter (·.span.contains q)).minOn? (t.push rawKind s parent).rank =
      t.find? q := by
    refine minOn?_congr fun x hx => ?_
    rw [rank, rank, hfirst.depth_push (ht.id_lt (List.mem_filter.1 hx).1)]
  have hnew : ([t.newNode rawKind s parent].filter (·.span.contains q)).minOn?
      (t.push rawKind s parent).rank =
      if s.contains q = true then some (t.newNode rawKind s parent) else none := by
    rw [List.filter_cons, List.filter_nil]
    change List.minOn? _ (if s.contains q = true then [_] else []) = _
    split
    · exact List.minOn?_singleton
    · rfl
  rw [find?, nodes_push, List.filter_append, List.minOn?_append, hold, hnew]

theorem find?_push_of_not_contains (hq : s.contains q = false) :
    (t.push rawKind s parent).find? q = t.find? q := by
  rw [find?_push ht hfirst, if_neg (Bool.eq_false_iff.1 hq)]
  cases t.find? q <;> rfl

theorem find?_push_of_none (hq : s.contains q = true) (h : t.find? q = none) :
    (t.push rawKind s parent).find? q = some (t.newNode rawKind s parent) := by
  rw [find?_push ht hfirst, h, if_pos hq]
  rfl

theorem find?_push_of_some {r : Node} (hq : s.contains q = true) (h : t.find? q = some r) :
    (t.push rawKind s parent).find? q =
      some (if (t.push rawKind s parent).ComesBefore (t.newNode rawKind s parent) r then
        t.newNode rawKind s parent else r) := by
  rw [find?_push ht hfirst, h, if_pos hq]
  refine congrArg some ?_
  rw [minOn]
  by_cases hrank : (t.push rawKind s parent).rank r ≤
      (t.push rawKind s parent).rank (t.newNode rawKind s parent)
  · rw [if_pos hrank, if_neg]
    rwa [← rank_lt_iff_comesBefore, Std.not_lt]
  · rw [if_neg hrank, if_pos]
    rwa [← rank_lt_iff_comesBefore, ← Std.not_le]

end Push

/-- What a tree and the search in it become when a node is added. -/
structure AddsNode (t t' : Tree) (n : Node) : Prop where
  numbered : t'.Numbered
  parentsFirst : t'.ParentsFirst
  depth_old : ∀ x ∈ t.nodes, t'.depth x.id = t.depth x.id
  depth_new : t'.depth n.id = n.parent.elim 0 (t.depth · + 1)
  /-- Where the new node does not reach the search finds what it found before. -/
  kept : ∀ q, n.span.contains q = false → t'.find? q = t.find? q
  kept_or_new : ∀ q, n.span.contains q = true → t'.find? q = t.find? q ∨ t'.find? q = some n
  /-- The new node is found where there was none before or where it comes before the old one. -/
  new_iff : ∀ q, n.span.contains q = true →
    (t'.find? q = some n ↔ t.find? q = none ∨ ∃ r, t.find? q = some r ∧ t'.ComesBefore n r)
  /-- A node is not displaced by one of its extent that is as deep or deeper. -/
  kept_of_span_eq : ∀ q r, t.find? q = some r → n.span = r.span →
    t'.depth r.id ≤ t'.depth n.id → t'.find? q = some r

/-- **A node disturbs the search only where it must.** Take a tree whose nodes carry their places
and were added after their parents, and add one more node in the same way. At every span that the
new node does not contain the search finds what it found before. At the others it finds that or the
new node, and the new node exactly if it found nothing before or the new node comes before what it
found. The tree is again one of the same kind. -/
theorem addsNode_push (ht : t.Numbered) (hfirst : t.ParentsFirst) (rawKind : Nat) (s : Span)
    (parent : Option NodeId) (hparent : ∀ p, parent = some p → p < t.nodes.length) :
    t.AddsNode (t.push rawKind s parent) (t.newNode rawKind s parent) where
  numbered := ht.push rawKind s parent
  parentsFirst := hfirst.push rawKind s parent hparent
  depth_old x hx := hfirst.depth_push (ht.id_lt hx)
  depth_new := hfirst.depth_push_length hparent
  kept _ hq := find?_push_of_not_contains ht hfirst hq
  kept_or_new := by
    intro q (hq : s.contains q = true)
    cases h : t.find? q with
    | none => exact .inr (find?_push_of_none ht hfirst hq h)
    | some r =>
      rw [find?_push_of_some ht hfirst hq h]
      split
      · exact .inr rfl
      · exact .inl rfl
  new_iff := by
    intro q (hq : s.contains q = true)
    cases h : t.find? q with
    | none => exact iff_of_true (find?_push_of_none ht hfirst hq h) (.inl rfl)
    | some r =>
      have hr : r ≠ t.newNode rawKind s parent := by
        rintro rfl
        exact Nat.lt_irrefl _ (ht.id_lt (around_of_find? h).1)
      rw [find?_push_of_some ht hfirst hq h]
      simp [hr]
  kept_of_span_eq := by
    intro q r h (hspan : s = r.span) hdepth
    have hq : s.contains q = true := by
      rw [hspan]
      exact (around_of_find? h).2
    rw [find?_push_of_some ht hfirst hq h, if_neg]
    exact not_comesBefore_of_span_eq hspan hdepth

namespace WrappedCast

/-- A method body with a cast in it. -/
def tree : Tree :=
  ((Tree.empty 0 "Test0.cs" .csharp).push 2 (.between 5 5 7 6) none).push 100 (.ofLength 6 20 9)
    (some 0)

def cast : Node := ⟨1, 100, .csharp, .ofLength 6 20 9, some 0⟩

theorem numbered_tree : tree.Numbered :=
  ((numbered_empty 0 "Test0.cs" .csharp).push 2 _ _).push 100 _ _

theorem parentsFirst_tree : tree.ParentsFirst :=
  ((parentsFirst_empty 0 "Test0.cs" .csharp).push 2 _ none nofun).push 100 _ (some 0)
    (by simp [nodes_push])

/-- A node with the extent of the cast does not displace it if it is added under the body, where it
is as deep, and displaces it if it is added without a parent. -/
theorem addsNode_push_wrapper :
    tree.Numbered ∧ tree.ParentsFirst ∧ tree.find? (.ofLength 6 21 1) = some cast ∧
      (tree.push 10 (.ofLength 6 20 9) (some 0)).find? (.ofLength 6 21 1) = some cast ∧
      (tree.push 10 (.ofLength 6 20 9) none).find? (.ofLength 6 21 1) =
        some ⟨2, 10, .csharp, .ofLength 6 20 9, none⟩ ∧
      (tree.push 10 (.ofLength 6 20 9) none).find? (.ofLength 6 29 2) =
        tree.find? (.ofLength 6 29 2) := by
  have hfind : tree.find? (.ofLength 6 21 1) = some cast := by decide
  have hunder := addsNode_push numbered_tree parentsFirst_tree 10 (.ofLength 6 20 9) (some 0)
    (by simp [tree, nodes_push])
  have hbeside := addsNode_push numbered_tree parentsFirst_tree 10 (.ofLength 6 20 9) none nofun
  refine ⟨numbered_tree, parentsFirst_tree, hfind, ?_, ?_, ?_⟩
  · exact hunder.kept_of_span_eq _ cast hfind rfl (by decide)
  · exact (hbeside.new_iff _ (by decide)).2 (.inr ⟨cast, hfind, by decide⟩)
  · exact hbeside.kept _ (by decide)

end WrappedCast

end Tree

end BoxLint
