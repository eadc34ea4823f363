import BoxLint.Proofs.Ancestry
import BoxLint.Proofs.BuildHistory
import BoxLint.Proofs.NodeSearch

/-!
# The innermost node around a span

Several nodes may contain a span, and they need not be nested in each other. The search ends at one
that has no other strictly inside it, so nesting keys stand in for containment; and of the nodes of
that extent it takes the outermost, so depth stands in for ancestry (`Tree.IsNodeAt`). Both hold of
every tree whose parent links have no cycle, wherever its parents were added and even where they are
missing (`Tree.find?_isNodeAt`).
-/

namespace BoxLint.Tree

variable {t : Tree} {s : Span} {r x : Node}

/-- A node of the tree that contains the span. -/
def Around (t : Tree) (s : Span) (x : Node) : Prop := x ∈ t.nodes ∧ x.span.contains s = true

/-- The node is an innermost one around the span, and the outermost one of its extent. -/
structure IsNodeAt (t : Tree) (s : Span) (r : Node) : Prop where
  around : t.Around s r
  /-- No node around the span lies strictly inside this one. -/
  innermost : ∀ x, t.Around s x → ¬ (r.span.contains x.span = true ∧ x.span ≠ r.span)
  /-- At the extent of a node this is a node of that extent. -/
  ofExtent : (∃ x ∈ t.nodes, x.span = s) → r.span = s
  /-- If the nodes around the span are nested, this one lies inside all of them. -/
  inside : (∀ x y, t.Around s x → t.Around s y →
      x.span.contains y.span = true ∨ y.span.contains x.span = true) →
    ∀ x, t.Around s x → x.span.contains r.span = true
  /-- No ancestor has the same extent. -/
  outermost : ∀ a ∈ t.nodes, t.IsAncestor a.id r.id → a.span ≠ r.span
  /-- Of the nodes around the span that have its extent it is the least deep. -/
  depth_le : ∀ x, t.Around s x → x.span = r.span → t.depth r.id ≤ t.depth x.id
  /-- Of those as deep it was the first to be added. -/
  id_le : ∀ x, t.Around s x → x.span = r.span → t.depth x.id = t.depth r.id → r.id ≤ x.id

/-- The numbers of nodes ascend. -/
theorem Numbered.pairwise_id (ht : t.Numbered) : t.nodes.Pairwise (·.id < ·.id) := by
  refine List.pairwise_iff_getElem.2 fun i j hi hj hij => ?_
  rw [ht i _ (List.getElem?_eq_getElem hi), ht j _ (List.getElem?_eq_getElem hj)]
  exact hij

theorem innermost_of_find? (h : t.find? s = some r) (hx : t.Around s x)
    (hc : r.span.contains x.span = true) : x.span = r.span :=
  span_eq_of_rank_le (rank_le_of_find? h hx.1 hx.2) hc

theorem depth_le_of_find? (h : t.find? s = some r) (hx : t.Around s x) (hspan : x.span = r.span) :
    t.depth r.id ≤ t.depth x.id :=
  (rank_le_iff (contains_of_span_eq hspan)).1 (rank_le_of_find? h hx.1 hx.2) hspan

/-- Of the nodes of one rank the first is found. -/
theorem id_le_of_find? (ht : t.Numbered) (h : t.find? s = some r) (hx : t.Around s x)
    (hrank : t.rank x = t.rank r) : r.id ≤ x.id := by
  obtain ⟨before, after, hnodes, -, hbefore, -⟩ := find?_eq_some_iff.1 h
  have hmem := hx.1
  have hids := ht.pairwise_id
  rw [hnodes] at hmem hids
  rcases List.mem_append.1 hmem with hmem | hmem
  · have hlt := hbefore x hmem hx.2
    rw [hrank] at hlt
    exact absurd hlt Std.lt_irrefl
  · rcases List.mem_cons.1 hmem with rfl | hmem
    · exact Nat.le_refl _
    · obtain ⟨-, hids, -⟩ := List.pairwise_append.1 hids
      exact Nat.le_of_lt (List.rel_of_pairwise_cons hids hmem)

/-- **The node at a span is the smallest that contains it, and the outermost of its extent.** Take a
tree whose nodes carry their places, as adding them leaves it, and whose parent links have no cycle.
Nothing is found exactly if no node contains the span, and whatever is found is an innermost node
around the span and the outermost one of its extent. -/
theorem find?_isNodeAt (ht : t.Numbered) (ha : t.Acyclic) (s : Span) :
    (t.find? s = none ↔ ∀ x ∈ t.nodes, x.span.contains s = false) ∧
      ∀ r, t.find? s = some r → t.IsNodeAt s r := by
  refine ⟨find?_eq_none_iff, fun r hr => ?_⟩
  obtain ⟨before, after, hnodes, hcontains, -, -⟩ := find?_eq_some_iff.1 hr
  have hmem : r ∈ t.nodes := by
    rw [hnodes]
    exact List.mem_append_right before List.mem_cons_self
  have hround : ∀ a ∈ t.nodes, a.span = r.span → t.Around s a := fun a hmem hspan =>
    ⟨hmem, by rw [hspan]; exact hcontains⟩
  refine ⟨⟨hmem, hcontains⟩, ?_, ?_, ?_, ?_, ?_, ?_⟩
  · rintro x hx ⟨hc, hne⟩
    exact hne (innermost_of_find? hr hx hc)
  · rintro ⟨x, hx, rfl⟩
    exact (innermost_of_find? hr ⟨hx, Span.contains_refl _⟩ hcontains).symm
  · intro hnested x hx
    rcases hnested x r hx ⟨hmem, hcontains⟩ with hc | hc
    · exact hc
    · exact contains_of_span_eq (innermost_of_find? hr hx hc)
  · -- an ancestor of the same extent would be less deep
    intro a hmem hanc hspan
    have hle := depth_le_of_find? hr (hround a hmem hspan) hspan
    exact Nat.not_le_of_lt (ha.depth_lt_of_isAncestor hanc) hle
  · exact fun x hx hspan => depth_le_of_find? hr hx hspan
  · intro x hx hspan hdepth
    exact id_le_of_find? ht hr hx (by rw [rank, rank, hspan, hdepth])

namespace SharedLines

/-- A declaration over several lines whose initial value is a cast. The cast has the extent of an
expression in parentheses that was added before it; the statement above only overlaps them, and the
file names a parent that is not there. -/
def tree : Tree :=
  ((((Tree.empty 0 "Test0.cs" .csharp).push 1 (.between 1 1 9 1) (some 7)).push 10
    (.between 2 5 3 4) (some 2)).push 100 (.between 2 5 3 4) (some 0)).push 6
      (.between 1 5 2 9) (some 0)

theorem numbered_tree : tree.Numbered :=
  ((((numbered_empty 0 "Test0.cs" .csharp).push 1 _ _).push 10 _ _).push 100 _ _).push 6 _ _

theorem acyclic_tree : tree.Acyclic := by
  refine acyclic_of_measure (fun i => [1, 3, 2, 2][i]?.getD 0) fun i p h => ?_
  have hlinks : ∀ i < 4, ∀ p ∈ tree.parent? i,
      [1, 3, 2, 2][p]?.getD 0 < [1, 3, 2, 2][i]?.getD 0 := by decide
  exact hlinks i (lt_length_of_parent? h) p h

/-- Of the four nodes around a character of the cast the search finds the cast. -/
theorem find?_isNodeAt_cast :
    tree.Numbered ∧ tree.Acyclic ∧
      tree.find? (.ofLength 2 6 1) = some ⟨2, 100, .csharp, .between 2 5 3 4, some 0⟩ ∧
      tree.IsNodeAt (.ofLength 2 6 1) ⟨2, 100, .csharp, .between 2 5 3 4, some 0⟩ := by
  have hfind : tree.find? (.ofLength 2 6 1) =
      some ⟨2, 100, .csharp, .between 2 5 3 4, some 0⟩ := by decide
  exact ⟨numbered_tree, acyclic_tree, hfind,
    (find?_isNodeAt numbered_tree acyclic_tree _).2 _ hfind⟩

end SharedLines

end BoxLint.Tree
