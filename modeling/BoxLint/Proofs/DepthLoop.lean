import BoxLint.Proofs.Ancestry

/-!
# The loop that measures depth

The depth of a node is measured by a loop: as long as there is a parent, count it and go on to the
parent of the parent. `Tree.LoopEnds` says after how many iterations the loop ends and with which
count. On any tree the iterations are the parent links up to a place without a parent
(`loopEnds_iff`). A loop that has followed more links than there are nodes is in a circle; hence the
bounded walk of `Tree.chainEnds` decides whether the loop ends, and where it ends `Tree.depth` is
what it returns (`loopEnds_iff_chainEnds`).

The loops from all nodes end exactly if there is no cycle (`acyclic_iff_chainEnds`). Then the search
for the node at a span, which runs the loop from every node that contains the span
(`searchEnds_iff`), ends too.
-/

namespace BoxLint.Tree

variable {t : Tree} {i : NodeId}

/-- The loop ends: from a count and the parent that is next, after a number of iterations and with
a result. -/
inductive LoopEnds (t : Tree) : (count : Nat) → (next : Option NodeId) → (iterations : Nat) →
    (result : Nat) → Prop
  | stop (count : Nat) : LoopEnds t count none 0 count
  | link {count : Nat} {p : NodeId} {iterations result : Nat}
      (rest : LoopEnds t (count + 1) (t.parent? p) iterations result) :
      LoopEnds t count (some p) (iterations + 1) result

theorem LoopEnds.result_eq {count iterations result : Nat} {next : Option NodeId}
    (h : t.LoopEnds count next iterations result) : result = count + iterations := by
  induction h with
  | stop count => rfl
  | link rest ih => omega

/-- The loop ends once as many links were followed as lead to a place without a parent. -/
theorem loopEnds_iff {count iterations result : Nat} :
    t.LoopEnds count (t.parent? i) iterations result ↔
      result = count + iterations ∧
        ∃ top, t.climb? iterations i = some top ∧ t.parent? top = none := by
  constructor
  · intro h
    refine ⟨h.result_eq, ?_⟩
    generalize hnext : t.parent? i = next at h
    induction h generalizing i with
    | stop count => exact ⟨i, rfl, hnext⟩
    | @link count p iterations result rest ih =>
      obtain ⟨top, hclimb, htop⟩ := ih rfl
      exact ⟨top, by rw [climb?, hnext, Option.bind_some, hclimb], htop⟩
  · rintro ⟨rfl, top, hclimb, htop⟩
    induction iterations generalizing i count with
    | zero =>
      obtain rfl := Option.some.inj hclimb
      rw [htop]
      exact .stop count
    | succ iterations ih =>
      obtain ⟨p, hp, hrest⟩ := Option.bind_eq_some_iff.1 hclimb
      have hcount : count + (iterations + 1) = count + 1 + iterations := by omega
      rw [hp, hcount]
      exact .link (ih hrest)

/-! ## Deciding whether it ends -/

theorem endsWithin_iff {steps : Nat} :
    t.endsWithin steps i = true ↔
      ∃ k ≤ steps, ∃ top, t.climb? k i = some top ∧ t.parent? top = none := by
  induction steps generalizing i with
  | zero =>
    rw [endsWithin, Option.isNone_iff_eq_none]
    constructor
    · intro hi
      exact ⟨0, Nat.le_refl 0, i, rfl, hi⟩
    · rintro ⟨k, hk, top, hclimb, htop⟩
      obtain rfl := Nat.le_zero.1 hk
      obtain rfl := Option.some.inj hclimb
      exact htop
  | succ steps ih =>
    rw [endsWithin]
    cases hp : t.parent? i with
    | none => exact iff_of_true rfl ⟨0, Nat.zero_le _, i, rfl, hp⟩
    | some p =>
      rw [Option.all_some, ih]
      constructor
      · rintro ⟨k, hk, top, hclimb, htop⟩
        exact ⟨k + 1, Nat.succ_le_succ hk, top, by rw [climb?, hp, Option.bind_some, hclimb], htop⟩
      · rintro ⟨k, hk, top, hclimb, htop⟩
        cases k with
        | zero =>
          obtain rfl := Option.some.inj hclimb
          exact absurd (hp.symm.trans htop) (Option.some_ne_none p)
        | succ k =>
          rw [climb?, hp, Option.bind_some] at hclimb
          exact ⟨k, Nat.le_of_succ_le_succ hk, top, hclimb, htop⟩

theorem chainEnds_iff :
    t.chainEnds i = true ↔ ∃ k top, t.climb? k i = some top ∧ t.parent? top = none := by
  rw [chainEnds, endsWithin_iff]
  constructor
  · rintro ⟨k, -, top, hclimb, htop⟩
    exact ⟨k, top, hclimb, htop⟩
  · rintro ⟨k, top, hclimb, htop⟩
    exact ⟨k, le_length_of_top hclimb htop, top, hclimb, htop⟩

/-- On any tree the depth loop ends where the bounded walk says so, and then in one way. -/
theorem loopEnds_iff_chainEnds {iterations result : Nat} :
    t.LoopEnds 0 (t.parent? i) iterations result ↔
      t.chainEnds i = true ∧ iterations = t.depth i ∧ result = t.depth i := by
  rw [loopEnds_iff, Nat.zero_add, chainEnds_iff]
  constructor
  · rintro ⟨rfl, top, hclimb, htop⟩
    have hdepth := depth_of_top hclimb htop
    exact ⟨⟨_, top, hclimb, htop⟩, hdepth.symm, hdepth.symm⟩
  · rintro ⟨⟨k, top, hclimb, htop⟩, rfl, rfl⟩
    rw [depth_of_top hclimb htop]
    exact ⟨rfl, top, hclimb, htop⟩

/-- There is no cycle exactly if the loops from all nodes end. -/
theorem acyclic_iff_chainEnds : t.Acyclic ↔ ∀ i < t.nodes.length, t.chainEnds i = true := by
  constructor
  · intro ht i _
    exact chainEnds_iff.2 (ht.exists_top i)
  · intro hends i k hcycle
    obtain ⟨p, hp, -⟩ := Option.bind_eq_some_iff.1 hcycle
    obtain ⟨j, top, hclimb, htop⟩ := chainEnds_iff.1 (hends i (lt_length_of_parent? hp))
    -- going round once more before the way to the top is a longer way to the top
    have hlonger := climb?_add_eq_some_iff.2 ⟨i, hcycle, hclimb⟩
    have hlength := climb?_top_inj hlonger htop hclimb htop
    omega

instance (t : Tree) : Decidable t.Acyclic := decidable_of_iff _ acyclic_iff_chainEnds.symm

/-- Without a cycle the loop ends in one way. -/
theorem Acyclic.loopEnds_iff_eq_depth (ht : t.Acyclic) {iterations result : Nat} :
    t.LoopEnds 0 (t.parent? i) iterations result ↔
      iterations = t.depth i ∧ result = t.depth i := by
  rw [loopEnds_iff_chainEnds, and_iff_right (chainEnds_iff.2 (ht.exists_top i))]

/-- The search at a span ends exactly if the loops from all nodes that contain the span end. -/
theorem searchEnds_iff {s : Span} :
    t.searchEnds s = true ↔ ∀ n ∈ t.nodes, n.span.contains s = true →
      ∃ iterations result, t.LoopEnds 0 (t.parent? n.id) iterations result := by
  simp only [searchEnds, List.all_eq_true, List.mem_filter, and_imp, loopEnds_iff_chainEnds]
  refine forall_congr' fun n => forall_congr' fun _ => forall_congr' fun _ => ?_
  constructor
  · intro hends
    exact ⟨_, _, hends, rfl, rfl⟩
  · rintro ⟨-, -, hends, -⟩
    exact hends

theorem Acyclic.searchEnds (ht : t.Acyclic) (s : Span) : t.searchEnds s = true :=
  searchEnds_iff.2 fun _ _ _ => ⟨_, _, ht.loopEnds_iff_eq_depth.2 ⟨rfl, rfl⟩⟩

/-- **The depth loop ends on every tree without a cycle.** Parents may be added after their children
or be missing. From every place the loop ends, after as many iterations as `depth` says and with
that result and in no other way; these are the parent links up to a place without a parent, and no
more than there are nodes. A node has a definite number of links to each of its ancestors, and is deeper
than the ancestor by that number. -/
theorem loopEnds_of_acyclic (ht : t.Acyclic) :
    (∀ i iterations result, t.LoopEnds 0 (t.parent? i) iterations result ↔
      iterations = t.depth i ∧ result = t.depth i) ∧
    (∀ i, t.depth i ≤ t.nodes.length ∧
      ∃ top, t.climb? (t.depth i) i = some top ∧ t.parent? top = none) ∧
    ∀ a b, t.IsAncestor a b → ∃ links, 0 < links ∧ (∀ k, t.climb? k b = some a ↔ k = links) ∧
      t.depth b = t.depth a + links := by
  refine ⟨fun _ _ _ => ht.loopEnds_iff_eq_depth, fun i => ?_, ?_⟩
  · obtain ⟨-, top, hclimb, htop⟩ := loopEnds_iff.1 (ht.loopEnds_iff_eq_depth (i := i).2 ⟨rfl, rfl⟩)
    exact ⟨ht.le_of_climb? hclimb, top, hclimb, htop⟩
  · rintro a b ⟨k, hk⟩
    refine ⟨k + 1, Nat.succ_pos k, fun j => ⟨fun hj => ht.climb?_inj hj hk, ?_⟩,
      ht.depth_of_climb? hk⟩
    rintro rfl
    exact hk

namespace ForwardParent

/-- The parent of the first node is added after it, and its parent in turn is missing. -/
def tree : Tree :=
  ((Tree.empty 0 "Test0.cs" .csharp).push 9 (.ofLength 6 28 1) (some 1)).push 100 (.ofLength 6 20 9)
    (some 9)

theorem acyclic_tree : tree.Acyclic := by decide

/-- From the first node the loop takes as many iterations as there are nodes, the last one through
the missing parent. -/
theorem loopEnds_of_acyclic_forward :
    tree.Acyclic ∧ tree.nodes.length = 2 ∧ tree.LoopEnds 0 (tree.parent? 0) 2 2 ∧
      tree.IsAncestor 1 0 ∧ tree.depth 0 = tree.depth 1 + 1 := by
  have hancestor : tree.IsAncestor 1 0 := ⟨0, rfl⟩
  obtain ⟨hends, -, hdeeper⟩ := loopEnds_of_acyclic acyclic_tree
  obtain ⟨links, -, hlinks, hdepth⟩ := hdeeper 1 0 hancestor
  obtain rfl : 1 = links := (hlinks 1).1 rfl
  exact ⟨acyclic_tree, rfl, (hends 0 2 2).2 ⟨rfl, rfl⟩, hancestor, hdepth⟩

end ForwardParent

end BoxLint.Tree
