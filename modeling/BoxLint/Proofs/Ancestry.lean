import BoxLint.Syntax.Tree
import Mathlib.Data.Finset.Card

/-!
# Ancestors

Parent links lead from a node up to its ancestors (`Tree.climb?`); the last of them may lead to a
place where no node stands. A way up that ends passes no place twice, so it has no more links than
there are nodes (`le_length_of_top`), and depth counts them (`depth_of_top`). If links never lead
back to where they started (`Tree.Acyclic`), every way up ends, and depth grows by one with each
link down from an ancestor (`Acyclic.depth_of_climb?`).
-/

namespace BoxLint.Tree

variable {t : Tree} {i a b : NodeId} {j k : Nat}

/-- The place that a number of parent links lead to. -/
def climb? (t : Tree) : Nat → NodeId → Option NodeId
  | 0, i => some i
  | k + 1, i => (t.parent? i).bind (t.climb? k)

/-- Parent links never lead back to where they started. -/
def Acyclic (t : Tree) : Prop := ∀ i k, t.climb? (k + 1) i ≠ some i

/-- One or more parent links lead from `i` to `a`. -/
def IsAncestor (t : Tree) (a i : NodeId) : Prop := ∃ k, t.climb? (k + 1) i = some a

theorem climb?_add (t : Tree) (j k : Nat) (i : NodeId) :
    t.climb? (j + k) i = (t.climb? j i).bind (t.climb? k) := by
  induction j generalizing i with
  | zero => rw [Nat.zero_add, climb?, Option.bind_some]
  | succ j ih =>
    rw [Nat.succ_add, climb?, climb?, Option.bind_assoc]
    exact congrArg _ (funext ih)

theorem climb?_add_eq_some_iff :
    t.climb? (j + k) i = some a ↔ ∃ b, t.climb? j i = some b ∧ t.climb? k b = some a := by
  rw [climb?_add, Option.bind_eq_some_iff]

/-- Only a node has a parent. -/
theorem lt_length_of_parent? (h : t.parent? i = some a) : i < t.nodes.length := by
  obtain ⟨n, hn, -⟩ := Option.bind_eq_some_iff.1 h
  exact (List.getElem?_eq_some_iff.1 hn).1

/-- Links that lead to a lower measure never lead back. -/
theorem acyclic_of_measure (f : NodeId → Nat)
    (h : ∀ i p, t.parent? i = some p → f p < f i) : t.Acyclic := by
  have hclimb : ∀ k i a, t.climb? k i = some a → f a + k ≤ f i := by
    intro k
    induction k with
    | zero =>
      intro i a hi
      obtain rfl := Option.some.inj hi
      exact Nat.le_refl _
    | succ k ih =>
      intro i a hi
      obtain ⟨p, hp, ha⟩ := Option.bind_eq_some_iff.1 hi
      have := h i p hp
      have := ih p a ha
      omega
  intro i k hi
  have := hclimb (k + 1) i i hi
  omega

/-- Past a place without a parent there is nothing. -/
theorem climb?_eq_none_of_top (h : t.climb? j i = some a) (ha : t.parent? a = none) (hjk : j < k) :
    t.climb? k i = none := by
  obtain ⟨d, rfl⟩ : ∃ d, k = j + (d + 1) := ⟨k - j - 1, by omega⟩
  rw [climb?_add, h, Option.bind_some, climb?, ha, Option.bind_none]

/-- All walks to a place without a parent have one length. -/
theorem climb?_top_inj (hj : t.climb? j i = some a) (ha : t.parent? a = none)
    (hk : t.climb? k i = some b) (hb : t.parent? b = none) : j = k := by
  rcases Nat.lt_trichotomy j k with hlt | heq | hlt
  · exact absurd (climb?_eq_none_of_top hj ha hlt) (hk ▸ Option.some_ne_none b)
  · exact heq
  · exact absurd (climb?_eq_none_of_top hk hb hlt) (hj ▸ Option.some_ne_none a)

/-! ## The number of links -/

/-- There are no more links on a way up that passes no place twice than nodes. -/
theorem le_length_of_climb? (h : t.climb? k i = some a)
    (hinj : ∀ j j' b, j < k → j' < k → t.climb? j i = some b → t.climb? j' i = some b → j = j') :
    k ≤ t.nodes.length := by
  -- each link starts at a node of its own
  have hstart : ∀ j < k, ∃ b, t.climb? j i = some b ∧ b < t.nodes.length := by
    intro j hj
    obtain ⟨d, rfl⟩ : ∃ d, k = j + (d + 1) := ⟨k - j - 1, by omega⟩
    obtain ⟨b, hb, hba⟩ := climb?_add_eq_some_iff.1 h
    obtain ⟨p, hp, -⟩ := Option.bind_eq_some_iff.1 hba
    exact ⟨b, hb, lt_length_of_parent? hp⟩
  have hcard := Finset.card_le_card_of_injOn (s := Finset.range k)
    (t := Finset.range t.nodes.length) (fun j => (t.climb? j i).getD 0) ?_ ?_
  · simpa using hcard
  · intro j hj
    obtain ⟨b, hb, hlt⟩ := hstart j (by simpa using hj)
    simpa [hb] using hlt
  · intro j hj j' hj' heq
    have hjk : j < k := by simpa using hj
    have hjk' : j' < k := by simpa using hj'
    obtain ⟨b, hb, -⟩ := hstart j hjk
    obtain ⟨b', hb', -⟩ := hstart j' hjk'
    obtain rfl : b = b' := by simpa [hb, hb'] using heq
    exact hinj j j' b hjk hjk' hb hb'

/-- A way up that ends passes no place twice: from there the rest would have two lengths. -/
theorem le_length_of_top (h : t.climb? k i = some a) (ha : t.parent? a = none) :
    k ≤ t.nodes.length := by
  have hrest : ∀ j b, j < k → t.climb? j i = some b → t.climb? (k - j) b = some a := by
    intro j b hj hb
    have hsplit : t.climb? (j + (k - j)) i = some a := by rwa [Nat.add_sub_cancel' hj.le]
    rwa [climb?_add, hb, Option.bind_some] at hsplit
  refine le_length_of_climb? h fun j j' b hj hj' hb hb' => ?_
  have hsame := climb?_top_inj (hrest j b hj hb) ha (hrest j' b hj' hb') ha
  omega

namespace Acyclic

theorem climb?_ne (ht : t.Acyclic) (hjk : j < k) (hj : t.climb? j i = some a) :
    t.climb? k i ≠ some a := by
  intro hk
  obtain ⟨d, rfl⟩ : ∃ d, k = j + (d + 1) := ⟨k - j - 1, by omega⟩
  obtain ⟨b, hb, hba⟩ := climb?_add_eq_some_iff.1 hk
  obtain rfl : a = b := Option.some.inj (hj.symm.trans hb)
  exact ht a d hba

/-- Two walks of different lengths end in different places. -/
theorem climb?_inj (ht : t.Acyclic) (hj : t.climb? j i = some a) (hk : t.climb? k i = some a) :
    j = k := by
  rcases Nat.lt_trichotomy j k with hlt | heq | hlt
  · exact absurd hk (ht.climb?_ne hlt hj)
  · exact heq
  · exact absurd hj (ht.climb?_ne hlt hk)

/-- Without a cycle there are no more links on the way up than nodes. -/
theorem le_of_climb? (ht : t.Acyclic) (h : t.climb? k i = some a) : k ≤ t.nodes.length :=
  le_length_of_climb? h fun _ _ _ _ _ hb hb' => ht.climb?_inj hb hb'

/-- The way up ends. -/
theorem exists_top (ht : t.Acyclic) (i : NodeId) :
    ∃ k a, t.climb? k i = some a ∧ t.parent? a = none := by
  by_contra hgoes
  have hclimb : ∀ k, ∃ a, t.climb? k i = some a := by
    intro k
    induction k with
    | zero => exact ⟨i, rfl⟩
    | succ k ih =>
      obtain ⟨a, ha⟩ := ih
      obtain ⟨p, hp⟩ := Option.ne_none_iff_exists'.1 fun hnone => hgoes ⟨k, a, ha, hnone⟩
      exact ⟨p, climb?_add_eq_some_iff.2 ⟨a, ha, by rw [climb?, hp]; rfl⟩⟩
  obtain ⟨a, ha⟩ := hclimb (t.nodes.length + 1)
  exact Nat.not_succ_le_self _ (ht.le_of_climb? ha)

end Acyclic

/-! ## Depth -/

theorem depthWithin_of_climb? {steps : Nat} (h : t.climb? k i = some a) (ha : t.parent? a = none)
    (hk : k ≤ steps) : t.depthWithin steps i = k := by
  induction k generalizing i steps with
  | zero =>
    obtain rfl := Option.some.inj h
    cases steps with
    | zero => rfl
    | succ steps => rw [depthWithin, ha]
  | succ k ih =>
    obtain ⟨p, hp, hpa⟩ := Option.bind_eq_some_iff.1 h
    obtain ⟨steps, rfl⟩ : ∃ s, steps = s + 1 := ⟨steps - 1, by omega⟩
    rw [depthWithin, hp]
    exact congrArg (· + 1) (ih hpa (Nat.le_of_succ_le_succ hk))

/-- Depth is the number of links up to where they end. -/
theorem depth_of_top (h : t.climb? k i = some a) (ha : t.parent? a = none) : t.depth i = k :=
  depthWithin_of_climb? h ha (le_length_of_top h ha)

namespace Acyclic

/-- A node is as much deeper than an ancestor as there are links between them. -/
theorem depth_of_climb? (ht : t.Acyclic) (h : t.climb? k i = some a) :
    t.depth i = t.depth a + k := by
  obtain ⟨d, b, hb, htop⟩ := ht.exists_top a
  rw [depth_of_top hb htop, Nat.add_comm]
  exact depth_of_top (climb?_add_eq_some_iff.2 ⟨a, h, hb⟩) htop

theorem depth_lt_of_isAncestor (ht : t.Acyclic) (h : t.IsAncestor a i) : t.depth a < t.depth i := by
  obtain ⟨k, hk⟩ := h
  rw [ht.depth_of_climb? hk]
  omega

end Acyclic

end BoxLint.Tree
