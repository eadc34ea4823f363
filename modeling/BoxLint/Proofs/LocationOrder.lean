import BoxLint.Diagnostic
import Mathlib.Data.List.Lex
import Mathlib.Data.List.Nodup

/-!
# The order of locations

Locations are compared by one key, the list of the tree and the four coordinates of the span
(`Location.key`): `precedes` is the lexicographic order of keys (`precedes_iff`). So it is a total
preorder, and sorting by it gives every diagnostic back once (`sorted_perm`), in the order of the
keys (`pairwise_sorted`), while the diagnostics at one location keep their order
(`filter_sorted`). There is one such list (`eq_of_filter_location_eq`), so sorting commutes with
whatever respects the order (`sorted_append`, `sorted_map`, `sorted_filter`). Diagnostics that come
in another order have the same locations once they are sorted (`map_location_sorted`).
-/

namespace BoxLint

namespace Location

/-- What a location is sorted by: the tree, no tree before any other, then the line and the column
where the span starts and those where it stops. -/
def key (l : Location) : List Nat :=
  [l.tree.elim 0 (· + 1), l.span.start.line, l.span.start.col, l.span.stop.line, l.span.stop.col]

theorem precedes_iff (a b : Location) : a.precedes b = true ↔ a.key ≤ b.key := by
  obtain ⟨s, ⟨⟨l₁, c₁⟩, ⟨l₂, c₂⟩⟩⟩ := a
  obtain ⟨t, ⟨⟨l₁', c₁'⟩, ⟨l₂', c₂'⟩⟩⟩ := b
  rw [← not_lt]
  cases s <;> cases t <;>
    simp only [precedes, key, Span.le_def, Position.le_def, Position.lt_def, Position.mk.injEq,
      Bool.or_eq_true, Bool.and_eq_true, decide_eq_true_eq, beq_iff_eq, Option.elim_none,
      Option.elim_some, List.cons_lt_cons_iff, List.not_lt_nil] <;>
    grind

theorem precedes_trans (a b c : Location) (hab : a.precedes b = true) (hbc : b.precedes c = true) :
    a.precedes c = true := by
  rw [precedes_iff] at *
  exact le_trans hab hbc

theorem precedes_total (a b : Location) : (a.precedes b || b.precedes a) = true := by
  rw [Bool.or_eq_true, precedes_iff, precedes_iff]
  exact le_total _ _

theorem precedes_refl (a : Location) : a.precedes a = true := (precedes_iff a a).2 le_rfl

theorem key_injective : Function.Injective key := by
  rintro ⟨s, ⟨⟨l₁, c₁⟩, ⟨l₂, c₂⟩⟩⟩ ⟨t, ⟨⟨l₁', c₁'⟩, ⟨l₂', c₂'⟩⟩⟩ h
  cases s <;> cases t <;> simp_all [key]

end Location

namespace Diagnostic

theorem sorted_perm (ds : List Diagnostic) : (sorted ds).Perm ds := List.mergeSort_perm ds _

theorem pairwise_sorted (ds : List Diagnostic) :
    (sorted ds).Pairwise fun a b => a.location.key ≤ b.location.key := by
  have h : (sorted ds).Pairwise fun a b => a.location.precedes b.location = true :=
    List.pairwise_mergeSort
      (fun a b c : Diagnostic => Location.precedes_trans a.location b.location c.location)
      (fun a b : Diagnostic => Location.precedes_total a.location b.location) ds
  exact h.imp fun hab => (Location.precedes_iff _ _).1 hab

/-- The sort is stable: the diagnostics at one location stay in their order. -/
theorem filter_sorted (ds : List Diagnostic) (l : Location) :
    (sorted ds).filter (·.location = l) = ds.filter (·.location = l) := by
  -- those at `l` are in order already, so they are a sublist of the sorted list
  have hpair : (ds.filter (·.location = l)).Pairwise
      fun a b => a.location.precedes b.location = true := by
    rw [List.pairwise_filter]
    refine List.pairwise_of_forall fun a b ha hb => ?_
    rw [of_decide_eq_true ha, of_decide_eq_true hb]
    exact Location.precedes_refl l
  have hsub : (ds.filter (·.location = l)).Sublist (sorted ds) :=
    List.sublist_mergeSort
      (fun a b c : Diagnostic => Location.precedes_trans a.location b.location c.location)
      (fun a b : Diagnostic => Location.precedes_total a.location b.location) hpair
      List.filter_sublist
  have hsub' := hsub.filter (·.location = l)
  rw [List.filter_filter] at hsub'
  simp only [Bool.and_self] at hsub'
  exact (hsub'.eq_of_length ((sorted_perm ds).filter _).length_eq.symm).symm

theorem mem_iff_of_filter_location_eq {xs ys : List Diagnostic}
    (h : ∀ l, xs.filter (·.location = l) = ys.filter (·.location = l)) (d : Diagnostic) :
    d ∈ xs ↔ d ∈ ys := by
  have := congrArg (d ∈ ·) (h d.location)
  simpa using this

/-- Diagnostics in the order of their keys are known once it is known, for each location, which are
there in which order. -/
theorem eq_of_filter_location_eq {xs ys : List Diagnostic}
    (hx : xs.Pairwise fun a b => a.location.key ≤ b.location.key)
    (hy : ys.Pairwise fun a b => a.location.key ≤ b.location.key)
    (h : ∀ l, xs.filter (·.location = l) = ys.filter (·.location = l)) : xs = ys := by
  induction xs generalizing ys with
  | nil =>
    refine (List.eq_nil_iff_forall_not_mem.2 fun d hd => ?_).symm
    exact List.not_mem_nil ((mem_iff_of_filter_location_eq h d).2 hd)
  | cons x xs ih =>
    have hmem := mem_iff_of_filter_location_eq h
    cases ys with
    | nil => exact absurd ((hmem x).1 List.mem_cons_self) List.not_mem_nil
    | cons y ys =>
      rw [List.pairwise_cons] at hx hy
      -- each head is the least of both lists, so the two share their location
      have hxy : x.location.key ≤ y.location.key := by
        rcases List.mem_cons.1 ((hmem y).2 List.mem_cons_self) with rfl | hy'
        · exact le_rfl
        · exact hx.1 y hy'
      have hyx : y.location.key ≤ x.location.key := by
        rcases List.mem_cons.1 ((hmem x).1 List.mem_cons_self) with rfl | hx'
        · exact le_rfl
        · exact hy.1 x hx'
      have hloc : x.location = y.location := Location.key_injective (le_antisymm hxy hyx)
      have hhead := h x.location
      rw [List.filter_cons_of_pos (by simp), List.filter_cons_of_pos (by simp [hloc])] at hhead
      obtain ⟨rfl, -⟩ := List.cons.inj hhead
      refine congrArg (x :: ·) (ih hx.2 hy.2 fun l => ?_)
      have hl := h l
      rw [List.filter_cons, List.filter_cons] at hl
      split at hl
      · exact (List.cons.inj hl).2
      · exact hl

/-- What is listed first stays first where its locations are no later. -/
theorem sorted_append {xs ys : List Diagnostic}
    (h : ∀ a ∈ xs, ∀ b ∈ ys, a.location.key ≤ b.location.key) :
    sorted (xs ++ ys) = sorted xs ++ sorted ys := by
  refine eq_of_filter_location_eq (pairwise_sorted _) ?_ fun l => ?_
  · refine List.pairwise_append.2 ⟨pairwise_sorted _, pairwise_sorted _, fun a ha b hb => ?_⟩
    exact h a ((sorted_perm xs).mem_iff.1 ha) b ((sorted_perm ys).mem_iff.1 hb)
  · rw [List.filter_append, filter_sorted, filter_sorted, filter_sorted, List.filter_append]

/-- Diagnostics can be left out before or after sorting. -/
theorem sorted_filter (ds : List Diagnostic) (p : Diagnostic → Bool) :
    sorted (ds.filter p) = (sorted ds).filter p := by
  refine eq_of_filter_location_eq (pairwise_sorted _) ((pairwise_sorted ds).filter p) fun l => ?_
  rw [filter_sorted, List.filter_comm, ← filter_sorted, List.filter_comm]

/-- A change of diagnostics that keeps their order can be made before or after sorting. -/
theorem sorted_map {f : Diagnostic → Diagnostic} {ds : List Diagnostic}
    (h : ∀ a ∈ ds, ∀ b ∈ ds,
      a.location.precedes b.location = (f a).location.precedes (f b).location) :
    sorted (ds.map f) = (sorted ds).map f := by
  symm
  apply List.map_mergeSort
  exact h

section Perm

variable {xs ys : List Diagnostic}

theorem perm_sorted (h : xs.Perm ys) : (sorted xs).Perm (sorted ys) :=
  (sorted_perm xs).trans (h.trans (sorted_perm ys).symm)

/-- The locations of sorted diagnostics do not depend on the order from before. -/
theorem map_location_sorted (h : xs.Perm ys) :
    (sorted xs).map (·.location) = (sorted ys).map (·.location) := by
  have hkey : ∀ a b : Location, a.key ≤ b.key → b.key ≤ a.key → a = b :=
    fun a b hab hba => Location.key_injective (le_antisymm hab hba)
  exact List.Perm.eq_of_pairwise (fun a b _ _ => hkey a b)
    (List.pairwise_map.2 (pairwise_sorted xs))
    (List.pairwise_map.2 (pairwise_sorted ys)) ((perm_sorted h).map _)

/-- Where each location has one diagnostic the order from before does not matter at all. -/
theorem sorted_eq_of_perm (h : xs.Perm ys) (hnodup : ((sorted xs).map (·.location)).Nodup) :
    sorted xs = sorted ys := by
  have hperm := perm_sorted h
  refine List.Perm.eq_of_pairwise (fun a b ha hb hab hba => ?_) (pairwise_sorted xs)
    (pairwise_sorted ys) hperm
  have hloc : a.location = b.location := Location.key_injective (le_antisymm hab hba)
  exact List.inj_on_of_nodup_map hnodup ha (hperm.mem_iff.2 hb) hloc

end Perm

end Diagnostic

end BoxLint
