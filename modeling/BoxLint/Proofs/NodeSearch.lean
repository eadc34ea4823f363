import BoxLint.Proofs.Nesting
import BoxLint.Syntax.Tree
import Mathlib.Data.List.Basic

/-!
# The node at a span

The search goes through the nodes that contain a span and takes the first of those with the least
rank (`Tree.find?_eq_some_iff`). At the very extent of a node the nesting does not matter any more:
what is found is a node of that extent, the outermost one (`Tree.Outermost`,
`Tree.find?_span_eq_some_iff`). A node that shares its extent with one further out is never found.
-/

namespace BoxLint

/-! ## The first least member of a list -/

section Least

variable {α β : Type} [LE β] [LT β] [DecidableLE β] [Std.IsLinearPreorder β] [Std.LawfulOrderLT β]
  {f : α → β}

theorem minOn?_of_split {before after : List α} {x : α} (hbefore : ∀ y ∈ before, f x < f y)
    (hafter : ∀ y ∈ after, f x ≤ f y) : (before ++ x :: after).minOn? f = some x := by
  have hx : (x :: after).minOn? f = some x := by
    rw [List.minOn?_cons]
    cases hm : after.minOn? f with
    | none => rfl
    | some m => exact congrArg some (if_pos (hafter m (List.minOn?_mem hm)))
  rw [List.minOn?_append, hx]
  cases hm : before.minOn? f with
  | none => rfl
  | some m =>
    exact congrArg some (if_neg (Std.not_le.2 (hbefore m (List.minOn?_mem hm))))

theorem exists_split_of_minOn? {xs : List α} {x : α} (h : xs.minOn? f = some x) :
    ∃ before after, xs = before ++ x :: after ∧
      (∀ y ∈ before, f x < f y) ∧ ∀ y ∈ after, f x ≤ f y := by
  induction xs generalizing x with
  | nil => simp at h
  | cons a xs ih =>
    rw [List.minOn?_cons] at h
    cases hm : xs.minOn? f with
    | none =>
      have hxs : xs = [] := by
        by_contra hne
        have := (List.isSome_minOn?_iff (f := f)).2 hne
        simp [hm] at this
      obtain rfl : a = x := by simpa [hm] using h
      exact ⟨[], [], by rw [hxs]; rfl, by simp, by simp⟩
    | some m =>
      obtain ⟨before, after, rfl, hbefore, hafter⟩ := ih hm
      rw [hm, Option.elim_some, Option.some.injEq, minOn] at h
      -- the head wins over the least of the rest also when the two are equal
      by_cases ha : f a ≤ f m
      · obtain rfl : a = x := by rwa [if_pos ha] at h
        refine ⟨[], before ++ m :: after, rfl, by simp, fun y hy => ?_⟩
        rcases List.mem_append.1 hy with hy | hy
        · exact Std.le_trans ha (Std.le_of_lt (hbefore y hy))
        · rcases List.mem_cons.1 hy with rfl | hy
          · exact ha
          · exact Std.le_trans ha (hafter y hy)
      · obtain rfl : m = x := by rwa [if_neg ha] at h
        refine ⟨a :: before, after, rfl, fun y hy => ?_, hafter⟩
        rcases List.mem_cons.1 hy with rfl | hy
        · exact Std.not_le.1 ha
        · exact hbefore y hy

end Least

namespace Rank

instance : Std.IsLinearPreorder Rank where
  le_refl a := Or.inr ⟨rfl, Nat.le_refl a.depth⟩
  le_trans a b c hab hbc := by
    rw [le_def] at *
    grind
  le_total a b := by
    rw [le_def, le_def]
    grind

instance : Std.LawfulOrderLT Rank where
  lt_iff a b := by
    rw [lt_def, le_def, le_def]
    grind

end Rank

namespace Tree

variable {t : Tree}

/-- The node at a span is the first of those with the least rank among the nodes that contain it. -/
theorem find?_eq_some_iff {s : Span} {n : Node} :
    t.find? s = some n ↔ ∃ before after, t.nodes = before ++ n :: after ∧
      n.span.contains s = true ∧
      (∀ x ∈ before, x.span.contains s = true → t.rank n < t.rank x) ∧
      ∀ x ∈ after, x.span.contains s = true → t.rank n ≤ t.rank x := by
  constructor
  · intro h
    obtain ⟨before', after', hsplit, hbefore, hafter⟩ := exists_split_of_minOn? h
    obtain ⟨before, rest, hnodes, rfl, hrest⟩ := List.filter_eq_append_iff.1 hsplit
    obtain ⟨skipped, after, rfl, hskipped, hn, rfl⟩ := List.filter_eq_cons_iff.1 hrest
    refine ⟨before ++ skipped, after, by rw [hnodes, List.append_assoc], hn, fun x hx hs => ?_,
      fun x hx hs => hafter x (List.mem_filter.2 ⟨hx, hs⟩)⟩
    rcases List.mem_append.1 hx with hx | hx
    · exact hbefore x (List.mem_filter.2 ⟨hx, hs⟩)
    · exact absurd hs (hskipped x hx)
  · rintro ⟨before, after, hnodes, hn, hbefore, hafter⟩
    rw [find?, hnodes, List.filter_append, List.filter_cons, if_pos hn]
    refine minOn?_of_split (fun x hx => ?_) fun x hx => ?_
    · exact hbefore x (List.mem_filter.1 hx).1 (List.mem_filter.1 hx).2
    · exact hafter x (List.mem_filter.1 hx).1 (List.mem_filter.1 hx).2

theorem find?_eq_none_iff {s : Span} :
    t.find? s = none ↔ ∀ x ∈ t.nodes, x.span.contains s = false := by
  rw [← Option.not_isSome_iff_eq_none, find?, List.isSome_minOn?_iff, not_not,
    List.filter_eq_nil_iff]
  simp only [Bool.not_eq_true]

/-- No node that contains a span has a lower rank than the one that is found there. -/
theorem rank_le_of_find? {s : Span} {r x : Node} (h : t.find? s = some r) (hx : x ∈ t.nodes)
    (hs : x.span.contains s = true) : t.rank r ≤ t.rank x := by
  obtain ⟨before, after, hnodes, -, hbefore, hafter⟩ := find?_eq_some_iff.1 h
  rw [hnodes, List.mem_append, List.mem_cons] at hx
  rcases hx with hx | rfl | hx
  · exact Std.le_of_lt (hbefore x hx hs)
  · exact Std.le_refl _
  · exact hafter x hx hs

/-! ## Nodes of one extent -/

/-- No node with the same extent is further out, and none that is as far out was added before. -/
def Outermost (t : Tree) (n : Node) : Prop :=
  ∃ before after, t.nodes = before ++ n :: after ∧
    (∀ x ∈ before, x.span = n.span → t.depth n.id < t.depth x.id) ∧
    ∀ x ∈ after, x.span = n.span → t.depth n.id ≤ t.depth x.id

theorem rank_lt_iff {n x : Node} (h : x.span.contains n.span = true) :
    t.rank n < t.rank x ↔ (x.span = n.span → t.depth n.id < t.depth x.id) := by
  rw [Rank.lt_def]
  by_cases hx : x.span = n.span
  · simp [rank, hx, Std.lt_irrefl]
  · have := Span.nestingKey_lt_of_contains h (Ne.symm hx)
    simp [rank, hx, this]

theorem rank_le_iff {n x : Node} (h : x.span.contains n.span = true) :
    t.rank n ≤ t.rank x ↔ (x.span = n.span → t.depth n.id ≤ t.depth x.id) := by
  rw [Rank.le_def]
  by_cases hx : x.span = n.span
  · simp [rank, hx, Std.lt_irrefl]
  · have := Span.nestingKey_lt_of_contains h (Ne.symm hx)
    simp [rank, hx, this]

/-- A node strictly inside another has the lower rank. -/
theorem span_eq_of_rank_le {r x : Node} (h : t.rank r ≤ t.rank x)
    (hc : r.span.contains x.span = true) : x.span = r.span := by
  by_contra hne
  exact Std.not_le.2 ((rank_lt_iff hc).2 fun heq => absurd heq.symm hne) h

theorem contains_of_span_eq {n x : Node} (h : x.span = n.span) :
    x.span.contains n.span = true := by
  rw [h]
  exact Span.contains_refl _

theorem outermost_iff {n : Node} : t.Outermost n ↔ t.find? n.span = some n := by
  rw [find?_eq_some_iff, Outermost]
  constructor
  · rintro ⟨before, after, hnodes, hbefore, hafter⟩
    exact ⟨before, after, hnodes, Span.contains_refl _,
      fun x hx hs => (rank_lt_iff hs).2 (hbefore x hx),
      fun x hx hs => (rank_le_iff hs).2 (hafter x hx)⟩
  · rintro ⟨before, after, hnodes, -, hbefore, hafter⟩
    refine ⟨before, after, hnodes, fun x hx hs => ?_, fun x hx hs => ?_⟩
    · have hc := contains_of_span_eq hs
      exact (rank_lt_iff hc).1 (hbefore x hx hc) hs
    · have hc := contains_of_span_eq hs
      exact (rank_le_iff hc).1 (hafter x hx hc) hs

/-- What is found at the extent of a node has that extent. -/
theorem span_of_find?_span {n r : Node} (hn : n ∈ t.nodes) (h : t.find? n.span = some r) :
    r.span = n.span := by
  obtain ⟨-, -, -, hr, -, -⟩ := find?_eq_some_iff.1 h
  exact (span_eq_of_rank_le (rank_le_of_find? h hn (Span.contains_refl _)) hr).symm

/-- At the extent of a node the outermost node of that extent is found. -/
theorem find?_span_eq_some_iff {n r : Node} (hn : n ∈ t.nodes) :
    t.find? n.span = some r ↔ r.span = n.span ∧ t.Outermost r := by
  constructor
  · intro h
    have hspan := span_of_find?_span hn h
    exact ⟨hspan, outermost_iff.2 (by rwa [hspan])⟩
  · rintro ⟨hspan, hr⟩
    rw [← hspan]
    exact outermost_iff.1 hr

end Tree

end BoxLint
