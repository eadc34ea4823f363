/-!
# Cutting and searching text

Texts are cut at the last character of a kind, and searched for a word.
-/

namespace BoxLint.Text

/-- Cuts a text at its last character with a property: what stands before and after it. -/
def cutLast? (p : Char → Bool) : List Char → Option (List Char × List Char)
  | [] => none
  | c :: cs =>
    match cutLast? p cs with
    | some (before, after) => some (c :: before, after)
    | none => if p c then some ([], cs) else none

theorem cutLast?_eq_none_iff {p : Char → Bool} {cs : List Char} :
    cutLast? p cs = none ↔ ∀ c ∈ cs, p c = false := by
  fun_induction cutLast? p cs with
  | case1 => simp
  | case2 c cs before after hcut ih =>
    rw [hcut] at ih
    refine iff_of_false nofun fun hall => nomatch ih.2 fun d hd => ?_
    exact hall d (List.mem_cons_of_mem c hd)
  | case3 c cs hcut hc => simp [hc]
  | case4 c cs hcut hc ih =>
    rw [List.forall_mem_cons]
    exact iff_of_true rfl ⟨Bool.eq_false_iff.2 hc, ih.1 hcut⟩

/-- A text is cut at a character of the kind that none of the kind follows. -/
theorem cutLast?_eq_some_iff {p : Char → Bool} {cs before after : List Char} :
    cutLast? p cs = some (before, after) ↔
      ∃ c, p c = true ∧ cs = before ++ c :: after ∧ ∀ d ∈ after, p d = false := by
  constructor
  · intro h
    fun_induction cutLast? p cs generalizing before after with
    | case1 => cases h
    | case2 c cs _ _ hcut ih =>
      cases h
      obtain ⟨d, hd, rfl, hafter⟩ := ih hcut
      exact ⟨d, hd, rfl, hafter⟩
    | case3 c cs hcut hc =>
      cases h
      exact ⟨c, hc, rfl, cutLast?_eq_none_iff.1 hcut⟩
    | case4 => cases h
  · rintro ⟨c, hc, rfl, hafter⟩
    induction before with
    | nil =>
      rw [List.nil_append, cutLast?, cutLast?_eq_none_iff.2 hafter]
      exact if_pos hc
    | cons b before ih => rw [List.cons_append, cutLast?, ih]

/-- Whether a word occurs in a text. -/
def occurs (word : List Char) : List Char → Bool
  | [] => word.isEmpty
  | c :: cs => word.isPrefixOf (c :: cs) || occurs word cs

end BoxLint.Text
