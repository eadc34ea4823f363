/-!
# Message templates

A template is text with numbered slots: `{0}` stands for the first argument, `{1}` for the second.
A brace opens a slot only if the text up to the next closing brace is the number of an argument;
otherwise it stands for itself and reading goes on right after it. Arguments are copied as they
are, so a brace inside one never opens a slot.
-/

namespace BoxLint.Message

/-- The value of a text of decimal digits. -/
def decimal (ds : List Char) : Nat := ds.foldl (fun n d => 10 * n + (d.toNat - '0'.toNat)) 0

/-- The number a slot names: at least one decimal digit, after a plus sign or not. -/
def slotNumber? (body : List Char) : Option Nat :=
  let digits := match body with
    | '+' :: ds => ds
    | ds => ds
  if digits ≠ [] ∧ digits.all Char.isDigit then some (decimal digits) else none

/-- Cuts a text at its first closing brace: what stands before and after it. -/
def cutSlot? : List Char → Option (List Char × List Char)
  | [] => none
  | c :: cs => if c = '}' then some ([], cs) else (cutSlot? cs).map fun (b, r) => (c :: b, r)

theorem length_of_cutSlot? {cs body rest : List Char} (h : cutSlot? cs = some (body, rest)) :
    rest.length < cs.length := by
  induction cs generalizing body with
  | nil => simp [cutSlot?] at h
  | cons c cs ih =>
    unfold cutSlot? at h
    split at h
    · simp_all
    · obtain ⟨⟨b, r⟩, hb, he⟩ := Option.map_eq_some_iff.1 h
      cases he
      exact Nat.lt_succ_of_lt (ih hb)

/-- The argument named by the slot that the text after an opening brace begins with, and what
follows the slot. -/
def slot? (args : List String) (cs : List Char) : Option (String × List Char) :=
  match cutSlot? cs with
  | none => none
  | some (body, rest) => ((slotNumber? body).bind (args[·]?)).map (·, rest)

theorem length_of_slot? {args : List String} {cs rest : List Char} {a : String}
    (h : slot? args cs = some (a, rest)) : rest.length < cs.length := by
  unfold slot? at h
  split at h
  · simp at h
  · next hc =>
    obtain ⟨_, _, he⟩ := Option.map_eq_some_iff.1 h
    cases he
    exact length_of_cutSlot? hc

/-- Fills the slots of a template, character by character. -/
def fill (args : List String) : List Char → List Char
  | [] => []
  | c :: cs =>
    if c = '{' then
      match _h : slot? args cs with
      | some (a, rest) => a.toList ++ fill args rest
      | none => c :: fill args cs
    else c :: fill args cs
termination_by cs => cs.length
decreasing_by
  all_goals simp_wf
  have := length_of_slot? _h
  omega

/-- The text of a template with its slots filled. -/
def format (template : String) (args : List String) : String :=
  String.ofList (fill args template.toList)

end BoxLint.Message
