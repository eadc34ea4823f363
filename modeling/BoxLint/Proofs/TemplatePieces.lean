import BoxLint.Message
import Mathlib.Data.List.Induction
import Mathlib.Data.Nat.Digits.Defs

/-!
# The pieces of a template

A template is a row of pieces, each a slot or a single character that stands for itself
(`Message.Splits`). Which text is a slot depends on the number of arguments and not on what they
say, and a brace that could open a slot always does, so one piece and no other can stand first
(`Piece.Fits`). Hence there is one way to split a template (`splits_unique`), and filling it copies
the characters and puts the arguments in the places of the slots (`fill_of_splits`).

Whether a brace opens a slot is decided at the next closing brace. In closed text each opening brace
has one behind it, so what follows the text cannot change its pieces (`Splits.append`).
-/

namespace BoxLint.Message

/-- The digits write the number `k`, in decimal. -/
def Writes (digits : List Char) (k : Nat) : Prop :=
  digits ≠ [] ∧ (∀ d ∈ digits, d.isDigit = true) ∧
    k = Nat.ofDigits 10 (digits.reverse.map fun d => d.toNat - '0'.toNat)

/-- Between braces the text is a slot for the argument `k` of `n`: digits that write `k`, after a
plus sign or not. -/
def IsSlot (n : Nat) (body : List Char) (k : Nat) : Prop :=
  (∃ digits, (body = digits ∨ body = '+' :: digits) ∧ Writes digits k) ∧ k < n

/-- The text begins with a slot, which ends at the first closing brace. -/
def BeginsWithSlot (n : Nat) (cs : List Char) : Prop :=
  ∃ body k rest, cs = '{' :: (body ++ '}' :: rest) ∧ '}' ∉ body ∧ IsSlot n body k

/-- A piece of a template: a slot with the number of its argument, or a character. -/
inductive Piece where
  | slot (body : List Char) (number : Nat)
  | literal (c : Char)
  deriving DecidableEq

/-- The piece as it stands in the template. -/
def Piece.text : Piece → List Char
  | .slot body _ => '{' :: (body ++ ['}'])
  | .literal c => [c]

/-- The piece as it stands in the message: a slot gives way to its argument. -/
def Piece.filled (args : List String) : Piece → List Char
  | .slot _ number => (args[number]?.getD "").toList
  | .literal c => [c]

/-- The text of a template with `n` arguments falls into pieces: they make up the text, the slots
among them are slots, and where a brace stands for itself no slot begins. -/
structure Splits (n : Nat) (cs : List Char) (ps : List Piece) : Prop where
  text : ps.flatMap Piece.text = cs
  slots : ∀ body k, .slot body k ∈ ps → '}' ∉ body ∧ IsSlot n body k
  literals : ∀ after, .literal '{' :: after <:+ ps →
    ¬ BeginsWithSlot n ('{' :: after.flatMap Piece.text)

variable {n k k' : Nat} {args : List String} {c : Char} {body body' rest rest' cs more : List Char}
  {ps qs : List Piece}

/-! ## Slots -/

theorem decimal_eq_ofDigits (ds : List Char) :
    decimal ds = Nat.ofDigits 10 (ds.reverse.map fun d => d.toNat - '0'.toNat) := by
  induction ds using List.reverseRecOn with
  | nil => rfl
  | append_singleton ds d ih =>
    rw [decimal, List.foldl_append, ← decimal, ih, List.reverse_append, List.map_append]
    simp only [List.foldl_cons, List.foldl_nil, List.reverse_singleton, List.map_singleton,
      List.singleton_append, Nat.ofDigits_cons]
    omega

theorem writes_iff {digits : List Char} :
    Writes digits k ↔
      (if digits ≠ [] ∧ digits.all Char.isDigit then some (decimal digits) else none) = some k := by
  rw [Option.ite_none_right_eq_some, List.all_eq_true, Option.some.injEq, decimal_eq_ofDigits,
    and_assoc, Writes, @eq_comm _ k]

theorem Writes.ne_plus {digits : List Char} (h : Writes digits k) (ds : List Char) :
    digits ≠ '+' :: ds := by
  rintro rfl
  exact absurd (h.2.1 '+' List.mem_cons_self) (by decide)

theorem slotNumber?_eq_some_iff :
    slotNumber? body = some k ↔
      ∃ digits, (body = digits ∨ body = '+' :: digits) ∧ Writes digits k := by
  by_cases hplus : ∃ ds, body = '+' :: ds
  · obtain ⟨ds, rfl⟩ := hplus
    have hds : slotNumber? ('+' :: ds) = some k ↔ Writes ds k := writes_iff.symm
    rw [hds]
    constructor
    · exact fun h => ⟨ds, Or.inr rfl, h⟩
    · rintro ⟨digits, rfl | hd, h⟩
      · exact absurd rfl (h.ne_plus ds)
      · rwa [(List.cons.inj hd).2]
  · have hne : ∀ ds, body = '+' :: ds → False := fun ds h => hplus ⟨ds, h⟩
    have hbody : slotNumber? body = some k ↔ Writes body k := by
      -- by `hne` all of the body is read as digits
      rw [writes_iff]
      simp only [slotNumber?]
    rw [hbody]
    constructor
    · exact fun h => ⟨body, Or.inl rfl, h⟩
    · rintro ⟨digits, rfl | rfl, h⟩
      · exact h
      · exact absurd ⟨digits, rfl⟩ hplus

theorem cutSlot?_eq_some_iff :
    cutSlot? cs = some (body, rest) ↔ cs = body ++ '}' :: rest ∧ '}' ∉ body := by
  induction cs generalizing body with
  | nil => simp [cutSlot?]
  | cons c cs ih =>
    by_cases hc : c = '}'
    · rw [cutSlot?, if_pos hc]
      subst hc
      cases body with
      | nil => simp [eq_comm]
      | cons b body => simp +contextual [eq_comm]
    · rw [cutSlot?, if_neg hc, Option.map_eq_some_iff]
      cases body with
      | nil => simp [hc]
      | cons b body =>
        constructor
        · rintro ⟨⟨body', rest'⟩, hcut, heq⟩
          cases heq
          obtain ⟨rfl, hb⟩ := ih.1 hcut
          exact ⟨rfl, by simp [hb, Ne.symm hc]⟩
        · rintro ⟨heq, hb⟩
          obtain ⟨rfl, rfl⟩ := List.cons.inj heq
          exact ⟨(body, rest), ih.2 ⟨rfl, fun h => hb (List.mem_cons_of_mem c h)⟩, rfl⟩

/-- A text is cut at its first closing brace in one way. -/
theorem eq_of_append_brace_eq (hb : '}' ∉ body) (hb' : '}' ∉ body')
    (h : body ++ '}' :: rest = body' ++ '}' :: rest') : body = body' ∧ rest = rest' := by
  have hcut : cutSlot? (body ++ '}' :: rest) = some (body, rest) :=
    cutSlot?_eq_some_iff.2 ⟨rfl, hb⟩
  rw [h, cutSlot?_eq_some_iff.2 ⟨rfl, hb'⟩, Option.some.injEq, Prod.mk.injEq] at hcut
  exact ⟨hcut.1.symm, hcut.2.symm⟩

theorem IsSlot.number_eq (h : IsSlot n body k) (h' : IsSlot n body k') : k = k' :=
  Option.some.inj ((slotNumber?_eq_some_iff.2 h.1).symm.trans (slotNumber?_eq_some_iff.2 h'.1))

theorem slot?_eq_some_iff {a : String} :
    slot? args cs = some (a, rest) ↔ ∃ body k, cs = body ++ '}' :: rest ∧ '}' ∉ body ∧
      IsSlot args.length body k ∧ args[k]? = some a := by
  constructor
  · intro h
    unfold slot? at h
    split at h
    · cases h
    · next body rest' hcut =>
      obtain ⟨a', ha', heq⟩ := Option.map_eq_some_iff.1 h
      cases heq
      obtain ⟨k, hk, harg⟩ := Option.bind_eq_some_iff.1 ha'
      obtain ⟨hcs, hb⟩ := cutSlot?_eq_some_iff.1 hcut
      have hlt := (List.getElem?_eq_some_iff.1 harg).1
      exact ⟨body, k, hcs, hb, ⟨slotNumber?_eq_some_iff.1 hk, hlt⟩, harg⟩
  · rintro ⟨body, k, hcs, hb, hslot, harg⟩
    rw [slot?, cutSlot?_eq_some_iff.2 ⟨hcs, hb⟩]
    simp only [slotNumber?_eq_some_iff.2 hslot.1, Option.bind_some, harg, Option.map_some]

theorem beginsWithSlot_iff :
    BeginsWithSlot args.length (c :: cs) ↔ c = '{' ∧ ∃ x, slot? args cs = some x := by
  constructor
  · rintro ⟨body, k, rest, heq, hb, hslot⟩
    obtain ⟨rfl, rfl⟩ := List.cons.inj heq
    have harg := List.getElem?_eq_getElem hslot.2
    exact ⟨rfl, _, slot?_eq_some_iff.2 ⟨body, k, rfl, hb, hslot, harg⟩⟩
  · rintro ⟨rfl, ⟨a, rest⟩, h⟩
    obtain ⟨body, k, rfl, hb, hslot, -⟩ := slot?_eq_some_iff.1 h
    exact ⟨body, k, rest, rfl, hb, hslot⟩

/-! ## The first piece -/

/-- The piece can stand before the rest of a template. -/
def Piece.Fits (n : Nat) (rest : List Char) : Piece → Prop
  | .slot body k => '}' ∉ body ∧ IsSlot n body k
  | .literal c => ¬ BeginsWithSlot n (c :: rest)

theorem Piece.text_slot_append (body : List Char) (k : Nat) (rest : List Char) :
    (Piece.slot body k).text ++ rest = '{' :: (body ++ '}' :: rest) := by
  simp [Piece.text]

/-- Every text but the empty one has a first piece. -/
theorem exists_fits (n : Nat) (c : Char) (cs : List Char) :
    ∃ p rest, c :: cs = p.text ++ rest ∧ Piece.Fits n rest p ∧ rest.length ≤ cs.length := by
  by_cases hbegins : BeginsWithSlot n (c :: cs)
  · obtain ⟨body, k, rest, heq, hslot⟩ := hbegins
    obtain ⟨-, rfl⟩ := List.cons.inj heq
    refine ⟨.slot body k, rest, heq.trans (Piece.text_slot_append body k rest).symm, hslot, ?_⟩
    simp only [List.length_append, List.length_cons]
    omega
  · exact ⟨.literal c, cs, rfl, hbegins, Nat.le_refl _⟩

/-- A slot and a character cannot both stand first, nor can two slots. -/
theorem Piece.Fits.unique {p q : Piece} (hp : p.Fits n rest) (hq : q.Fits n rest')
    (h : p.text ++ rest = q.text ++ rest') : p = q ∧ rest = rest' := by
  cases p with
  | slot body k =>
    rw [text_slot_append] at h
    cases q with
    | slot body' k' =>
      rw [text_slot_append] at h
      obtain ⟨rfl, rfl⟩ := eq_of_append_brace_eq hp.1 hq.1 (List.cons.inj h).2
      rw [hp.2.number_eq hq.2]
      exact ⟨rfl, rfl⟩
    | literal c => exact absurd ⟨body, k, rest, h.symm, hp⟩ hq
  | literal c =>
    cases q with
    | slot body k =>
      rw [text_slot_append] at h
      exact absurd ⟨body, k, rest', h, hq⟩ hp
    | literal c' =>
      obtain ⟨rfl, rfl⟩ := List.cons.inj h
      exact ⟨rfl, rfl⟩

/-- A text is filled from its first piece on. -/
theorem Piece.Fits.fill_append {p : Piece} (h : p.Fits args.length rest) :
    fill args (p.text ++ rest) = p.filled args ++ fill args rest := by
  cases p with
  | slot body k =>
    obtain ⟨hb, hslot⟩ := h
    obtain ⟨a, harg⟩ : ∃ a, args[k]? = some a := ⟨_, List.getElem?_eq_getElem hslot.2⟩
    have hcut : slot? args (body ++ '}' :: rest) = some (a, rest) :=
      slot?_eq_some_iff.2 ⟨body, k, rfl, hb, hslot, harg⟩
    rw [text_slot_append, fill, if_pos rfl, Piece.filled, harg]
    split
    · next hcut' =>
      cases hcut.symm.trans hcut'
      rfl
    · next hcut' => cases hcut.symm.trans hcut'
  | literal c =>
    rw [Piece.text, List.singleton_append, fill]
    split
    · next hc =>
      split
      · next hcut => exact absurd (beginsWithSlot_iff.2 ⟨hc, _, hcut⟩) h
      · rfl
    · rfl

/-! ## All pieces -/

theorem splits_nil_iff : Splits n [] ps ↔ ps = [] := by
  constructor
  · intro h
    cases ps with
    | nil => rfl
    | cons p ps => cases p <;> simpa [Piece.text] using h.text
  · rintro rfl
    exact ⟨rfl, by simp, by simp⟩

theorem splits_cons_iff {p : Piece} :
    Splits n cs (p :: ps) ↔ ∃ rest, cs = p.text ++ rest ∧ p.Fits n rest ∧ Splits n rest ps := by
  constructor
  · intro h
    have htail : Splits n (ps.flatMap Piece.text) ps :=
      ⟨rfl, fun body k hmem => h.slots body k (List.mem_cons_of_mem p hmem),
        fun after hs => h.literals after (hs.trans (List.suffix_cons p ps))⟩
    refine ⟨_, h.text.symm, ?_, htail⟩
    cases p with
    | slot body k => exact h.slots body k List.mem_cons_self
    | literal c =>
      rintro ⟨body, k, rest, heq, hslot⟩
      obtain ⟨rfl, -⟩ := List.cons.inj heq
      exact h.literals ps List.suffix_rfl ⟨body, k, rest, heq, hslot⟩
  · rintro ⟨rest, rfl, hfits, h⟩
    refine ⟨by rw [List.flatMap_cons, h.text], fun body k hmem => ?_, fun after hs => ?_⟩
    · rcases List.mem_cons.1 hmem with rfl | hmem
      · exact hfits
      · exact h.slots body k hmem
    · rcases List.suffix_cons_iff.1 hs with heq | hs
      · cases heq
        rw [h.text]
        exact hfits
      · exact h.literals after hs

/-- There is one way to split a text. -/
theorem splits_unique (hp : Splits n cs ps) (hq : Splits n cs qs) : ps = qs := by
  induction ps generalizing cs qs with
  | nil =>
    obtain rfl : [] = cs := hp.text
    exact (splits_nil_iff.1 hq).symm
  | cons p ps ih =>
    obtain ⟨rest, rfl, hfits, hp⟩ := splits_cons_iff.1 hp
    cases qs with
    | nil => cases p <;> exact absurd hq.text (by simp [Piece.text])
    | cons q qs =>
      obtain ⟨rest', heq, hfits', hq⟩ := splits_cons_iff.1 hq
      obtain ⟨rfl, rfl⟩ := hfits.unique hfits' heq
      rw [ih hp hq]

/-- Every text splits. -/
theorem exists_splits (n : Nat) (cs : List Char) : ∃ ps, Splits n cs ps := by
  induction hlen : cs.length using Nat.strongRecOn generalizing cs with
  | ind l ih =>
    cases cs with
    | nil => exact ⟨[], splits_nil_iff.2 rfl⟩
    | cons c cs =>
      obtain ⟨p, rest, heq, hfits, hle⟩ := exists_fits n c cs
      have hlt : rest.length < l := by
        rw [← hlen, List.length_cons]
        omega
      obtain ⟨ps, hps⟩ := ih rest.length hlt rest rfl
      exact ⟨p :: ps, splits_cons_iff.2 ⟨rest, heq, hfits, hps⟩⟩

theorem fill_of_splits (h : Splits args.length cs ps) :
    fill args cs = ps.flatMap (Piece.filled args) := by
  induction ps generalizing cs with
  | nil =>
    obtain rfl : [] = cs := h.text
    rw [fill, List.flatMap_nil]
  | cons p ps ih =>
    obtain ⟨rest, rfl, hfits, h⟩ := splits_cons_iff.1 h
    rw [hfits.fill_append, ih h, List.flatMap_cons]

/-- **A template has one split into pieces, whatever the arguments say, and is filled piece by
piece.** For each number of arguments there is exactly one way to split the template into slots and
characters; with any arguments of that number the message is the row of these pieces, each character
copied and each slot replaced by its argument as it is. -/
theorem format_eq_pieces (template : String) (n : Nat) :
    ∃ ps, (∀ qs, Splits n template.toList qs ↔ qs = ps) ∧
      ∀ args : List String, args.length = n →
        format template args = String.ofList (ps.flatMap (Piece.filled args)) := by
  obtain ⟨ps, hps⟩ := exists_splits n template.toList
  refine ⟨ps, fun qs => ⟨fun hqs => splits_unique hqs hps, fun heq => heq ▸ hps⟩, ?_⟩
  rintro args rfl
  rw [format, fill_of_splits hps]

namespace NestedBrace

/-- A brace before a slot, and a slot that is not closed. -/
def template : String := "\x7b{0}\x7b1"

def pieces : List Piece := [.literal '{', .slot ['0'] 0, .literal '{', .literal '1']

/-- The first argument looks like a slot. -/
def arguments : List String := ["{1}", "b"]

theorem splits_template : Splits 2 template.toList pieces := by
  have hnot : ∀ c cs, ¬ (c = '{' ∧ (slot? arguments cs).isSome) → ¬ BeginsWithSlot 2 (c :: cs) := by
    intro c cs h hbegins
    obtain ⟨hc, x, hx⟩ := (@beginsWithSlot_iff arguments c cs).1 hbegins
    exact h ⟨hc, Option.isSome_of_mem hx⟩
  have hslot : IsSlot 2 ['0'] 0 := ⟨slotNumber?_eq_some_iff.1 rfl, Nat.zero_lt_two⟩
  refine splits_cons_iff.2 ⟨_, rfl, hnot _ _ (by decide), ?_⟩
  refine splits_cons_iff.2 ⟨['{', '1'], rfl, ⟨by decide, hslot⟩, ?_⟩
  refine splits_cons_iff.2 ⟨_, rfl, hnot _ _ (by decide), ?_⟩
  exact splits_cons_iff.2 ⟨_, rfl, hnot _ _ (by decide), splits_nil_iff.2 rfl⟩

/-- One slot is filled, with an argument that stays as it is, and two braces stand for
themselves. -/
theorem format_eq_pieces_template :
    arguments.length = 2 ∧ Splits 2 template.toList pieces ∧
      format template arguments = String.ofList (pieces.flatMap (Piece.filled arguments)) ∧
      format template arguments = "\x7b{1}\x7b1" := by
  obtain ⟨ps, hps, hformat⟩ := format_eq_pieces template 2
  obtain rfl := (hps _).1 splits_template
  exact ⟨rfl, splits_template, hformat arguments rfl, by rw [hformat arguments rfl]; rfl⟩

end NestedBrace

/-! ## Closed text -/

/-- Each opening brace has a closing one behind it. -/
def Closed (cs : List Char) : Prop := ∀ rest, '{' :: rest <:+ cs → '}' ∈ rest

theorem closed_nil : Closed [] := by
  intro rest h
  simp at h

theorem closed_cons_iff : Closed (c :: cs) ↔ (c = '{' → '}' ∈ cs) ∧ Closed cs := by
  simp only [Closed, List.suffix_cons_iff]
  grind

instance decidableClosed : (cs : List Char) → Decidable (Closed cs)
  | [] => isTrue closed_nil
  | c :: cs =>
    have := decidableClosed cs
    decidable_of_iff ((c = '{' → '}' ∈ cs) ∧ Closed cs) closed_cons_iff.symm

theorem Closed.of_suffix (h : Closed cs) (hs : rest <:+ cs) : Closed rest :=
  fun after hafter => h after (hafter.trans hs)

/-- A slot that begins in closed text ends there. -/
theorem Closed.beginsWithSlot (h : Closed (c :: cs))
    (hbegins : BeginsWithSlot n (c :: (cs ++ more))) : BeginsWithSlot n (c :: cs) := by
  obtain ⟨body, k, rest, heq, hb, hslot⟩ := hbegins
  obtain ⟨rfl, hcs⟩ := List.cons.inj heq
  obtain ⟨before, after, rfl, hbefore⟩ := List.eq_append_cons_of_mem (h cs List.suffix_rfl)
  rw [List.append_assoc] at hcs
  obtain ⟨rfl, -⟩ := eq_of_append_brace_eq hbefore hb hcs
  exact ⟨before, k, after, rfl, hb, hslot⟩

/-- The first piece of closed text does not depend on what follows the text. -/
theorem Piece.Fits.append {p : Piece} (h : p.Fits n rest) (hc : Closed (p.text ++ rest)) :
    p.Fits n (rest ++ more) := by
  cases p with
  | slot body k => exact h
  | literal c => exact fun hbegins => h (hc.beginsWithSlot hbegins)

/-- The pieces of closed text do not depend on what follows the text. -/
theorem Splits.append (hp : Splits n cs ps) (hq : Splits n more qs) (hc : Closed cs) :
    Splits n (cs ++ more) (ps ++ qs) := by
  induction ps generalizing cs with
  | nil =>
    obtain rfl : [] = cs := hp.text
    exact hq
  | cons p ps ih =>
    obtain ⟨rest, rfl, hfits, hp⟩ := splits_cons_iff.1 hp
    have hrest : Closed rest := hc.of_suffix (List.suffix_append p.text rest)
    exact splits_cons_iff.2 ⟨rest ++ more, List.append_assoc _ _ _, hfits.append hc, ih hp hrest⟩

/-- **Closed text and what follows it are filled apart.** If each opening brace of `a` has a closing
one behind it in `a`, the message of `a ++ b` is that of `a` followed by that of `b`. -/
theorem format_append {a : String} (ha : Closed a.toList) (b : String) (args : List String) :
    format (a ++ b) args = format a args ++ format b args := by
  obtain ⟨ps, hps⟩ := exists_splits args.length a.toList
  obtain ⟨qs, hqs⟩ := exists_splits args.length b.toList
  rw [format, format, format, String.toList_append, fill_of_splits (hps.append hqs ha),
    fill_of_splits hps, fill_of_splits hqs, List.flatMap_append, String.ofList_append]

/-- Closed text in which one brace opens nothing, before text that begins with a closing brace. -/
theorem format_append_brace :
    Closed "\x7b{0}".toList ∧ format ("\x7b{0}" ++ "\x7d {1}") ["{1}", "b"] =
      format "\x7b{0}" ["{1}", "b"] ++ format "\x7d {1}" ["{1}", "b"] :=
  ⟨by decide, format_append (by decide) _ _⟩

end BoxLint.Message
