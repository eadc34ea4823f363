import BoxLint.Toml.Document
import Mathlib.Algebra.Group.Nat.Defs
import Mathlib.Tactic.SplitIfs

/-!
# Writing text

Lines of a document that read back as they were meant: headers, and fields that hold a text or a
truth value. Every key is quoted, and every character that a quoted text cannot hold as it is, or
that would end it, is written by its code point. So any text can be a key and any text a value.

Reading is shown one step at a time, each with an arbitrary rest behind what is written: a digit, a
character, a quoted text, a path, a statement, and then, line by line, the whole of the lines
(`statements?_write`).
-/

namespace BoxLint.Toml

/-! ## Characters -/

/-- The last `n` hexadecimal digits of a number, the highest first. -/
def hexText : (n value : Nat) → List Char
  | 0, _ => []
  | n + 1, value => Nat.digitChar (value / 16 ^ n % 16) :: hexText n value

theorem hexDigit?_digitChar : ∀ d < 16, hexDigit? (Nat.digitChar d) = some d := by decide

theorem hexDigits?_hexText (n value before : Nat) (rest : List Char) :
    hexDigits? n before (hexText n value ++ rest) =
      some (16 ^ n * before + value % 16 ^ n, rest) := by
  induction n generalizing before with
  | zero => simp [hexText, hexDigits?, Nat.mod_one]
  | succ n ih =>
    have hdigit := hexDigit?_digitChar (value / 16 ^ n % 16) (Nat.mod_lt _ (by decide))
    have hvalue : 16 ^ n * (16 * before + value / 16 ^ n % 16) + value % 16 ^ n =
        16 ^ (n + 1) * before + value % 16 ^ (n + 1) := by
      rw [Nat.mod_pow_succ, Nat.mul_add, Nat.pow_succ, Nat.mul_assoc]
      omega
    rw [hexText, List.cons_append, hexDigits?]
    simp only [hdigit, ih, hvalue]

theorem charOfCode?_toNat (c : Char) : charOfCode? c.toNat = some c := dif_pos c.valid

/-- A character between double quotes: as it is where that is allowed, by its code point where it is
not. -/
def escaped (c : Char) : List Char :=
  if isPlain c && c != '"' && c != '\\' then [c] else '\\' :: 'U' :: hexText 8 c.toNat

theorem codePoint?_hexText (c : Char) (rest : List Char) :
    codePoint? 8 (hexText 8 c.toNat ++ rest) = some (c, rest) := by
  have hlt : c.toNat < 16 ^ 8 := by
    have := c.val.toNat_lt
    simp only [Char.toNat]
    omega
  rw [codePoint?, hexDigits?_hexText, Nat.mul_zero, Nat.zero_add, Nat.mod_eq_of_lt hlt]
  simp only [charOfCode?_toNat, Option.map_some]

theorem char?_escaped (c : Char) (rest : List Char) :
    Quoting.basic.char? (escaped c ++ rest) = some (c, rest) := by
  unfold escaped
  split_ifs with hplain
  · simp only [Bool.and_eq_true, bne_iff_ne] at hplain
    obtain ⟨⟨hplain, hquote⟩, hslash⟩ := hplain
    simp [Quoting.char?, Quoting.basic, hplain, hquote, hslash]
  · exact codePoint?_hexText c rest

theorem head?_escaped (c : Char) (rest : List Char) : (escaped c ++ rest).head? ≠ some '"' := by
  unfold escaped
  split_ifs with hplain
  · simp only [Bool.and_eq_true, bne_iff_ne] at hplain
    simpa using hplain.1.2
  · simp

/-! ## Quoted texts -/

/-- A text between double quotes. -/
def quoted (s : String) : List Char := '"' :: (s.toList.flatMap escaped ++ ['"'])

theorem quoted_append (s : String) (rest : List Char) :
    quoted s ++ rest = '"' :: (s.toList.flatMap escaped ++ '"' :: rest) := by
  simp [quoted]

theorem Quoting.quote_basic : basic.quote = '"' := rfl

theorem Quoting.line?_of_char? {q : Quoting} {cs rest : List Char} {c : Char}
    (hquote : cs.head? ≠ some q.quote) (hchar : q.char? cs = some (c, rest)) :
    q.line? cs = (q.line? rest).map fun (text, after) => (c :: text, after) := by
  rw [line?, if_neg hquote]
  split <;> simp_all

theorem line?_escaped (cs rest : List Char) :
    Quoting.basic.line? (cs.flatMap escaped ++ '"' :: rest) = some (cs, rest) := by
  induction cs with
  | nil =>
    rw [Quoting.line?]
    exact if_pos rfl
  | cons c cs ih =>
    rw [List.flatMap_cons, List.append_assoc,
      Quoting.line?_of_char? (head?_escaped c _) (char?_escaped c _), ih]
    rfl

theorem oneLine?_quoted (s : String) (rest : List Char) :
    Quoting.basic.oneLine? (quoted s ++ rest) = some (s, rest) := by
  rw [quoted_append, Quoting.oneLine?, if_pos Quoting.quote_basic.symm, line?_escaped]
  simp

/-- What is quoted never opens a text on several lines, unless a third quote follows an empty
one. -/
theorem take_quoted (s : String) {rest : List Char} (hrest : rest.head? ≠ some '"') :
    (quoted s ++ rest).take 3 ≠ ['"', '"', '"'] := by
  rw [quoted_append]
  intro h
  cases hs : s.toList with
  | nil =>
    rw [hs] at h
    cases rest with
    | nil => simp at h
    | cons c rest => simp_all
  | cons c cs =>
    have hhead := head?_escaped c (cs.flatMap escaped ++ '"' :: rest)
    rw [hs, List.flatMap_cons, List.append_assoc] at h
    cases htext : escaped c ++ (cs.flatMap escaped ++ '"' :: rest) with
    | nil => simp [htext] at h
    | cons => simp_all

theorem text?_quoted (s : String) {rest : List Char} (hrest : rest.head? ≠ some '"') :
    Quoting.basic.text? (quoted s ++ rest) = some (s, rest) := by
  rw [Quoting.text?, Quoting.quote_basic, if_neg (take_quoted s hrest), oneLine?_quoted]

/-! ## Paths -/

/-- A path, its keys quoted. -/
def KeyPath.write (p : KeyPath) : List Char :=
  p.parents.flatMap (fun k => quoted k ++ ['.']) ++ quoted p.last

theorem key?_quoted (s : String) (rest : List Char) :
    key? (quoted s ++ rest) = some (s, rest) := by
  rw [← oneLine?_quoted, quoted_append, key?]

theorem skipBlanks_quoted (s : String) (rest : List Char) :
    skipBlanks (quoted s ++ rest) = quoted s ++ rest := by
  rw [quoted_append]
  rfl

theorem KeyPath.exists_write_eq (p : KeyPath) : ∃ cs, p.write = '"' :: cs := by
  obtain ⟨_ | ⟨k, ks⟩, last⟩ := p
  · exact ⟨_, rfl⟩
  · exact ⟨_, rfl⟩

theorem path?_write {limit : Nat} {p : KeyPath} (hlimit : p.parents.length < limit)
    {rest : List Char} (hrest : (skipBlanks rest).head? ≠ some '.') :
    path? limit (p.write ++ rest) = some (p, skipBlanks rest) := by
  obtain ⟨parents, last⟩ := p
  induction parents generalizing limit with
  | nil =>
    obtain ⟨limit, rfl⟩ := Nat.exists_eq_succ_of_ne_zero (Nat.ne_zero_of_lt hlimit)
    rw [KeyPath.write, List.flatMap_nil, List.nil_append, path?, skipBlanks_quoted, key?_quoted]
    simp only [Option.bind_eq_bind, Option.bind_some]
    split
    · next hdot => exact absurd (hdot ▸ rfl) hrest
    · rfl
  | cons k ks ih =>
    obtain ⟨limit, rfl⟩ := Nat.exists_eq_succ_of_ne_zero (Nat.ne_zero_of_lt hlimit)
    have hwrite : KeyPath.write ⟨k :: ks, last⟩ ++ rest =
        quoted k ++ '.' :: (KeyPath.write ⟨ks, last⟩ ++ rest) := by
      simp [KeyPath.write]
    have hdot : ∀ cs, skipBlanks ('.' :: cs) = '.' :: cs := fun _ => rfl
    rw [hwrite, path?, skipBlanks_quoted, key?_quoted]
    simp only [Option.bind_eq_bind, Option.bind_some, hdot, ih (Nat.lt_of_succ_lt_succ hlimit)]
    rfl

/-! ## Lines -/

/-- The values that are written. -/
inductive Atom where
  | text (s : String)
  | truth (b : Bool)

namespace Atom

/-- The value that an atom stands for. -/
def value : Atom → Value
  | text s => .string s
  | truth b => .boolean b

/-- An atom as it is written. -/
def write : Atom → List Char
  | text s => quoted s
  | truth true => ['t', 'r', 'u', 'e']
  | truth false => ['f', 'a', 'l', 's', 'e']

theorem value?_write (a : Atom) {rest : List Char} (hrest : rest.head? ≠ some '"') :
    value? maxNesting (a.write ++ rest) = some (a.value, rest) := by
  cases a with
  | text s =>
    have htext := text?_quoted s hrest
    rw [quoted_append] at htext
    rw [write, quoted_append]
    change (Quoting.basic.text? ('"' :: _)).map _ = _
    rw [htext]
    rfl
  | truth b => cases b <;> rfl

theorem skipBlanks_write (a : Atom) (rest : List Char) :
    skipBlanks (a.write ++ rest) = a.write ++ rest := by
  rcases a with s | _ | _
  · exact skipBlanks_quoted s rest
  · rfl
  · rfl

end Atom

/-- The lines that are written. -/
inductive Line where
  | header (path : KeyPath)
  | field (key : String) (a : Atom)

namespace Line

/-- The statement that a line makes. -/
def statement : Line → Statement
  | header p => .header p
  | field k a => .pair ⟨[], k⟩ a.value

/-- A line as it is written, without its end. -/
def write : Line → List Char
  | header p => '[' :: (p.write ++ [']'])
  | field k a => quoted k ++ ' ' :: '=' :: ' ' :: a.write

/-- The line can be read: the path of a header is not too long. -/
def Fits : Line → Prop
  | header p => p.parents.length < maxPathLength
  | field _ _ => True

theorem statement?_write {l : Line} (hl : l.Fits) (rest : List Char) :
    statement? (l.write ++ '\n' :: rest) = some (l.statement, '\n' :: rest) := by
  cases l with
  | header p =>
    have hpath : keyPath? (p.write ++ ']' :: '\n' :: rest) = some (p, ']' :: '\n' :: rest) :=
      path?_write hl (by simp [skipBlanks, isBlank])
    obtain ⟨cs, hcs⟩ := p.exists_write_eq
    rw [write, List.cons_append, List.append_assoc, List.singleton_append]
    rw [hcs, List.cons_append] at hpath ⊢
    rw [statement?, hpath]
    · rfl
    · simp
  | field k a =>
    have hpath : keyPath? (quoted k ++ ' ' :: '=' :: ' ' :: (a.write ++ '\n' :: rest)) =
        some (⟨[], k⟩, '=' :: ' ' :: (a.write ++ '\n' :: rest)) :=
      @path?_write _ ⟨[], k⟩ (Nat.succ_pos _) _ (by simp [skipBlanks, isBlank])
    have hblank : skipBlanks (' ' :: (a.write ++ '\n' :: rest)) = a.write ++ '\n' :: rest :=
      a.skipBlanks_write _
    have hvalue := a.value?_write (show ('\n' :: rest).head? ≠ some '"' by simp)
    rw [write, List.append_assoc, List.cons_append, List.cons_append, List.cons_append]
    rw [quoted_append] at hpath ⊢
    change (pair? (value? maxNesting) ('"' :: _)).map _ = _
    rw [pair?, hpath]
    simp only [Option.bind_eq_bind, Option.bind_some, hblank, hvalue]
    rfl

/-- A line begins with a bracket or a quote, and what holds of such texts holds of it. -/
theorem write_cases {motive : List Char → Prop} (hheader : ∀ cs, motive ('[' :: cs))
    (hfield : ∀ cs, motive ('"' :: cs)) (l : Line) (rest : List Char) :
    motive (l.write ++ rest) := by
  cases l with
  | header p => exact hheader _
  | field k a => exact hfield _

theorem lineEnd?_write : ∀ (l : Line) rest, lineEnd? (l.write ++ rest) = none :=
  write_cases (motive := fun cs => lineEnd? cs = none) (fun _ => rfl) fun _ => rfl

theorem skipBlanks_write : ∀ (l : Line) rest, skipBlanks (l.write ++ rest) = l.write ++ rest :=
  write_cases (motive := fun cs => skipBlanks cs = cs) (fun _ => rfl) fun _ => rfl

theorem skipMark_write : ∀ (l : Line) rest, skipMark (l.write ++ rest) = l.write ++ rest :=
  write_cases (motive := fun cs => skipMark cs = cs) (fun _ => rfl) fun _ => rfl

end Line

/-- Lines as they are written, each with its end. -/
def writeLines (ls : List Line) : List Char := ls.flatMap fun l => l.write ++ ['\n']

theorem writeLines_cons (l : Line) (ls : List Line) :
    writeLines (l :: ls) = l.write ++ '\n' :: writeLines ls := by
  simp [writeLines]

theorem length_le_length_writeLines (ls : List Line) : ls.length ≤ (writeLines ls).length := by
  induction ls with
  | nil => exact Nat.le_refl _
  | cons l ls ih =>
    rw [writeLines_cons, List.length_cons, List.length_append, List.length_cons]
    omega

theorem statements?_write {ls : List Line} (hls : ∀ l ∈ ls, l.Fits) {fuel : Nat}
    (hfuel : ls.length ≤ fuel) :
    statements? fuel (writeLines ls) = some (ls.map Line.statement) := by
  induction ls generalizing fuel with
  | nil => cases fuel <;> rfl
  | cons l ls ih =>
    obtain ⟨hl, hls⟩ := List.forall_mem_cons.1 hls
    obtain ⟨fuel, rfl⟩ := Nat.exists_eq_succ_of_ne_zero (Nat.ne_zero_of_lt hfuel)
    have hne : l.write ++ '\n' :: writeLines ls ≠ [] := by simp
    have hend : lineEnd? ('\n' :: writeLines ls) = some (writeLines ls) := rfl
    rw [writeLines_cons, statements?, if_neg hne, l.lineEnd?_write, l.skipBlanks_write]
    simp only [Line.statement?_write hl, Option.bind_eq_bind, Option.bind_some, hend,
      ih hls (Nat.le_of_succ_le_succ hfuel)]
    rfl

/-- Lines are read as the statements they make. -/
theorem document?_write {ls : List Line} (hls : ∀ l ∈ ls, l.Fits) :
    document? (String.ofList (writeLines ls)) = assemble? (ls.map Line.statement) := by
  have hmark : skipMark (writeLines ls) = writeLines ls := by
    cases ls with
    | nil => rfl
    | cons l ls => rw [writeLines_cons, l.skipMark_write]
  rw [document?, String.toList_ofList, hmark,
    statements?_write hls (length_le_length_writeLines ls)]
  rfl

end BoxLint.Toml
