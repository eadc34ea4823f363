import BoxLint.Toml.Blank

/-!
# Quoted text

TOML quotes text in two ways. Between double quotes a backslash opens an escape sequence; between
single quotes every character stands for itself. Either way the text ends on its line, unless it is
opened by three quotes: then it may run over several lines and ends at the next three. Up to two
quotes right before the closing three belong to the text.
-/

namespace BoxLint.Toml

/-- The value of a hexadecimal digit, in either case. -/
def hexDigit? (c : Char) : Option Nat :=
  if '0' ≤ c ∧ c ≤ '9' then some (c.toNat - '0'.toNat)
  else if 'a' ≤ c ∧ c ≤ 'f' then some (c.toNat - 'a'.toNat + 10)
  else if 'A' ≤ c ∧ c ≤ 'F' then some (c.toNat - 'A'.toNat + 10)
  else none

/-- Reads exactly `n` hexadecimal digits after those that gave `value`. -/
def hexDigits? : (n value : Nat) → List Char → Option (Nat × List Char)
  | 0, value, cs => some (value, cs)
  | _ + 1, _, [] => none
  | n + 1, value, c :: cs =>
    match hexDigit? c with
    | some d => hexDigits? n (16 * value + d) cs
    | none => none

/-- The character with a given code point; surrogates and numbers past the last one have none. -/
def charOfCode? (n : Nat) : Option Char :=
  if h : n.isValidChar then some (Char.ofNatAux n h) else none

/-- The character written by `n` hexadecimal digits. -/
def codePoint? (n : Nat) (cs : List Char) : Option (Char × List Char) :=
  match hexDigits? n 0 cs with
  | some (code, rest) => (charOfCode? code).map (·, rest)
  | none => none

/-- The character of the escape sequence that goes on after a backslash. -/
def escape? : List Char → Option (Char × List Char)
  | 'b' :: cs => some ('\x08', cs)
  | 't' :: cs => some ('\t', cs)
  | 'n' :: cs => some ('\n', cs)
  | 'f' :: cs => some ('\x0c', cs)
  | 'r' :: cs => some ('\r', cs)
  | '"' :: cs => some ('"', cs)
  | '\\' :: cs => some ('\\', cs)
  | 'u' :: cs => codePoint? 4 cs
  | 'U' :: cs => codePoint? 8 cs
  | _ => none

theorem length_of_hexDigits? {n value code : Nat} {cs rest : List Char}
    (h : hexDigits? n value cs = some (code, rest)) : rest.length ≤ cs.length := by
  fun_induction hexDigits? n value cs with
  | case1 => simp_all
  | case2 => simp at h
  | case3 n value c cs d _ ih => exact Nat.le_succ_of_le (ih h)
  | case4 => simp at h

theorem length_of_codePoint? {n : Nat} {cs rest : List Char} {c : Char}
    (h : codePoint? n cs = some (c, rest)) : rest.length ≤ cs.length := by
  unfold codePoint? at h
  split at h
  · next hd =>
    obtain ⟨_, _, he⟩ := Option.map_eq_some_iff.1 h
    cases he
    exact length_of_hexDigits? hd
  · simp at h

theorem length_of_escape? {cs rest : List Char} {c : Char} (h : escape? cs = some (c, rest)) :
    rest.length < cs.length := by
  unfold escape? at h
  split at h
  case h_8 | h_9 => exact Nat.lt_succ_of_le (length_of_codePoint? h)
  all_goals simp_all

/-- A way of quoting: the quote, and whether a backslash opens an escape sequence. -/
structure Quoting where
  quote : Char
  escapes : Bool

namespace Quoting

/-- Double quotes, with escape sequences. -/
def basic : Quoting := ⟨'"', true⟩

/-- Single quotes, in which every character stands for itself. -/
def literal : Quoting := ⟨'\'', false⟩

variable (q : Quoting)

/-- The next character of a quoted text. -/
def char? : List Char → Option (Char × List Char)
  | [] => none
  | c :: cs =>
    if q.escapes && c == '\\' then escape? cs
    else if isPlain c && c != q.quote then some (c, cs)
    else none

theorem length_of_char? {cs rest : List Char} {c : Char} (h : q.char? cs = some (c, rest)) :
    rest.length < cs.length := by
  unfold char? at h
  split at h
  · simp at h
  · split at h
    · exact Nat.lt_succ_of_lt (length_of_escape? h)
    · split at h <;> simp_all

/-- The rest of a text on one line, up to its closing quote. -/
def line? (cs : List Char) : Option (List Char × List Char) :=
  if cs.head? = some q.quote then some ([], cs.tail)
  else
    match _h : q.char? cs with
    | none => none
    | some (c, rest) => (line? rest).map fun (text, after) => (c :: text, after)
termination_by cs.length
decreasing_by exact q.length_of_char? _h

/-- The next stretch of a text on several lines, and what it stands for: a line end is one line
feed, and a backslash at the end of a line stands for nothing, the blanks and line ends after it
included. -/
def chunk? (cs : List Char) : Option (List Char × List Char) :=
  match newline? cs with
  | some rest => some (['\n'], rest)
  | none =>
    match (if q.escapes && cs.head? == some '\\' then newline? (skipBlanks cs.tail) else none) with
    | some rest => some ([], skipBreaks rest)
    | none => (q.char? cs).map fun (c, rest) => ([c], rest)

theorem length_of_chunk? {cs text rest : List Char} (h : q.chunk? cs = some (text, rest)) :
    rest.length < cs.length := by
  unfold chunk? at h
  split at h
  · next hn =>
    cases h
    exact length_of_newline? hn
  · split at h
    · next after hn =>
      cases h
      split at hn
      · have hnewline := length_of_newline? hn
        have hblanks := length_skipBlanks_le cs.tail
        have hbreaks := length_skipBreaks_le after
        have htail : cs.tail.length ≤ cs.length := by simp
        omega
      · simp at hn
    · obtain ⟨_, hc, he⟩ := Option.map_eq_some_iff.1 h
      cases he
      exact q.length_of_char? hc

/-- The rest of a text on several lines, up to its three closing quotes. -/
def lines? (cs : List Char) : Option (List Char × List Char) :=
  let quotes := (cs.takeWhile (· == q.quote)).length
  if 3 ≤ quotes then some (List.replicate (min (quotes - 3) 2) q.quote, cs.drop (min quotes 5))
  else
    match _h : (if 0 < quotes then some ([q.quote], cs.tail) else q.chunk? cs) with
    | none => none
    | some (text, rest) => (lines? rest).map fun (more, after) => (text ++ more, after)
termination_by cs.length
decreasing_by
  split at _h
  · next hq =>
    cases _h
    cases cs with
    | nil => simp [quotes] at hq
    | cons => simp
  · exact q.length_of_chunk? _h

/-- A quoted text that ends on its line. -/
def oneLine? : List Char → Option (String × List Char)
  | [] => none
  | c :: cs =>
    if c = q.quote then (q.line? cs).map fun (t, rest) => (String.ofList t, rest)
    else none

/-- A quoted text of either layout. A line end right after three opening quotes is not part of
the text. -/
def text? (cs : List Char) : Option (String × List Char) :=
  if cs.take 3 = [q.quote, q.quote, q.quote] then
    let body := cs.drop 3
    (q.lines? ((newline? body).getD body)).map fun (t, rest) => (String.ofList t, rest)
  else q.oneLine? cs

end Quoting

end BoxLint.Toml
