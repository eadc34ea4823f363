import BoxLint.Toml.Quoted

/-!
# Numbers

Integers are decimal, with a sign or not, or unsigned in base 16, 8 or 2; they fit in 64 bits with
a sign. A number with a fraction or an exponent is a float, and so are `inf` and `nan`; a positive
float that rounds past the largest double is refused. Single underscores may part digits, and a
decimal number does not begin with a superfluous zero.
-/

namespace BoxLint.Toml

/-- A number as it is written. -/
inductive Number where
  | integer (value : Int)
  /-- The float `± mantissa · 10 ^ exponent`. -/
  | decimal (negative : Bool) (mantissa : Nat) (exponent : Int)
  | infinity (negative : Bool)
  | nan
  deriving DecidableEq, Repr

/-- The digits that go on from a digit, each after one underscore at most, and what follows. -/
def moreDigits? (isDigit : Char → Bool) : List Char → Option (List Char × List Char)
  | [] => some ([], [])
  | '_' :: c :: cs =>
    if isDigit c then (moreDigits? isDigit cs).map fun (ds, rest) => (c :: ds, rest) else none
  | c :: cs =>
    if isDigit c then (moreDigits? isDigit cs).map fun (ds, rest) => (c :: ds, rest)
    else some ([], c :: cs)

/-- One digit or more, with single underscores between them. -/
def digits? (isDigit : Char → Bool) : List Char → Option (List Char × List Char)
  | [] => none
  | c :: cs =>
    if isDigit c then (moreDigits? isDigit cs).map fun (ds, rest) => (c :: ds, rest) else none

/-- The digits of a whole number: a zero alone, or digits that begin with another one. -/
def wholeDigits? : List Char → Option (List Char × List Char)
  | '0' :: cs => some (['0'], cs)
  | cs => digits? Char.isDigit cs

/-- The value of digits in a base up to sixteen. -/
def digitsValue (base : Nat) (ds : List Char) : Nat :=
  ds.foldl (fun n d => base * n + (hexDigit? d).getD 0) 0

/-- Whether a text begins with a minus sign, and what follows its sign. -/
def sign : List Char → Bool × List Char
  | '-' :: cs => (true, cs)
  | '+' :: cs => (false, cs)
  | cs => (false, cs)

/-- A whole number with its sign. -/
def signed (negative : Bool) (n : Nat) : Int := if negative then -n else n

/-- An integer that fits in 64 bits. -/
def int64? (n : Int) : Option Number :=
  if -0x8000000000000000 ≤ n ∧ n < 0x8000000000000000 then some (.integer n) else none

/-- The least number that rounds past the largest double: half a unit above it. -/
def overflowBound : Nat := Nat.pow 2 1024 - Nat.pow 2 970

/-- Whether `mantissa · 10 ^ exponent` rounds past the largest double. Numbers far from the bound
are told by their count of digits alone. -/
def overflows (mantissa : Nat) (exponent : Int) : Bool :=
  let digits : Int := (Nat.toDigits 10 mantissa).length
  if mantissa = 0 || digits + exponent < 300 then false
  else if 400 < digits + exponent then true
  else overflowBound * Nat.pow 10 (-exponent).toNat ≤ mantissa * Nat.pow 10 exponent.toNat

/-- A finite float, unless it is positive and too large. -/
def decimal? (negative : Bool) (mantissa : Nat) (exponent : Int) : Option Number :=
  if !negative && overflows mantissa exponent then none
  else some (.decimal negative mantissa exponent)

/-- The exponent that a text begins with, if it begins with one. -/
def exponent? : List Char → Option (Option Int × List Char)
  | c :: cs =>
    if c == 'e' || c == 'E' then
      let (negative, cs) := sign cs
      (digits? Char.isDigit cs).map fun (ds, rest) =>
        (some (signed negative (digitsValue 10 ds)), rest)
    else some (none, c :: cs)
  | [] => some (none, [])

/-- The fraction that a text begins with, if it begins with one. -/
def fraction? : List Char → Option (Option (List Char) × List Char)
  | '.' :: cs => (digits? Char.isDigit cs).map fun (ds, rest) => (some ds, rest)
  | cs => some (none, cs)

/-- An unsigned integer in a base other than ten. -/
def based? (base : Nat) (isDigit : Char → Bool) (cs : List Char) : Option (Number × List Char) := do
  let (ds, rest) ← digits? isDigit cs
  return (← int64? (digitsValue base ds), rest)

/-- A decimal number after its sign. -/
def unsigned? (negative : Bool) (cs : List Char) : Option (Number × List Char) := do
  let (whole, rest) ← wholeDigits? cs
  let (fraction, rest) ← fraction? rest
  let (exponent, rest) ← exponent? rest
  match fraction, exponent with
  | none, none => return (← int64? (signed negative (digitsValue 10 whole)), rest)
  | _, _ =>
    let places := fraction.getD []
    let mantissa := digitsValue 10 (whole ++ places)
    return (← decimal? negative mantissa (exponent.getD 0 - places.length), rest)

/-- The number that a text begins with. -/
def number? : List Char → Option (Number × List Char)
  | '0' :: 'x' :: cs => based? 16 (fun c => (hexDigit? c).isSome) cs
  | '0' :: 'o' :: cs => based? 8 (fun c => '0' ≤ c && c ≤ '7') cs
  | '0' :: 'b' :: cs => based? 2 (fun c => c == '0' || c == '1') cs
  | cs =>
    match sign cs with
    | (negative, 'i' :: 'n' :: 'f' :: rest) => some (.infinity negative, rest)
    | (_, 'n' :: 'a' :: 'n' :: rest) => some (.nan, rest)
    | (negative, rest) => unsigned? negative rest

end BoxLint.Toml
