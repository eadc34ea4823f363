/-!
# Dates and times

A date, a time of day, or both with or without an offset from universal time. The fields are in
their calendar ranges, leap years counted; a minute may have a leap second.
-/

namespace BoxLint.Toml

/-- A day of the calendar. -/
structure Date where
  year : Nat
  month : Nat
  day : Nat
  deriving DecidableEq, Repr

/-- A time of day, with the digits after the point of its seconds. -/
structure Time where
  hour : Nat
  minute : Nat
  second : Nat
  fraction : List Char
  deriving DecidableEq, Repr

/-- A date, a time, or a date with a time and perhaps an offset in minutes. -/
inductive DateTime where
  | date (d : Date)
  | time (t : Time)
  | both (d : Date) (t : Time) (offset : Option Int)
  deriving DecidableEq, Repr

/-- Whether a year has a leap day. -/
def isLeapYear (year : Nat) : Bool := year % 4 == 0 && (year % 100 != 0 || year % 400 == 0)

/-- The number of days of a month. -/
def daysInMonth (year month : Nat) : Nat :=
  if month = 2 then if isLeapYear year then 29 else 28
  else if month ∈ [4, 6, 9, 11] then 30
  else 31

/-- The value of one decimal digit. -/
def decimalDigit? (c : Char) : Option Nat := if c.isDigit then some (c.toNat - '0'.toNat) else none

/-- A number of exactly `n` decimal digits, after those that gave `value`. -/
def fixedDigits? : (n value : Nat) → List Char → Option (Nat × List Char)
  | 0, value, cs => some (value, cs)
  | _ + 1, _, [] => none
  | n + 1, value, c :: cs =>
    match decimalDigit? c with
    | some d => fixedDigits? n (10 * value + d) cs
    | none => none

/-- A number of two digits between `low` and `high`. -/
def field? (low high : Nat) (cs : List Char) : Option (Nat × List Char) := do
  let (n, rest) ← fixedDigits? 2 0 cs
  if low ≤ n ∧ n ≤ high then return (n, rest) else none

/-- The text after a given character. -/
def after? (c : Char) : List Char → Option (List Char)
  | [] => none
  | d :: cs => if c = d then some cs else none

/-- A date, `year-month-day`. -/
def date? (cs : List Char) : Option (Date × List Char) := do
  let (year, cs) ← fixedDigits? 4 0 cs
  let (month, cs) ← field? 1 12 (← after? '-' cs)
  let (day, cs) ← field? 1 31 (← after? '-' cs)
  if day ≤ daysInMonth year month then return (⟨year, month, day⟩, cs) else none

/-- The fraction of a second: a point and one digit or more, or nothing. -/
def secondFraction? : List Char → Option (List Char × List Char)
  | '.' :: cs =>
    match cs.takeWhile Char.isDigit with
    | [] => none
    | ds => some (ds, cs.dropWhile Char.isDigit)
  | cs => some ([], cs)

/-- A time of day, `hour:minute:second`, perhaps with a fraction. -/
def time? (cs : List Char) : Option (Time × List Char) := do
  let (hour, cs) ← field? 0 23 cs
  let (minute, cs) ← field? 0 59 (← after? ':' cs)
  let (second, cs) ← field? 0 60 (← after? ':' cs)
  let (fraction, cs) ← secondFraction? cs
  return (⟨hour, minute, second, fraction⟩, cs)

/-- An offset in minutes: a Z for none, or a sign, hours and minutes. -/
def offset? : List Char → Option (Int × List Char)
  | [] => none
  | c :: cs =>
    if c == 'Z' || c == 'z' then some (0, cs)
    else if c == '+' || c == '-' then do
      let (hours, cs) ← field? 0 23 cs
      let (minutes, cs) ← field? 0 59 (← after? ':' cs)
      let total : Int := hours * 60 + minutes
      return (if c == '-' then -total else total, cs)
    else none

/-- The time and offset that go on from a date, after a `T` or one blank. -/
def clock? : List Char → Option (Time × Option Int × List Char)
  | [] => none
  | c :: cs =>
    if c == 'T' || c == 't' || c == ' ' then do
      let (t, rest) ← time? cs
      match offset? rest with
      | some (minutes, rest) => return (t, some minutes, rest)
      | none => return (t, none, rest)
    else none

/-- The date, time or both that a text begins with. -/
def dateTime? (cs : List Char) : Option (DateTime × List Char) :=
  match date? cs with
  | some (d, rest) =>
    match clock? rest with
    | some (t, offset, rest) => some (.both d t offset, rest)
    | none => some (.date d, rest)
  | none => (time? cs).map fun (t, rest) => (.time t, rest)

end BoxLint.Toml
