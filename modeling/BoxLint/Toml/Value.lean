import BoxLint.Toml.DateTime
import BoxLint.Toml.Number

/-!
# Values

What a TOML text says: strings, booleans, numbers, dates, arrays, and tables of named values in
the order they were written.
-/

namespace BoxLint.Toml

/-- A value of a TOML text. -/
inductive Value where
  | string (s : String)
  | boolean (b : Bool)
  | number (n : Number)
  | dateTime (d : DateTime)
  | array (items : List Value)
  | table (entries : List (String × Value))
  deriving Repr

/-- The named values of a table. -/
abbrev Table := List (String × Value)

end BoxLint.Toml
