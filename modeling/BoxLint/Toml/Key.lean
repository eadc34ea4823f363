import BoxLint.Toml.Quoted

/-!
# Keys

A key is bare (ASCII letters, digits, dashes and underscores) or quoted on one line. Keys parted by
dots lead through nested tables. A path has fewer than eighty keys.
-/

namespace BoxLint.Toml

/-- Keys that lead to a value: the tables on the way, outermost first, and the last key. -/
structure KeyPath where
  parents : List String
  last : String
  deriving DecidableEq, Repr

/-- Every key of a path, outermost first. -/
def KeyPath.toList (p : KeyPath) : List String := p.parents ++ [p.last]

/-- The longest path that is read. -/
def maxPathLength : Nat := 79

/-- The characters of a bare key. -/
def isBare (c : Char) : Bool := c.isAlphanum || c == '-' || c == '_'

/-- One key. -/
def key? (cs : List Char) : Option (String × List Char) :=
  match cs with
  | '"' :: _ => Quoting.basic.oneLine? cs
  | '\'' :: _ => Quoting.literal.oneLine? cs
  | _ =>
    match cs.takeWhile isBare with
    | [] => none
    | name => some (String.ofList name, cs.dropWhile isBare)

/-- A path of at most `limit` keys, with blanks around each. -/
def path? : (limit : Nat) → List Char → Option (KeyPath × List Char)
  | 0, _ => none
  | limit + 1, cs => do
    let (k, rest) ← key? (skipBlanks cs)
    match skipBlanks rest with
    | '.' :: rest =>
      let (p, rest) ← path? limit rest
      return (⟨k :: p.parents, p.last⟩, rest)
    | rest => return (⟨[], k⟩, rest)

/-- The path that a text begins with, blanks around it included. -/
def keyPath? (cs : List Char) : Option (KeyPath × List Char) := path? maxPathLength cs

end BoxLint.Toml
