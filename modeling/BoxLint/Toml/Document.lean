import BoxLint.Toml.Section

/-!
# Documents

A document is a list of lines: headers, and pairs of a key and a value that belong to the table of
the header above them. Reading has two steps: the text is read line by line (`statements?`), and the
lines are put together into tables (`assemble?`). Values are nested fewer than eighty deep.
-/

namespace BoxLint.Toml

/-- The deepest nesting of arrays and inline tables that is read. -/
def maxNesting : Nat := 79

/-- A value that holds no other value. -/
def scalar? (cs : List Char) : Option (Value × List Char) :=
  match cs with
  | '"' :: _ => (Quoting.basic.text? cs).map fun (s, rest) => (.string s, rest)
  | '\'' :: _ => (Quoting.literal.text? cs).map fun (s, rest) => (.string s, rest)
  | 't' :: 'r' :: 'u' :: 'e' :: rest => some (.boolean true, rest)
  | 'f' :: 'a' :: 'l' :: 's' :: 'e' :: rest => some (.boolean false, rest)
  | _ =>
    match dateTime? cs with
    | some (d, rest) => some (.dateTime d, rest)
    | none => (number? cs).map fun (n, rest) => (.number n, rest)

/-- The items of an array up to its closing bracket, a comma between them and perhaps after the
last. Each item takes a character at least, so `fuel` need not exceed the length of the text. -/
def items? (read? : List Char → Option (Value × List Char)) :
    (fuel : Nat) → List Char → Option (List Value × List Char)
  | 0, _ => none
  | fuel + 1, cs =>
    match skipGaps false cs with
    | ']' :: rest => some ([], rest)
    | cs => do
      let (v, rest) ← read? cs
      match skipGaps false rest with
      | ',' :: rest => (items? read? fuel rest).map fun (vs, rest) => (v :: vs, rest)
      | ']' :: rest => return ([v], rest)
      | _ => none

/-- A path, an equals sign and a value, with blanks between them. -/
def pair? (read? : List Char → Option (Value × List Char)) (cs : List Char) :
    Option ((KeyPath × Value) × List Char) := do
  match ← keyPath? cs with
  | (p, '=' :: rest) =>
    let (v, rest) ← read? (skipBlanks rest)
    return ((p, v), rest)
  | _ => none

/-- The pairs of an inline table up to its closing brace, a comma between them. -/
def pairs? (read? : List Char → Option (Value × List Char)) :
    (fuel : Nat) → List Char → Option (List (KeyPath × Value) × List Char)
  | 0, _ => none
  | fuel + 1, cs => do
    let (p, rest) ← pair? read? cs
    match skipBlanks rest with
    | ',' :: rest => (pairs? read? fuel rest).map fun (ps, rest) => (p :: ps, rest)
    | '}' :: rest => return ([p], rest)
    | _ => none

/-- An inline table after its opening brace. -/
def inlineTable? (read? : List Char → Option (Value × List Char)) (cs : List Char) :
    Option (Value × List Char) :=
  match skipBlanks cs with
  | '}' :: rest => some (.table [], rest)
  | cs => do
    let (ps, rest) ← pairs? read? (cs.length + 1) cs
    return (.table (← Section.ofPairs? ps).toTable, rest)

/-- The value that a text begins with, nested at most `depth` deep. -/
def value? : (depth : Nat) → List Char → Option (Value × List Char)
  | 0, cs => scalar? cs
  | depth + 1, cs =>
    match cs with
    | '[' :: rest =>
      (items? (value? depth) (rest.length + 1) rest).map fun (vs, rest) => (.array vs, rest)
    | '{' :: rest => inlineTable? (value? depth) rest
    | _ => scalar? cs

/-- A line of a document that says something. -/
inductive Statement where
  /-- The header of a table. -/
  | header (path : KeyPath)
  /-- The header of the next table of an array. -/
  | arrayHeader (path : KeyPath)
  | pair (path : KeyPath) (value : Value)

/-- The statement that a line begins with, and what follows it on the line. -/
def statement? (cs : List Char) : Option (Statement × List Char) :=
  match cs with
  | '[' :: '[' :: rest => do
    match ← keyPath? rest with
    | (p, ']' :: ']' :: rest) => return (.arrayHeader p, rest)
    | _ => none
  | '[' :: rest => do
    match ← keyPath? rest with
    | (p, ']' :: rest) => return (.header p, rest)
    | _ => none
  | _ => (pair? (value? maxNesting) cs).map fun ((p, v), rest) => (.pair p v, rest)

/-- The statements of a text, one a line. Each line takes a character at least, so `fuel` need not
exceed the length of the text. -/
def statements? : (fuel : Nat) → List Char → Option (List Statement)
  | 0, cs => if cs = [] then some [] else none
  | fuel + 1, cs =>
    if cs = [] then some []
    else
      match lineEnd? cs with
      | some rest => statements? fuel rest
      | none => do
        let (s, rest) ← statement? (skipBlanks cs)
        let rest ← lineEnd? rest
        return s :: (← statements? fuel rest)

/-- Puts the statements of a document together, after those that gave `root` and the header that
stands above. -/
def assembleFrom : (header : List String) → (root : Section) → List Statement → Option Section
  | _, root, [] => some root
  | _, root, .header p :: rest => do assembleFrom p.toList (← root.openTable p) rest
  | _, root, .arrayHeader p :: rest => do assembleFrom p.toList (← root.openArrayTable p) rest
  | header, root, .pair p v :: rest => do
    assembleFrom header (← root.descend false (·.addPair p v) header) rest

/-- The table that the statements of a document make up. -/
def assemble? (statements : List Statement) : Option Table :=
  (assembleFrom [] (Section.empty .written) statements).map Section.toTable

/-- A text without the byte order mark it may begin with. -/
def skipMark : List Char → List Char
  | '\ufeff' :: cs => cs
  | cs => cs

/-- The table that a text describes, if it is a TOML document. -/
def document? (text : String) : Option Table :=
  let cs := skipMark text.toList
  (statements? cs.length cs).bind assemble?

end BoxLint.Toml
