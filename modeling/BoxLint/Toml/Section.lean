import BoxLint.Toml.Key
import BoxLint.Toml.Value

/-!
# Sections

While a text is read its tables are still open, and how a table came to be decides what may be
added to it: a header opens a table once, the tables on the way to a header are implied and may
get a header of their own later, and the tables on the way of a dotted key take further dotted
keys but no header.
-/

namespace BoxLint.Toml

/-- How a table came to be. -/
inductive Origin where
  /-- By a header of its own, or as the whole text. -/
  | written
  /-- On the way to a header. -/
  | implied
  /-- On the way of a dotted key. -/
  | dotted
  deriving DecidableEq, Repr

/-- What a key stands for in a table under construction: a value, a table, or an array of tables
that grows by a header at a time, its last table open. -/
inductive Item where
  | value (v : Value)
  | table (origin : Origin) (entries : List (String × Item))
  | tables (earlier : List (List (String × Item))) (last : List (String × Item))

/-- A table under construction. -/
structure Section where
  origin : Origin
  entries : List (String × Item)

namespace Section

/-- A table without entries. -/
def empty (origin : Origin) : Section := ⟨origin, []⟩

/-- Changes what a key stands for, or adds the key at the end; a change that fails leaves none. -/
def alterEntries (k : String) (f : Option Item → Option Item) :
    List (String × Item) → Option (List (String × Item))
  | [] => (f none).map fun i => [(k, i)]
  | (k', i) :: es =>
    if k' = k then (f (some i)).map fun i => (k, i) :: es
    else (alterEntries k f es).map ((k', i) :: ·)

/-- Changes the entry of a key. -/
def alter (k : String) (f : Option Item → Option Item) (s : Section) : Option Section :=
  (alterEntries k f s.entries).map fun es => { s with entries := es }

/-- Changes the table at the end of a path, creating the tables on the way that are missing. The
path leads into the last table of an array of tables. A path of dotted keys leads through no table
that has a header. -/
def descend (dotted : Bool) (f : Section → Option Section) : List String → Section → Option Section
  | [], s => f s
  | k :: ks, s =>
    s.alter k fun
      | none =>
        (descend dotted f ks (empty (if dotted then .dotted else .implied))).map fun t =>
          .table t.origin t.entries
      | some (.table origin entries) =>
        if dotted && origin == .written then none
        else (descend dotted f ks ⟨origin, entries⟩).map fun t => .table t.origin t.entries
      | some (.tables earlier last) =>
        (descend dotted f ks ⟨.written, last⟩).map fun t => .tables earlier t.entries
      | some (.value _) => none

/-- Adds a key that is not there yet. -/
def addNew (k : String) (v : Value) (s : Section) : Option Section :=
  s.alter k fun
    | none => some (.value v)
    | some _ => none

/-- Adds a value under a path of dotted keys. A dotted key ends in a table made by dotted keys, a
plain one in a table that is not. -/
def addPair (p : KeyPath) (v : Value) (s : Section) : Option Section :=
  s.descend true
    (fun t => if (t.origin == .dotted) == p.parents.isEmpty then none else t.addNew p.last v)
    p.parents

/-- Opens the table of a header: a new one, or one that was implied so far. -/
def openTable (p : KeyPath) (s : Section) : Option Section :=
  s.descend false
    (fun t => t.alter p.last fun
      | none => some (.table .written [])
      | some (.table .implied entries) => some (.table .written entries)
      | some _ => none)
    p.parents

/-- Opens the next table of an array of tables. -/
def openArrayTable (p : KeyPath) (s : Section) : Option Section :=
  s.descend false
    (fun t => t.alter p.last fun
      | none => some (.tables [] [])
      | some (.tables earlier last) => some (.tables (earlier ++ [last]) [])
      | some _ => none)
    p.parents

/-- The table that pairs of a path and a value make up. -/
def ofPairs? (pairs : List (KeyPath × Value)) : Option Section :=
  pairs.foldlM (fun s (p, v) => s.addPair p v) (empty .written)

end Section

mutual

/-- The value of a finished item. -/
def Item.toValue : Item → Value
  | .value v => v
  | .table _ entries => .table (finish entries)
  | .tables earlier last => .array (finishAll earlier ++ [.table (finish last)])

/-- The entries of a finished table. -/
def finish : List (String × Item) → Table
  | [] => []
  | (k, i) :: es => (k, i.toValue) :: finish es

/-- The finished tables of an array. -/
def finishAll : List (List (String × Item)) → List Value
  | [] => []
  | es :: rest => .table (finish es) :: finishAll rest

end

/-- The entries of a finished table. -/
def Section.toTable (s : Section) : Table := finish s.entries

end BoxLint.Toml
