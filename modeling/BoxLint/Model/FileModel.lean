import BoxLint.Model.Keyword
import BoxLint.Operation

/-!
# File models

What a compiler knows of one file: its tree, the operations bound from it, and the namespaces it
imports. From these come the operation of a node (`FileModel.operation?`) and the shortest name of a
type at a place (`FileModel.displayName`).
-/

namespace BoxLint

/-- An import of a namespace, for the whole file or for some of its lines, the ends included. -/
structure Import where
  scope : String
  lines : Option (Nat × Nat)
  deriving DecidableEq, Repr

/-- Whether the import holds on a line. -/
def Import.coversLine (i : Import) (line : Nat) : Bool :=
  i.lines.all fun (first, last) => first ≤ line && line ≤ last

/-- The model of one file. Keywords are those of the dialect the file had at first. -/
structure FileModel where
  tree : Tree
  roots : List Operation
  imports : List Import
  keywords : Dialect

namespace FileModel

/-- The model of a tree to which nothing is bound yet. -/
def ofTree (t : Tree) : FileModel := ⟨t, [], [], t.dialect⟩

/-- Adds a root operation after the others. -/
def addRoot (m : FileModel) (op : Operation) : FileModel := { m with roots := m.roots ++ [op] }

/-- Adds an import after the others. -/
def addImport (m : FileModel) (i : Import) : FileModel := { m with imports := m.imports ++ [i] }

/-- Adds a node to the tree, and tells the place it got. -/
def pushNode (m : FileModel) (rawKind : Nat) (span : Span) (parent : Option NodeId) :
    NodeId × FileModel :=
  let (id, tree) := m.tree.pushNode rawKind span parent
  (id, { m with tree := tree })

/-- The model with one more node in its tree. -/
def addNode (m : FileModel) (rawKind : Nat) (span : Span) (parent : Option NodeId) : FileModel :=
  (m.pushNode rawKind span parent).2

/-- Every operation of the file, root by root in the order of visits. -/
def operations (m : FileModel) : List Operation := Operation.visitsAll m.roots

/-- Every conversion of the file, in the order of visits. -/
def conversions (m : FileModel) : List Operation := m.operations.filter (·.isConversion)

/-- The operation of a node: the first that the user wrote, or else the first that was bound. -/
def operation? (m : FileModel) (n : Node) : Option Operation :=
  let bound := m.operations.filter (·.binding.node == n.id)
  (bound.find? (!·.binding.isImplicit)).or bound.head?

/-- Whether a namespace is imported on a line. -/
def imported (m : FileModel) (scope : String) (line : Nat) : Bool :=
  m.imports.any fun i => i.scope == scope && i.coversLine line

/-- The shortest name of a type on a line: its keyword, its simple name if its namespace is
imported there, or its qualified name. -/
def displayName (m : FileModel) (t : TypeInfo) (line : Nat) : String :=
  match Keyword.ofType? m.keywords t with
  | some keyword => keyword
  | none => if t.scope?.any (m.imported · line) then t.simpleName else t.name

end FileModel

end BoxLint
