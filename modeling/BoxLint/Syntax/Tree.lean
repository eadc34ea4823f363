import BoxLint.Source.Location
import BoxLint.Syntax.Generated
import BoxLint.Syntax.Kind

/-!
# Syntax trees

A tree holds its nodes in the order they were added, and a node is known by its place in that
order. Nodes name their parents, which may be added later or be missing altogether. The node at a
span is the innermost one that contains it; of several with the same extent it is the outermost, so
that a wrapper which adds no text is found rather than the expression it wraps (`Tree.find?`).

Nothing keeps parent links from going round in a circle. To tell the outermost node the search
follows the links up from every node that contains the span, and in a circle it would follow them
for ever (`Tree.searchEnds`).
-/

namespace BoxLint

/-- The place of a node in its tree. -/
abbrev NodeId := Nat

/-- A node of a syntax tree. -/
structure Node where
  id : NodeId
  rawKind : Nat
  dialect : Dialect
  span : Span
  parent : Option NodeId
  deriving DecidableEq, Repr

namespace Node

/-- The kind of a node, if it is a known one. -/
def kind? (n : Node) : Option NodeKind := NodeKind.ofCode? n.rawKind

/-- Whether the node is a cast that the user wrote. -/
def isExplicitCast (n : Node) : Bool := n.kind?.any (NodeKind.isExplicitCast n.dialect)

end Node

/-- A syntax tree, with what is known of its file. -/
structure Tree where
  id : TreeId
  path : String
  dialect : Dialect
  header : String
  markedGenerated : Bool
  nodes : List Node

/-- The rank of a node among those at a span: nesting first, then depth. -/
structure Rank where
  nesting : NestingKey
  depth : Nat
  deriving DecidableEq, Repr

namespace Rank

instance : LT Rank := ⟨fun a b => a.nesting < b.nesting ∨ a.nesting = b.nesting ∧ a.depth < b.depth⟩

instance : LE Rank := ⟨fun a b => a.nesting < b.nesting ∨ a.nesting = b.nesting ∧ a.depth ≤ b.depth⟩

instance (a b : Rank) : Decidable (a < b) :=
  inferInstanceAs (Decidable (a.nesting < b.nesting ∨ a.nesting = b.nesting ∧ a.depth < b.depth))

instance (a b : Rank) : Decidable (a ≤ b) :=
  inferInstanceAs (Decidable (a.nesting < b.nesting ∨ a.nesting = b.nesting ∧ a.depth ≤ b.depth))

theorem lt_def {a b : Rank} :
    a < b ↔ a.nesting < b.nesting ∨ a.nesting = b.nesting ∧ a.depth < b.depth :=
  Iff.rfl

theorem le_def {a b : Rank} :
    a ≤ b ↔ a.nesting < b.nesting ∨ a.nesting = b.nesting ∧ a.depth ≤ b.depth :=
  Iff.rfl

end Rank

namespace Tree

/-- A tree without nodes. -/
def empty (id : TreeId) (path : String) (dialect : Dialect) : Tree :=
  ⟨id, path, dialect, "", false, []⟩

/-- Adds a node at the end, in the tree's dialect, and tells the place it got. -/
def pushNode (t : Tree) (rawKind : Nat) (span : Span) (parent : Option NodeId) : NodeId × Tree :=
  let id := t.nodes.length
  (id, { t with nodes := t.nodes ++ [⟨id, rawKind, t.dialect, span, parent⟩] })

/-- The tree with one more node. -/
def push (t : Tree) (rawKind : Nat) (span : Span) (parent : Option NodeId) : Tree :=
  (t.pushNode rawKind span parent).2

/-- The node in a given place. -/
def node? (t : Tree) (id : NodeId) : Option Node := t.nodes[id]?

theorem node?_push_of_lt {t : Tree} {rawKind : Nat} {span : Span} {parent : Option NodeId}
    {id : NodeId} (h : id < t.nodes.length) :
    (t.push rawKind span parent).node? id = t.node? id := by
  simp [node?, push, pushNode, List.getElem?_append_left h]

theorem node?_push_length (t : Tree) (rawKind : Nat) (span : Span) (parent : Option NodeId) :
    (t.push rawKind span parent).node? t.nodes.length =
      some ⟨t.nodes.length, rawKind, t.dialect, span, parent⟩ := by
  simp [node?, push, pushNode]

/-- The parent that a node names, if the node exists and names one. -/
def parent? (t : Tree) (id : NodeId) : Option NodeId := (t.node? id).bind (·.parent)

/-- The number of parent links from a node, following `steps` of them at most. -/
def depthWithin (t : Tree) : (steps : Nat) → NodeId → Nat
  | 0, _ => 0
  | steps + 1, id =>
    match t.parent? id with
    | some p => t.depthWithin steps p + 1
    | none => 0

/-- The number of parent links from a node to the end of its chain, if the chain ends: it passes
each node once then, so the number of nodes bounds it. -/
def depth (t : Tree) (id : NodeId) : Nat := t.depthWithin t.nodes.length id

/-- Whether the chain of parent links from a node is at its end after some of them. -/
def endsWithin (t : Tree) : (steps : Nat) → NodeId → Bool
  | 0, id => (t.parent? id).isNone
  | steps + 1, id => (t.parent? id).all (t.endsWithin steps)

/-- Whether the chain of parent links from a node ends. One with more links than there are nodes
has passed a node twice, and goes on for ever. -/
def chainEnds (t : Tree) (id : NodeId) : Bool := t.endsWithin t.nodes.length id

/-- The rank of a node of the tree. -/
def rank (t : Tree) (n : Node) : Rank := ⟨n.span.nestingKey, t.depth n.id⟩

/-- Whether the search at a span ends. It measures the depth of every node that contains the span,
by following parent links. -/
def searchEnds (t : Tree) (s : Span) : Bool :=
  (t.nodes.filter (·.span.contains s)).all (t.chainEnds ·.id)

/-- The node at a span, if the search for it ends: of those that contain the span the one with the
least rank, the first added if there are several. -/
def find? (t : Tree) (s : Span) : Option Node :=
  (t.nodes.filter (·.span.contains s)).minOn? t.rank

/-- Whether the tree's file was generated by a tool. -/
def isGenerated (t : Tree) : Bool :=
  t.markedGenerated || Generated.isGeneratedPath t.path || Generated.isGeneratedHeader t.header

end Tree

end BoxLint
