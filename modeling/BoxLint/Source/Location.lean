import BoxLint.Source.Span

/-!
# Locations

A location is a span in a syntax tree, or a span that belongs to no tree. Findings are reported in
the order of their locations: those without a tree first, then by tree and span.
-/

namespace BoxLint

/-- The number under which a syntax tree is known. -/
abbrev TreeId := Nat

/-- The text of a tree number, `#n`. -/
def TreeId.text (t : TreeId) : String := "#" ++ toString t

/-- The inspection form of a tree number. -/
def TreeId.inspect (t : TreeId) : String := "TreeId(" ++ toString t ++ ")"

/-- A span, and the tree it belongs to if there is one. -/
structure Location where
  tree : Option TreeId
  span : Span
  deriving DecidableEq, Repr, Inhabited

namespace Location

/-- The location of what has no place in the source. -/
def nowhere : Location := ⟨none, Span.between 0 0 0 0⟩

/-- A span of a given tree. -/
def inTree (t : TreeId) (s : Span) : Location := ⟨some t, s⟩

/-- Whether one location comes no later than another: no tree before any tree, then the lower
tree number, then the earlier span. -/
def precedes (a b : Location) : Bool :=
  match a.tree, b.tree with
  | none, none => a.span ≤ b.span
  | none, some _ => true
  | some _, none => false
  | some s, some t => s < t || (s == t && a.span ≤ b.span)

/-- Locations in order. -/
def sorted (ls : List Location) : List Location := ls.mergeSort precedes

/-- The text of a location, `#tree:line:col`; without a tree it names no place. -/
def text (l : Location) : String :=
  match l.tree with
  | none => "<no location>"
  | some t => TreeId.text t ++ ":" ++ l.span.text

end Location

end BoxLint
