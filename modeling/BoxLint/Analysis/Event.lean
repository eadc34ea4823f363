import BoxLint.Dialect
import BoxLint.Source.Location

/-!
# Events

An analysis logs what it does: what it found, what it passed over and why.
-/

namespace BoxLint

/-- How detailed an event is. -/
inductive EventLevel where
  | debug
  | trace
  deriving DecidableEq, Repr

/-- The name of a level. -/
def EventLevel.name : EventLevel → String
  | .debug => "DEBUG"
  | .trace => "TRACE"

/-- Something worth logging. -/
inductive Event where
  /-- A generated file was not visited. -/
  | skippedGenerated (path : String)
  /-- An implicit boxing conversion was found. -/
  | found (location : Location) (message : String)
  /-- The signal to stop was seen while looking for suppressions. -/
  | suppressionStopped
  /-- A diagnostic belongs to no tree. -/
  | noTree (id : String)
  /-- A diagnostic belongs to a tree that is not compiled. -/
  | unknownTree (id : String) (tree : TreeId)
  /-- No node contains the span of a diagnostic. -/
  | noNode (location : Location)
  /-- The node of a diagnostic is not a cast that the user wrote. -/
  | notACast (rawKind : Nat) (dialect : Dialect)
  /-- No operation was bound from the cast of a diagnostic. -/
  | unboundCast (location : Location)
  /-- A diagnostic is suppressed. -/
  | suppressing (id : String) (location : Location)
  deriving DecidableEq, Repr

namespace Event

/-- Findings and decisions are less detailed than what is passed over. -/
def level : Event → EventLevel
  | .skippedGenerated _ => .debug
  | .found _ _ => .debug
  | .suppressionStopped => .debug
  | .noTree _ => .trace
  | .unknownTree _ _ => .trace
  | .noNode _ => .trace
  | .notACast _ _ => .trace
  | .unboundCast _ => .trace
  | .suppressing _ _ => .debug

/-- The text of an event. A finding speaks for itself. -/
def message : Event → String
  | .skippedGenerated _ => "skipping generated tree"
  | .found _ message => message
  | .suppressionStopped => "suppression pass cancelled"
  | .noTree _ => "diagnostic has no source tree"
  | .unknownTree _ _ => "tree not in compilation"
  | .noNode _ => "no syntax at diagnostic span"
  | .notACast _ _ => "not a cast shape"
  | .unboundCast _ => "cast has no bound operation"
  | .suppressing id _ => "suppressing " ++ id

/-- What an event tells beside its text, by name. -/
def fields : Event → List (String × String)
  | .skippedGenerated path => [("path", path)]
  | .found location _ => [("location", location.text)]
  | .suppressionStopped => []
  | .noTree id => [("id", id)]
  | .unknownTree id tree => [("id", id), ("tree", TreeId.text tree)]
  | .noNode location => [("location", location.text)]
  | .notACast rawKind dialect => [("raw_kind", toString rawKind), ("dialect", dialect.name)]
  | .unboundCast location => [("location", location.text)]
  | .suppressing _ location => [("location", location.text)]

end Event

end BoxLint
