import BoxLint.Message
import BoxLint.Source.Location

/-!
# Diagnostics

A rule reports diagnostics: where, how severe, and a message made from a template and arguments.
A suppression hides a diagnostic that some other rule reported.
-/

namespace BoxLint

/-- How severe a diagnostic is. -/
inductive Severity where
  | hidden
  | info
  | warning
  | error
  deriving DecidableEq, Repr

/-- The name of a severity. -/
def Severity.name : Severity → String
  | .hidden => "hidden"
  | .info => "info"
  | .warning => "warning"
  | .error => "error"

/-- What is published about a rule. -/
structure RuleDescriptor where
  id : String
  title : String
  messageFormat : String
  category : String
  defaultSeverity : Severity
  enabledByDefault : Bool
  description : String
  deriving DecidableEq, Repr

/-- A finding of a rule. -/
structure Diagnostic where
  id : String
  severity : Severity
  location : Location
  arguments : List String
  message : String
  deriving DecidableEq, Repr

namespace Diagnostic

/-- The diagnostic whose message is a template filled with its arguments. -/
def ofTemplate (id : String) (severity : Severity) (template : String) (location : Location)
    (arguments : List String) : Diagnostic :=
  ⟨id, severity, location, arguments, Message.format template arguments⟩

/-- The text of a diagnostic: where, how severe, which rule, and the message. -/
def text (d : Diagnostic) : String :=
  d.location.text ++ ": " ++ d.severity.name ++ " " ++ d.id ++ ": " ++ d.message

/-- Diagnostics in the order of their locations; those at one location keep their order. -/
def sorted (ds : List Diagnostic) : List Diagnostic :=
  ds.mergeSort fun a b => a.location.precedes b.location

end Diagnostic

/-- What is published about a suppression. -/
structure SuppressionDescriptor where
  id : String
  suppressedId : String
  justification : String
  deriving DecidableEq, Repr

/-- A diagnostic that is hidden, and why. -/
structure Suppression where
  descriptor : SuppressionDescriptor
  diagnostic : Diagnostic
  deriving DecidableEq, Repr

end BoxLint
