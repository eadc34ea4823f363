import BoxLint.Diagnostic

/-!
# The published rules

The rule against implicit boxing, and the suppression that keeps another rule, the one against
redundant casts, away from casts that box.
-/

namespace BoxLint.Rule

/-- The rule against implicit boxing. -/
def implicitBoxing : RuleDescriptor where
  id := "AvoidImplicitBoxing"
  title := "Avoid implicit boxing"
  messageFormat := "{0} implicitly boxed to {1}"
  category := "Conversions"
  defaultSeverity := .warning
  enabledByDefault := true
  description := "A value type is converted to a reference type without a cast. " ++
    "Each such conversion allocates a box on the heap."

/-- The suppression of redundant-cast diagnostics on casts that box. -/
def boxingCast : SuppressionDescriptor where
  id := "SPR0004"
  suppressedId := "IDE0004"
  justification := "Removing the cast would introduce an implicit boxing conversion"

/-- The rules that report diagnostics. -/
def reported : List RuleDescriptor := [implicitBoxing]

/-- The suppressions. -/
def suppressions : List SuppressionDescriptor := [boxingCast]

/-- The ids that settings may name. -/
def knownIds : List String := [implicitBoxing.id, boxingCast.id]

end BoxLint.Rule
