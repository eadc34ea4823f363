import BoxLint.Analysis.Pass
import BoxLint.Boxing
import BoxLint.Model.Compilation
import BoxLint.Rule
import BoxLint.Settings.Basic

/-!
# The detector

The detector judges one conversion at a time. A conversion that the compiler inserted and that boxes
is reported at its span, with the display names of the type it converts and the type it gives.
-/

namespace BoxLint.Detector

/-- The diagnostic of a conversion from one type to another. -/
def diagnostic (rule : EffectiveRule) (m : FileModel) (op : Operation)
    (source target : TypeInfo) : Diagnostic :=
  let line := op.binding.span.start.line
  .ofTemplate Rule.implicitBoxing.id rule.severity rule.messageFormat
    (.inTree m.tree.id op.binding.span) [m.displayName source line, m.displayName target line]

/-- What the rule finds at a conversion: nothing when it is switched off, and nothing at a
conversion without an operand type and a result type. -/
def finding? (rule : EffectiveRule) (m : FileModel) (op : Operation) : Option Diagnostic :=
  if rule.enabled && op.isImplicitBoxing then
    match op.operandType?, op.binding.type with
    | some source, some target => some (diagnostic rule m op source target)
    | _, _ => none
  else none

/-- Judges an operation, which must be a conversion. -/
def inspect (rule : EffectiveRule) (m : FileModel) (op : Operation) :
    Except AnalysisError (Option Diagnostic) :=
  if op.isConversion then .ok (finding? rule m op)
  else .error (.notAConversion op.kindName op.binding.span)

/-- What the detector does at an operation: for a finding it asks for two names and logs it, and
delivers it if findings are kept. -/
def actions (rule : EffectiveRule) (kept : Bool) (m : FileModel) (op : Operation) :
    Pass Diagnostic :=
  match inspect rule m op with
  | .error e => [.fail (.error e)]
  | .ok none => []
  | .ok (some d) =>
    [.ask .name, .ask .name, .log (.found d.location d.message)] ++
      if kept then [.deliver d] else []

end BoxLint.Detector
