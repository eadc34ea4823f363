import BoxLint.Source.Span

/-!
# Errors of an analysis

An analysis returns an error when its host breaks the contract, by handing over an operation that is
no conversion, or when the host calls it off. Or it returns nothing at all, because it is caught in
a loop (`Failure`).
-/

namespace BoxLint

/-- The errors that an analysis returns. -/
inductive AnalysisError where
  | notAConversion (kind : String) (span : Span)
  | cancelled
  deriving DecidableEq, Repr

namespace AnalysisError

/-- The text of an error. -/
def message : AnalysisError → String
  | .notAConversion kind span =>
    "host contract violation: expected a Conversion operation at " ++ span.text ++ ", got " ++ kind
  | .cancelled => "analysis cancelled"

/-- Whether the host broke its contract. -/
def isContractViolation : AnalysisError → Bool
  | .notAConversion _ _ => true
  | .cancelled => false

end AnalysisError

/-- How an analysis fails: it returns an error, or it runs for ever and returns nothing. -/
inductive Failure where
  | error (error : AnalysisError)
  | endless
  deriving DecidableEq, Repr

/-- The host called the analysis off. -/
abbrev Failure.cancelled : Failure := .error .cancelled

end BoxLint
