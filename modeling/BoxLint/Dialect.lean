/-!
# Dialects

The two languages whose code is analyzed.
-/

namespace BoxLint

/-- A language of the analyzed code. -/
inductive Dialect where
  | csharp
  | visualBasic
  deriving DecidableEq, Repr

namespace Dialect

/-- Every dialect. -/
def all : List Dialect := [.csharp, .visualBasic]

/-- The name of a dialect. -/
def name : Dialect → String
  | .csharp => "C#"
  | .visualBasic => "Visual Basic"

end Dialect

end BoxLint
