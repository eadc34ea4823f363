import BoxLint.Dialect

/-!
# Kinds of syntax

Hosts number the kinds of syntax; a number that names no known kind is kept as it is. The casts a
user can write depend on the dialect.
-/

namespace BoxLint

/-- A known kind of syntax. -/
inductive NodeKind where
  | compilationUnit
  | methodBody
  | localDeclaration
  | variableDeclarator
  | assignment
  | invocation
  | argument
  | identifier
  | literal
  | parenthesized
  | castExpression
  | ctypeExpression
  | directCastExpression
  | tryCastExpression
  deriving DecidableEq, Repr

namespace NodeKind

/-- Every known kind. -/
def all : List NodeKind :=
  [.compilationUnit, .methodBody, .localDeclaration, .variableDeclarator, .assignment, .invocation,
    .argument, .identifier, .literal, .parenthesized, .castExpression, .ctypeExpression,
    .directCastExpression, .tryCastExpression]

/-- The number of a kind. -/
def code : NodeKind → Nat
  | .compilationUnit => 1
  | .methodBody => 2
  | .localDeclaration => 3
  | .variableDeclarator => 4
  | .assignment => 5
  | .invocation => 6
  | .argument => 7
  | .identifier => 8
  | .literal => 9
  | .parenthesized => 10
  | .castExpression => 100
  | .ctypeExpression => 200
  | .directCastExpression => 201
  | .tryCastExpression => 202

/-- The kind with a given number. -/
def ofCode? (n : Nat) : Option NodeKind := all.find? (·.code == n)

/-- The name of a kind. -/
def name : NodeKind → String
  | .compilationUnit => "CompilationUnit"
  | .methodBody => "MethodBody"
  | .localDeclaration => "LocalDeclaration"
  | .variableDeclarator => "VariableDeclarator"
  | .assignment => "Assignment"
  | .invocation => "Invocation"
  | .argument => "Argument"
  | .identifier => "Identifier"
  | .literal => "Literal"
  | .parenthesized => "Parenthesized"
  | .castExpression => "CastExpression"
  | .ctypeExpression => "CTypeExpression"
  | .directCastExpression => "DirectCastExpression"
  | .tryCastExpression => "TryCastExpression"

/-- Whether a kind is a cast that a user writes in a dialect. -/
def isExplicitCast (dialect : Dialect) (kind : NodeKind) : Bool :=
  match dialect, kind with
  | .csharp, .castExpression => true
  | .visualBasic, .ctypeExpression => true
  | .visualBasic, .directCastExpression => true
  | .visualBasic, .tryCastExpression => true
  | _, _ => false

end NodeKind

end BoxLint
