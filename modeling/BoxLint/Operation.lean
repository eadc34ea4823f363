import BoxLint.Source.Span
import BoxLint.Syntax.Tree
import BoxLint.Types.TypeInfo

/-!
# Operations

A compiler binds syntax to operations. An operation has children, and a conversion also has an
operand. Operations are visited with each one before its operand and its children, the operand
first (`Operation.visits`).
-/

namespace BoxLint

/-- How the compiler classifies a conversion. -/
inductive ConversionClass where
  | identity
  | implicitNumeric
  | explicitNumeric
  | boxing
  | unboxing
  | implicitReference
  | explicitReference
  | nullable
  | userDefined
  deriving DecidableEq, Repr

/-- The kinds of operation other than conversions. -/
inductive PlainKind where
  | block
  | literal
  | localReference
  | invocation
  | other
  deriving DecidableEq, Repr

/-- The name of a kind of operation. -/
def PlainKind.name : PlainKind → String
  | .block => "Block"
  | .literal => "Literal"
  | .localReference => "LocalReference"
  | .invocation => "Invocation"
  | .other => "Other"

/-- What every operation carries: its type if it has one, the node it was bound from, where it
stands, its dialect, and whether the compiler inserted it. -/
structure Binding where
  type : Option TypeInfo
  node : NodeId
  span : Span
  dialect : Dialect
  isImplicit : Bool
  deriving DecidableEq, Repr

/-- An operation. -/
inductive Operation where
  | plain (kind : PlainKind) (binding : Binding) (children : List Operation)
  | conversion (kind : Option ConversionClass) (operand : Operation) (binding : Binding)
      (children : List Operation)

namespace Operation

/-- What the operation carries. -/
def binding : Operation → Binding
  | .plain _ b _ => b
  | .conversion _ _ b _ => b

/-- The children of an operation, its operand not among them. -/
def children : Operation → List Operation
  | .plain _ _ cs => cs
  | .conversion _ _ _ cs => cs

/-- The operand of a conversion. -/
def operand? : Operation → Option Operation
  | .plain _ _ _ => none
  | .conversion _ o _ _ => some o

/-- The name of an operation's kind. -/
def kindName : Operation → String
  | .plain k _ _ => k.name
  | .conversion _ _ _ _ => "Conversion"

/-- Whether the operation is a conversion. -/
def isConversion : Operation → Bool
  | .plain _ _ _ => false
  | .conversion _ _ _ _ => true

/-- The type of a conversion's operand. -/
def operandType? (op : Operation) : Option TypeInfo := op.operand?.bind (·.binding.type)

mutual

/-- The operations of a tree in the order they are visited. -/
def visits : Operation → List Operation
  | .plain k b cs => .plain k b cs :: visitsAll cs
  | .conversion k o b cs => .conversion k o b cs :: (visits o ++ visitsAll cs)

/-- The operations of several trees, one tree after the other. -/
def visitsAll : List Operation → List Operation
  | [] => []
  | op :: ops => visits op ++ visitsAll ops

end

theorem visitsAll_eq_flatMap (ops : List Operation) : visitsAll ops = ops.flatMap visits := by
  induction ops with
  | nil => rfl
  | cons op ops ih => rw [visitsAll, ih, List.flatMap_cons]

theorem visits_plain (k : PlainKind) (b : Binding) (cs : List Operation) :
    (plain k b cs).visits = plain k b cs :: cs.flatMap visits := by
  rw [visits, visitsAll_eq_flatMap]

theorem visits_conversion (k : Option ConversionClass) (o : Operation) (b : Binding)
    (cs : List Operation) :
    (conversion k o b cs).visits = conversion k o b cs :: (o.visits ++ cs.flatMap visits) := by
  rw [visits, visitsAll_eq_flatMap]

end Operation

end BoxLint
