import BoxLint.Operation

/-!
# Boxing conversions

A boxing conversion turns a value into an object on the heap. The C# compiler classifies its
conversions, and that classification decides; in Visual Basic the types do. A conversion whose
operand has no resolved type is never taken for boxing.
-/

namespace BoxLint.Operation

/-- Whether a conversion from the type `source` boxes. -/
def boxesFrom (source : TypeInfo) (op : Operation) : Bool :=
  match op with
  | .plain _ _ _ => false
  | .conversion kind _ b _ =>
    match b.dialect with
    | .csharp => kind == some .boxing
    | .visualBasic => b.type.any TypeInfo.isReference && source.isValue

/-- Whether the operation is a boxing conversion. -/
def isBoxing (op : Operation) : Bool :=
  match op.operandType? with
  | some source => !source.isError && op.boxesFrom source
  | none => false

/-- Whether the operation is a boxing conversion that the compiler inserted. -/
def isImplicitBoxing (op : Operation) : Bool := op.binding.isImplicit && op.isBoxing

end BoxLint.Operation
