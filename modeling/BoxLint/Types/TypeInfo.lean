import BoxLint.Text.Cut
import BoxLint.Types.TypeHash

/-!
# Types

What a compiler host tells about a type: its hash, its qualified name, and whether it is a value
type, a reference type, nullable, or did not resolve. The last dot of the qualified name parts the
namespace from the simple name.
-/

namespace BoxLint

/-- The properties of a type. -/
structure TypeFlags where
  value : Bool
  reference : Bool
  nullable : Bool
  error : Bool
  deriving DecidableEq, Repr

namespace TypeFlags

/-- The properties as bits: 1 value, 2 reference, 4 nullable, 8 error. -/
def bits (f : TypeFlags) : Nat :=
  f.value.toNat + 2 * f.reference.toNat + 4 * f.nullable.toNat + 8 * f.error.toNat

/-- The properties that bits stand for. -/
def ofBits (n : Nat) : TypeFlags := ⟨n.testBit 0, n.testBit 1, n.testBit 2, n.testBit 3⟩

end TypeFlags

/-- A type as the host describes it. -/
structure TypeInfo where
  hash : TypeHash
  name : String
  flags : TypeFlags
  deriving DecidableEq, Repr

namespace TypeInfo

/-- A type with given properties, known by the hash of its name. -/
def ofFlags (name : String) (flags : TypeFlags) : TypeInfo := ⟨TypeHash.ofName name, name, flags⟩

/-- A value type. -/
def value (name : String) : TypeInfo := ofFlags name ⟨true, false, false, false⟩

/-- A reference type. -/
def reference (name : String) : TypeInfo := ofFlags name ⟨false, true, false, false⟩

/-- A type that did not resolve. -/
def unresolved (name : String) : TypeInfo := ⟨.unresolved, name, ⟨false, false, false, true⟩⟩

/-- Whether the type did not resolve. -/
def isError (t : TypeInfo) : Bool := t.flags.error

/-- Whether the type is a value type that resolved. -/
def isValue (t : TypeInfo) : Bool := t.flags.value && !t.flags.error

/-- Whether the type is a reference type that resolved. -/
def isReference (t : TypeInfo) : Bool := t.flags.reference && !t.flags.error

/-- The qualified name cut at its last dot. -/
def parts? (t : TypeInfo) : Option (String × String) :=
  (Text.cutLast? (· == '.') t.name.toList).map fun (a, b) => (String.ofList a, String.ofList b)

/-- The namespace: what stands before the last dot, if there is one. -/
def scope? (t : TypeInfo) : Option String := t.parts?.map Prod.fst

/-- The simple name: what stands after the last dot, or the whole name. -/
def simpleName (t : TypeInfo) : String := (t.parts?.map Prod.snd).getD t.name

end TypeInfo

end BoxLint
