import BoxLint.Dialect
import BoxLint.Types.TypeInfo

/-!
# Keywords

Some framework types have a keyword of their own in each dialect. The keyword of a type is looked
up by the type's hash, so neither its name nor its flags matter.
-/

namespace BoxLint.Keyword

/-- A framework type with its keywords. -/
structure Entry where
  name : String
  csharp : Option String
  visualBasic : String

/-- The framework types that have keywords. -/
def entries : List Entry :=
  [⟨"System.Boolean", some "bool", "Boolean"⟩,
    ⟨"System.Byte", some "byte", "Byte"⟩,
    ⟨"System.SByte", some "sbyte", "SByte"⟩,
    ⟨"System.Char", some "char", "Char"⟩,
    ⟨"System.Int16", some "short", "Short"⟩,
    ⟨"System.UInt16", some "ushort", "UShort"⟩,
    ⟨"System.Int32", some "int", "Integer"⟩,
    ⟨"System.UInt32", some "uint", "UInteger"⟩,
    ⟨"System.Int64", some "long", "Long"⟩,
    ⟨"System.UInt64", some "ulong", "ULong"⟩,
    ⟨"System.Single", some "float", "Single"⟩,
    ⟨"System.Double", some "double", "Double"⟩,
    ⟨"System.Decimal", some "decimal", "Decimal"⟩,
    ⟨"System.DateTime", none, "Date"⟩,
    ⟨"System.String", some "string", "String"⟩,
    ⟨"System.Object", some "object", "Object"⟩]

/-- The keyword of a type in a dialect, if it has one there. -/
def Entry.keyword? (e : Entry) : Dialect → Option String
  | .csharp => e.csharp
  | .visualBasic => some e.visualBasic

/-- The keyword of the type with a given hash. -/
def ofHash? (dialect : Dialect) (hash : TypeHash) : Option String :=
  entries.findSome? fun e => if TypeHash.ofName e.name = hash then e.keyword? dialect else none

/-- The keyword of a type. -/
def ofType? (dialect : Dialect) (t : TypeInfo) : Option String := ofHash? dialect t.hash

end BoxLint.Keyword
