import BoxLint.Types.Digest

/-!
# Type hashes

A type is known by a 64-bit hash of its qualified name. The hash zero is kept for types that did
not resolve.
-/

namespace BoxLint

/-- The hash by which a type is known. -/
structure TypeHash where
  word : UInt64
  deriving DecidableEq, Repr

namespace TypeHash

/-- The hash of a type that did not resolve. -/
def unresolved : TypeHash := ⟨0⟩

/-- What sets type names apart from other hashed text. -/
def domain : UInt64 := 0x2fac10b63a6cc57c

/-- The hash of a qualified name. -/
def ofName (name : String) : TypeHash :=
  ⟨domain ^^^ Digest.xxHash64 name.toUTF8.toList⟩

/-- Whether this is the hash of unresolved types. -/
def isUnresolved (h : TypeHash) : Bool := h.word == 0

/-- The text of a hash: `0x` and sixteen hexadecimal digits. -/
def text (h : TypeHash) : String :=
  let digits := Nat.toDigits 16 h.word.toNat
  "0x" ++ String.ofList (List.replicate (16 - digits.length) '0' ++ digits)

/-- The inspection form of a hash. -/
def inspect (h : TypeHash) : String := "TypeHash(" ++ h.text ++ ")"

end TypeHash

end BoxLint
