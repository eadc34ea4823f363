import BoxLint.Dialect

/-!
# Registration

What a rule asks of its host: the dialects it wants to see, how it treats generated code, and
whether files may be analyzed at the same time.
-/

namespace BoxLint

/-- How generated code is treated: whether it is analyzed, and whether findings in it are kept. -/
structure GeneratedFlags where
  analyze : Bool
  report : Bool
  deriving DecidableEq, Repr

namespace GeneratedFlags

/-- The flags as bits: 1 analyze, 2 report. -/
def bits (f : GeneratedFlags) : Nat := f.analyze.toNat + 2 * f.report.toNat

/-- The flags that bits stand for. -/
def ofBits (n : Nat) : GeneratedFlags := ⟨n.testBit 0, n.testBit 1⟩

end GeneratedFlags

/-- What a rule asks of its host. -/
structure Registration where
  dialects : List Dialect
  generatedCode : GeneratedFlags
  concurrent : Bool
  deriving DecidableEq, Repr

namespace Registration

/-- Whether a file is visited, generated or not. -/
def visits (r : Registration) (generated : Bool) : Bool := !generated || r.generatedCode.analyze

/-- Whether findings in a file are kept, generated or not. -/
def reports (r : Registration) (generated : Bool) : Bool :=
  !generated || (r.generatedCode.analyze && r.generatedCode.report)

/-- Whether conversions of a dialect are wanted. -/
def wants (r : Registration) (d : Dialect) : Bool := r.dialects.contains d

end Registration

end BoxLint
