import BoxLint.Settings.Basic
import BoxLint.Toml.Document

/-!
# Reading settings

Settings are written as a TOML document. A rule's override is a table of named fields, or an array
of its fields in their order; a word is a string, or a table that has the word as its only key and
nothing under it. Keys that mean nothing are refused. When all that is read makes sense, a rule with
an unknown id is still refused.
-/

namespace BoxLint

open Toml (Table Value)

/-- Why a file could not be read. -/
inductive ReadFailure where
  | missing
  | notText
  deriving DecidableEq, Repr

/-- The text of a failure to read a file. -/
def ReadFailure.message : ReadFailure → String
  | .missing => "No such file or directory (os error 2)"
  | .notText => "stream did not contain valid UTF-8"

/-- Why settings could not be read. -/
inductive SettingsError where
  | unreadable (path : String) (failure : ReadFailure)
  | malformed
  | unknownRule (id : String)
  deriving DecidableEq, Repr

/-- The text of an error. -/
def SettingsError.message : SettingsError → String
  | .unreadable path failure => "failed to read " ++ path ++ ": " ++ failure.message
  | .malformed => "failed to parse configuration"
  | .unknownRule id => "unknown rule id '" ++ id ++ "'"

/-- The truth value that a value stands for. -/
def readBoolean? : Value → Option Bool
  | .boolean b => some b
  | _ => none

/-- The text that a value stands for. -/
def readText? : Value → Option String
  | .string s => some s
  | _ => none

/-- The word that a value stands for. -/
def readWord? : Value → Option String
  | .string w => some w
  | .table [(w, .table [])] => some w
  | .table [(w, .array [])] => some w
  | _ => none

/-- Reads a value that may be missing: a missing one is none, one that makes no sense fails. -/
def readOptional {α : Type} (read? : Value → Option α) : Option Value → Option (Option α)
  | none => some none
  | some v => (read? v).map some

/-- Whether a table has no keys but the given ones. -/
def hasOnlyKeys (keys : List String) (t : Table) : Bool := t.all fun (k, _) => keys.contains k

namespace RuleOverride

/-- The override with the given fields, each of which may be missing. -/
def ofFields? (enabled severity message : Option Value) : Option RuleOverride := do
  let enabled ← readOptional readBoolean? enabled
  let severity ← readOptional (readWord? · >>= SeverityChoice.ofWord?) severity
  let message ← readOptional readText? message
  return ⟨enabled, severity, message⟩

/-- The override that a value stands for: a table of fields, or an array of fields in order, of
which those after the third do not matter. -/
def ofValue? : Value → Option RuleOverride
  | .table t =>
    if hasOnlyKeys ["enabled", "severity", "message"] t then
      ofFields? (t.lookup "enabled") (t.lookup "severity") (t.lookup "message")
    else none
  | .array vs => ofFields? vs[0]? vs[1]? vs[2]?
  | _ => none

end RuleOverride

namespace RuleTable

/-- The override that an entry of a table stands for, with its rule's id. -/
def entry? (e : String × Value) : Option (String × RuleOverride) :=
  (RuleOverride.ofValue? e.2).map (e.1, ·)

/-- The overrides that a value stands for. -/
def ofValue? : Value → Option RuleTable
  | .table t => (t.mapM entry?).map ofList
  | _ => none

end RuleTable

namespace Settings

/-- The settings that a table stands for. -/
def ofTable? (t : Table) : Option Settings := do
  guard (hasOnlyKeys ["generated_code", "concurrent", "rules"] t)
  let generatedCode ←
    readOptional (readWord? · >>= GeneratedCode.ofWord?) (t.lookup "generated_code")
  let concurrent ← readOptional readBoolean? (t.lookup "concurrent")
  let rules ← readOptional RuleTable.ofValue? (t.lookup "rules")
  return ⟨generatedCode.getD default.generatedCode, concurrent.getD default.concurrent,
    rules.getD default.rules⟩

/-- The settings, if they name known rules only; the least unknown id is the one refused. -/
def validate (s : Settings) (known : List String) : Except SettingsError Settings :=
  match s.rules.ids.find? (!known.contains ·) with
  | some id => .error (.unknownRule id)
  | none => .ok s

/-- Reads settings from a text by means of a reader of documents, given the ids of the known
rules. -/
def parseWith (read? : String → Option Table) (text : String) (known : List String) :
    Except SettingsError Settings :=
  match read? text >>= ofTable? with
  | some s => s.validate known
  | none => .error .malformed

/-- Reads settings from a text that is a TOML document, given the ids of the known rules. -/
def parse (text : String) (known : List String) : Except SettingsError Settings :=
  parseWith Toml.document? text known

/-- Reads settings from the contents of a file, if the file exists. -/
def load (path : String) (contents : Option ByteArray) (known : List String) :
    Except SettingsError Settings :=
  match contents with
  | none => .error (.unreadable path .missing)
  | some bytes =>
    match String.fromUTF8? bytes with
    | none => .error (.unreadable path .notText)
    | some text => parse text known

end Settings

end BoxLint
