import BoxLint.Registration
import BoxLint.Settings.RuleTable

/-!
# Settings

The settings of an analysis: how generated code is treated, whether files are analyzed at the same
time, and overrides of rules. A rule runs with its own defaults where the settings leave them open
(`Settings.effective`, `Settings.effective_insert`).
-/

namespace BoxLint

/-- How generated code is treated. -/
inductive GeneratedCode where
  /-- It is not looked at. -/
  | skip
  /-- It is analyzed, and what is found there is dropped. -/
  | analyze
  /-- It is analyzed like any other code. -/
  | report
  deriving DecidableEq, Repr

namespace GeneratedCode

/-- The flags of a treatment. -/
def flags : GeneratedCode → GeneratedFlags
  | .skip => ⟨false, false⟩
  | .analyze => ⟨true, false⟩
  | .report => ⟨true, true⟩

/-- The word that stands for a treatment. -/
def word : GeneratedCode → String
  | .skip => "skip"
  | .analyze => "analyze"
  | .report => "report"

/-- The treatment that a word stands for. -/
def ofWord? (w : String) : Option GeneratedCode :=
  if w = "skip" then some .skip
  else if w = "analyze" then some .analyze
  else if w = "report" then some .report
  else none

end GeneratedCode

/-- The settings of an analysis. -/
structure Settings where
  generatedCode : GeneratedCode
  concurrent : Bool
  rules : RuleTable
  deriving DecidableEq

/-- What a rule runs with. -/
structure EffectiveRule where
  enabled : Bool
  severity : Severity
  messageFormat : String
  deriving DecidableEq, Repr

namespace Settings

/-- The settings when nothing is set. -/
def default : Settings := ⟨.skip, true, .empty⟩

/-- Whether a rule or suppression is switched on, given whether it is by default. -/
def isEnabled (s : Settings) (id : String) (byDefault : Bool) : Bool :=
  match s.rules.get? id with
  | some o => o.enabled.getD byDefault && o.severity != some .off
  | none => byDefault

/-- What a rule runs with: what the settings say of it, and its defaults for the rest. -/
def effective (s : Settings) (r : RuleDescriptor) : EffectiveRule :=
  let o := s.rules.get? r.id
  { enabled := s.isEnabled r.id r.enabledByDefault
    severity := ((o.bind (·.severity)).bind (·.level?)).getD r.defaultSeverity
    messageFormat := (o.bind (·.message)).getD r.messageFormat }

/-- An override decides of its rule what it speaks of: the switch, which a severity of none turns
off, the level and the message. The rest is as the rule has it, and other rules run as before. -/
theorem effective_insert (s : Settings) (r : RuleDescriptor) (id : String) (o : RuleOverride) :
    ({ s with rules := s.rules.insert id o } : Settings).effective r =
      if r.id = id then
        { enabled := o.enabled.getD r.enabledByDefault && o.severity != some .off
          severity := (o.severity.bind (·.level?)).getD r.defaultSeverity
          messageFormat := o.message.getD r.messageFormat }
      else s.effective r := by
  simp only [effective, isEnabled, RuleTable.get?_insert]
  by_cases h : r.id = id
  · rw [if_pos h, if_pos h]
    rfl
  · rw [if_neg h, if_neg h]

end Settings

end BoxLint
