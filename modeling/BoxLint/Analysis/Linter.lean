import BoxLint.Analysis.Detector
import BoxLint.Analysis.Suppressor

/-!
# The linter

The linter puts the detector and the suppressor to work on a compilation. `Linter.analyze` visits
every conversion of every listed file and reports the findings in the order of their locations;
`Linter.suppress` looks among the diagnostics of other rules for casts that box; `Linter.run` does
both.
-/

namespace BoxLint

/-- A linter: the rule it runs, whether it suppresses, and what it asks of its host. -/
structure Linter where
  rule : EffectiveRule
  suppresses : Bool
  registration : Registration

/-- What a part of the linter's work gives, with what was logged and the state of the host. -/
structure Report (σ α : Type) where
  result : Except Failure α
  log : List Event
  state : σ

/-- The report of a pass: what `f` makes of all it delivered, unless it failed. -/
def Outcome.report {σ α β : Type} (o : Outcome σ α) (f : List α → β) : Report σ β :=
  ⟨match o.error with
    | some e => .error e
    | none => .ok (f o.delivered), o.log, o.state⟩

/-- Everything one run gives. -/
structure Findings where
  diagnostics : List Diagnostic
  suppressions : List Suppression
  deriving DecidableEq, Repr

/-- Whether a diagnostic was suppressed. -/
def Findings.isSuppressed (f : Findings) (d : Diagnostic) : Bool :=
  f.suppressions.any (·.diagnostic == d)

namespace Linter

/-- The linter with given settings. -/
def ofSettings (s : Settings) : Linter where
  rule := s.effective Rule.implicitBoxing
  suppresses := s.isEnabled Rule.boxingCast.id true
  registration := ⟨Dialect.all, s.generatedCode.flags, s.concurrent⟩

/-- What is done at a conversion: the signal is looked at before each, and only the dialects that
were asked for are judged. -/
def conversionActions (l : Linter) (kept : Bool) (m : FileModel) (op : Operation) :
    Pass Diagnostic :=
  .look none ::
    if l.registration.wants op.binding.dialect then Detector.actions l.rule kept m op else []

/-- The pass over a file: its conversions in the order of visits, unless the file was generated and
is not visited. -/
def filePass (l : Linter) (m : FileModel) : Pass Diagnostic :=
  let generated := m.tree.isGenerated
  if l.registration.visits generated then
    m.conversions.flatMap (l.conversionActions (l.registration.reports generated) m)
  else [.log (.skippedGenerated m.tree.path)]

/-- The pass over the file with a given number, which may not exist. -/
def treePass (l : Linter) (c : Compilation) (id : TreeId) : Pass Diagnostic :=
  .ask .model ::
    match c.model? id with
    | some m => l.filePass m
    | none => []

/-- The pass over the listed files. Files that are analyzed at the same time log elsewhere. -/
def pass (l : Linter) (c : Compilation) (listed : List TreeId) : Pass Diagnostic :=
  let p : Pass Diagnostic := listed.flatMap (l.treePass c)
  if l.registration.concurrent then p.silent else p

variable {σ : Type}

/-- Reports the findings in the listed files, by location. -/
def analyze (l : Linter) (h : Host σ) (s : σ) (c : Compilation) (listed : List TreeId) :
    Report σ (List Diagnostic) :=
  if l.rule.enabled then ((l.pass c listed).run h s).report Diagnostic.sorted
  else ⟨.ok [], [], s⟩

/-- The diagnostics that may be suppressed: those of the rule against redundant casts. -/
def candidates (reported : List Diagnostic) : List Diagnostic :=
  reported.filter (·.id == Rule.boxingCast.suppressedId)

/-- Suppresses diagnostics of other rules. -/
def suppress (l : Linter) (h : Host σ) (s : σ) (c : Compilation) (reported : List Diagnostic) :
    Report σ (List Suppression) :=
  if l.suppresses then ((Suppressor.pass c (candidates reported)).run h s).report id
  else ⟨.ok [], [], s⟩

/-- Analyzes, then suppresses; a failed analysis is the end of it. -/
def run (l : Linter) (h : Host σ) (s : σ) (c : Compilation) (listed : List TreeId)
    (reported : List Diagnostic) : Report σ Findings :=
  let a := l.analyze h s c listed
  match a.result with
  | .error e => ⟨.error e, a.log, a.state⟩
  | .ok diagnostics =>
    let b := l.suppress h a.state c reported
    ⟨b.result.map (⟨diagnostics, ·⟩), a.log ++ b.log, b.state⟩

end Linter

end BoxLint
