import BoxLint.Proofs.Suppression
import Mathlib.Data.List.Forall2

/-!
# How far settings reach

Settings reach an analysis in three places: whether the rule is switched on, whether findings in
generated files are kept, and how findings are worded. The wording is put on last, so an analysis
under other settings with the same switches gives the same findings in other words
(`Linter.found_reworded`), and sorting does not look at words. Suppressing asks the settings one
thing, whether it is switched on.
-/

namespace BoxLint

/-! ## Switches -/

namespace Settings

variable {s s' : Settings} {id : String}

theorem isEnabled_of_off (h : (s.rules.get? id).bind (·.severity) = some .off) (byDefault : Bool) :
    s.isEnabled id byDefault = false := by
  obtain ⟨o, ho, hoff⟩ := Option.bind_eq_some_iff.1 h
  simp [isEnabled, ho, hoff]

theorem isEnabled_congr (h : s.rules.get? id = s'.rules.get? id) (byDefault : Bool) :
    s.isEnabled id byDefault = s'.isEnabled id byDefault := by
  rw [isEnabled, isEnabled, h]

end Settings

/-! ## Other words -/

/-- The diagnostic in the words of a rule. -/
def Diagnostic.reworded (d : Diagnostic) (rule : EffectiveRule) : Diagnostic :=
  .ofTemplate d.id rule.severity rule.messageFormat d.location d.arguments

/-- A diagnostic is as severe as settings have it, and uses their words. -/
structure Worded (s : Settings) (d : Diagnostic) : Prop where
  severity_eq : d.severity = (s.effective Rule.implicitBoxing).severity
  message_eq : d.message =
    Message.format (s.effective Rule.implicitBoxing).messageFormat d.arguments

/-- Two diagnostics are one finding, each in the words of its settings. -/
structure SameFinding (s s' : Settings) (d d' : Diagnostic) : Prop where
  id_eq : d.id = d'.id
  location_eq : d.location = d'.location
  arguments_eq : d.arguments = d'.arguments
  worded : Worded s d
  worded' : Worded s' d'

theorem sameFinding_reworded {s s' : Settings} {d : Diagnostic} (h : Worded s d) :
    SameFinding s s' d (d.reworded (s'.effective Rule.implicitBoxing)) :=
  ⟨rfl, rfl, rfl, h, rfl, rfl⟩

theorem Diagnostic.sorted_map_reworded (ds : List Diagnostic) (rule : EffectiveRule) :
    sorted (ds.map (·.reworded rule)) = (sorted ds).map (·.reworded rule) :=
  sorted_map fun _ _ _ _ => rfl

namespace Detector

theorem finding?_reworded {rule rule' : EffectiveRule} (he : rule.enabled = rule'.enabled)
    (m : FileModel) (op : Operation) :
    finding? rule' m op = (finding? rule m op).map (·.reworded rule') := by
  unfold finding?
  rw [he]
  split
  · cases op.operandType? <;> cases op.binding.type <;> rfl
  · rfl

end Detector

namespace Linter

variable {s s' : Settings}

theorem reports_congr (hg : s.generatedCode = .report ↔ s'.generatedCode = .report) (g : Bool) :
    (ofSettings s).registration.reports g = (ofSettings s').registration.reports g := by
  rw [Bool.eq_iff_iff, reports_ofSettings, reports_ofSettings, hg]

theorem keptFinding?_reworded
    (he : (ofSettings s).rule.enabled = (ofSettings s').rule.enabled)
    (hg : s.generatedCode = .report ↔ s'.generatedCode = .report) (m : FileModel)
    (op : Operation) :
    (ofSettings s').keptFinding? m op =
      ((ofSettings s).keptFinding? m op).map (·.reworded (ofSettings s').rule) := by
  rw [keptFinding?, keptFinding?, reports_congr hg, Detector.finding?_reworded he]
  split <;> rfl

theorem found_reworded (he : (ofSettings s).rule.enabled = (ofSettings s').rule.enabled)
    (hg : s.generatedCode = .report ↔ s'.generatedCode = .report) (c : Compilation)
    (listed : List TreeId) :
    (ofSettings s').found c listed =
      ((ofSettings s).found c listed).map (·.reworded (ofSettings s').rule) := by
  rw [found, found, List.map_filterMap]
  congr 1
  funext x
  exact keptFinding?_reworded he hg x.2.1 x.2.2

theorem worded_of_mem_found {c : Compilation} {listed : List TreeId} {d : Diagnostic}
    (hd : d ∈ (ofSettings s).found c listed) : Worded s d := by
  obtain ⟨x, -, hx⟩ := List.mem_filterMap.1 hd
  obtain ⟨-, hfinding⟩ := Option.ite_none_right_eq_some.1 hx
  obtain ⟨-, -, source, target, -, -, rfl⟩ := Detector.finding?_eq_some_iff.1 hfinding
  exact ⟨rfl, rfl⟩

theorem forall₂_sorted_found (he : (ofSettings s).rule.enabled = (ofSettings s').rule.enabled)
    (hg : s.generatedCode = .report ↔ s'.generatedCode = .report) (c : Compilation)
    (listed : List TreeId) :
    List.Forall₂ (SameFinding s s') (Diagnostic.sorted ((ofSettings s).found c listed))
      (Diagnostic.sorted ((ofSettings s').found c listed)) := by
  rw [found_reworded he hg, Diagnostic.sorted_map_reworded, List.forall₂_map_right_iff,
    List.forall₂_same]
  intro d hd
  exact sameFinding_reworded (worded_of_mem_found ((Diagnostic.sorted_perm _).mem_iff.1 hd))

theorem analyze_of_enabled {σ : Type} {h : Host σ} {st : σ} (hd : h.StaysDown st)
    (he : (ofSettings s).rule.enabled = true) (c : Compilation) (listed : List TreeId) :
    ((ofSettings s).analyze h st c listed).result =
      .ok (Diagnostic.sorted ((ofSettings s).found c listed)) := by
  rw [analyze_of_staysDown hd, if_pos he]

/-- A rule that is switched off finds nothing, whatever the host does. -/
theorem analyze_of_not_enabled {l : Linter} (he : l.rule.enabled = false) {σ : Type} {h : Host σ}
    {st : σ} {c : Compilation} {listed : List TreeId} :
    (l.analyze h st c listed).result = .ok [] := by
  rw [analyze, he]
  rfl

/-- Of the settings only the switch of the suppression matters to what is suppressed. -/
theorem suppress_congr {l l' : Linter} (hl : l.suppresses = l'.suppresses) {σ : Type} (h : Host σ)
    (st : σ) (c : Compilation) (reported : List Diagnostic) :
    l.suppress h st c reported = l'.suppress h st c reported := by
  rw [suppress, suppress, hl]

end Linter

/-- **Settings reach no further than they should.** Let the signal stay down. Settings that switch
the rule on and agree on keeping what is found in generated files give the same findings in the
same order, each in its own words. Settings that agree on the switch of the suppression suppress
the same. Settings that switch the rule off report nothing, and what they say of the rule does not
matter to what is suppressed. -/
theorem reach_of_settings {σ : Type} {h : Host σ} {st : σ} (hd : h.StaysDown st)
    (s s' : Settings) (c : Compilation) :
    (s.isEnabled "AvoidImplicitBoxing" true = true →
      s'.isEnabled "AvoidImplicitBoxing" true = true →
      (s.generatedCode = .report ↔ s'.generatedCode = .report) → ∀ listed, ∃ ds ds',
        ((Linter.ofSettings s).analyze h st c listed).result = .ok ds ∧
        ((Linter.ofSettings s').analyze h st c listed).result = .ok ds' ∧
        List.Forall₂ (SameFinding s s') ds ds') ∧
    (s.isEnabled "SPR0004" true = s'.isEnabled "SPR0004" true → ∀ reported,
      ((Linter.ofSettings s).suppress h st c reported).result =
        ((Linter.ofSettings s').suppress h st c reported).result) ∧
    ((s.rules.get? "AvoidImplicitBoxing").bind (·.severity) = some .off ∨
        s.isEnabled "AvoidImplicitBoxing" true = false →
      (∀ listed, ((Linter.ofSettings s).analyze h st c listed).result = .ok []) ∧
      ((∀ id, id ≠ "AvoidImplicitBoxing" → s.rules.get? id = s'.rules.get? id) → ∀ reported,
        ((Linter.ofSettings s).suppress h st c reported).result =
          ((Linter.ofSettings s').suppress h st c reported).result)) := by
  have hsuppress : s.isEnabled "SPR0004" true = s'.isEnabled "SPR0004" true → ∀ reported,
      ((Linter.ofSettings s).suppress h st c reported).result =
        ((Linter.ofSettings s').suppress h st c reported).result := by
    intro he reported
    exact congrArg Report.result (Linter.suppress_congr he h st c reported)
  refine ⟨fun he he' hg listed => ?_, hsuppress, fun hoff => ⟨fun listed => ?_, fun hrest => ?_⟩⟩
  · exact ⟨_, _, Linter.analyze_of_enabled hd he c listed,
      Linter.analyze_of_enabled hd he' c listed,
      Linter.forall₂_sorted_found (he.trans he'.symm) hg c listed⟩
  · have hno : s.isEnabled "AvoidImplicitBoxing" true = false :=
      hoff.elim (fun h => Settings.isEnabled_of_off h true) id
    exact Linter.analyze_of_not_enabled hno
  · exact hsuppress (Settings.isEnabled_congr (hrest "SPR0004" (by decide)) true)

/-! ## Louder and off -/

namespace NestedBoxing

/-- Findings are errors in other words, and nothing is suppressed. -/
def loud : Settings :=
  ⟨.analyze, false, .ofList [("SPR0004", ⟨some false, none, none⟩),
    ("AvoidImplicitBoxing", ⟨none, some (.level .error), some "boxed: {0}"⟩)]⟩

/-- The rule is off by its severity, though it is said to be on. -/
def off : Settings :=
  { Settings.default with
    rules := RuleTable.empty.insert "AvoidImplicitBoxing" ⟨some true, some .off, none⟩ }

/-- A file with a conversion to report, and one with a cast to keep. -/
def mixed : Compilation :=
  ⟨[(FileModel.ofTree (Tree.empty 0 "Test0.cs" .csharp)).addRoot argument,
    ObjectCast.file (some (.reference "System.Object"))]⟩

theorem effective_loud :
    loud.effective Rule.implicitBoxing = ⟨true, .error, "boxed: {0}"⟩ :=
  Settings.effective_insert
    { loud with rules := .ofList [("SPR0004", ⟨some false, none, none⟩)] } Rule.implicitBoxing
    "AvoidImplicitBoxing" ⟨none, some (.level .error), some "boxed: {0}"⟩

/-- Louder settings report the same boxing, with the severity and in the words that they give it,
settings that are off report none, and the cast stays suppressed under these. -/
theorem reach_of_settings_mixed :
    Host.quiet.StaysDown () ∧
      Settings.default.isEnabled "AvoidImplicitBoxing" true = true ∧
      loud.isEnabled "AvoidImplicitBoxing" true = true ∧
      (Settings.default.generatedCode = .report ↔ loud.generatedCode = .report) ∧
      (∃ d d', ((Linter.ofSettings Settings.default).analyze Host.quiet () mixed
          [0, 1]).result = .ok [d] ∧
        ((Linter.ofSettings loud).analyze Host.quiet () mixed [0, 1]).result = .ok [d'] ∧
        SameFinding Settings.default loud d d' ∧ d.severity = .warning ∧
        d.message = "int implicitly boxed to object" ∧ d'.severity = .error ∧
        d'.message = "boxed: int") ∧
      (off.rules.get? "AvoidImplicitBoxing").bind (·.severity) = some .off ∧
      ((Linter.ofSettings off).analyze Host.quiet () mixed [0, 1]).result = .ok [] ∧
      (∀ id, id ≠ "AvoidImplicitBoxing" →
        off.rules.get? id = Settings.default.rules.get? id) ∧
      ((Linter.ofSettings off).suppress Host.quiet () mixed [ObjectCast.redundant 1]).result =
        .ok [⟨Rule.boxingCast, ObjectCast.redundant 1⟩] := by
  have hloud : loud.isEnabled "AvoidImplicitBoxing" true = true := by decide
  have hcode : Settings.default.generatedCode = .report ↔ loud.generatedCode = .report := by decide
  have hoff : (off.rules.get? "AvoidImplicitBoxing").bind (·.severity) = some .off := rfl
  have hrest : ∀ id, id ≠ "AvoidImplicitBoxing" →
      off.rules.get? id = Settings.default.rules.get? id := by
    intro id hid
    exact (RuleTable.get?_insert _ _ _ _).trans (if_neg hid)
  have hone : ∃ d, ((Linter.ofSettings Settings.default).analyze Host.quiet () mixed
      [0, 1]).result = .ok [d] ∧ d.arguments = ["int", "object"] := by
    rw [Linter.analyze_of_staysDown Host.staysDown_quiet]
    exact ⟨_, congrArg Except.ok (List.mergeSort_singleton _), by decide +kernel⟩
  have hkept : ((Linter.ofSettings Settings.default).suppress Host.quiet () mixed
      [ObjectCast.redundant 1]).result = .ok [⟨Rule.boxingCast, ObjectCast.redundant 1⟩] := rfl
  obtain ⟨d, hd, harguments⟩ := hone
  obtain ⟨hsame, -, -⟩ := reach_of_settings Host.staysDown_quiet Settings.default loud mixed
  obtain ⟨-, -, hnone⟩ := reach_of_settings Host.staysDown_quiet off Settings.default mixed
  obtain ⟨hempty, hsuppress⟩ := hnone (.inl hoff)
  obtain ⟨ds, ds', hds, hds', hall⟩ := hsame rfl hloud hcode [0, 1]
  obtain rfl : ds = [d] := Except.ok.inj (hds.symm.trans hd)
  obtain ⟨d', _, hdd', hnil, rfl⟩ := List.forall₂_cons_left_iff.1 hall
  obtain rfl := List.forall₂_nil_left_iff.1 hnil
  have harguments' : d'.arguments = ["int", "object"] := hdd'.arguments_eq.symm.trans harguments
  have hmessage : d.message = "int implicitly boxed to object" := by
    rw [hdd'.worded.message_eq, harguments]
    decide +kernel
  have hsevere : d'.severity = .error := by rw [hdd'.worded'.severity_eq, effective_loud]
  have hmessage' : d'.message = "boxed: int" := by
    rw [hdd'.worded'.message_eq, effective_loud, harguments']
    decide +kernel
  exact ⟨Host.staysDown_quiet, rfl, hloud, hcode,
    ⟨d, d', hd, hds', hdd', hdd'.worded.severity_eq, hmessage, hsevere, hmessage'⟩, hoff, hempty _,
    hrest, (hsuppress hrest _).trans hkept⟩

end NestedBoxing

end BoxLint
