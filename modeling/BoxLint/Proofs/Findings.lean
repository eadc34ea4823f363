import BoxLint.Proofs.LocationOrder
import BoxLint.Proofs.Sites
import BoxLint.Proofs.Uninterrupted

/-!
# What an analysis reports

An analysis that nothing stops reports one diagnostic for each site where the compiler boxes
(`FindsAt`), and nothing else. The pass of the linter is faultless, because it hands only
conversions to the detector (`faultless_pass`), and what it delivers is read off the sites
(`deliveries_pass`). Sorting moves the diagnostics into the order of their locations and leaves
those at one location in the order of their sites.
-/

namespace BoxLint

/-! ## The detector -/

namespace Operation

theorem isConversion_of_isBoxing {op : Operation} (h : op.isBoxing = true) :
    op.isConversion = true := by
  cases op with
  | plain k b cs => simp [isBoxing, operandType?, operand?] at h
  | conversion k o b cs => rfl

end Operation

theorem FileModel.displayName_congr {m m' : FileModel} (himports : m.imports = m'.imports)
    (hkeywords : m.keywords = m'.keywords) : m.displayName = m'.displayName := by
  funext t line
  unfold displayName imported
  rw [himports, hkeywords]

namespace Detector

variable {rule : EffectiveRule} {m : FileModel} {op : Operation}

/-- Of its file a finding shows the tree, the imports and the keywords. -/
theorem finding?_congr {m' : FileModel} (htree : m.tree = m'.tree)
    (himports : m.imports = m'.imports) (hkeywords : m.keywords = m'.keywords) :
    finding? rule m op = finding? rule m' op := by
  simp only [finding?, diagnostic, htree, FileModel.displayName_congr himports hkeywords]

theorem finding?_eq_some_iff {d : Diagnostic} :
    finding? rule m op = some d ↔ rule.enabled = true ∧ op.isImplicitBoxing = true ∧
      ∃ source target, op.operandType? = some source ∧ op.binding.type = some target ∧
        d = diagnostic rule m op source target := by
  unfold finding?
  by_cases hr : rule.enabled = true <;> by_cases hb : op.isImplicitBoxing = true
  · rw [if_pos (by rw [hr, hb]; rfl)]
    cases op.operandType? <;> cases op.binding.type <;> simp [hr, hb, eq_comm]
  all_goals simp [hr, hb]

theorem finding?_of_not_isConversion (h : op.isConversion = false) : finding? rule m op = none := by
  by_contra hne
  obtain ⟨d, hd⟩ := Option.ne_none_iff_exists'.1 hne
  obtain ⟨-, hb, -⟩ := finding?_eq_some_iff.1 hd
  have hc := Operation.isConversion_of_isBoxing (Bool.and_eq_true_iff.1 hb).2
  rw [h] at hc
  exact Bool.noConfusion hc

theorem actions_of_isConversion (kept : Bool) (h : op.isConversion = true) :
    actions rule kept m op = match finding? rule m op with
      | none => []
      | some d => [.ask .name, .ask .name, .log (.found d.location d.message)] ++
          if kept then [.deliver d] else [] := by
  rw [actions, inspect, if_pos h]
  cases finding? rule m op <;> rfl

theorem faultless_actions (kept : Bool) (h : op.isConversion = true) :
    (actions rule kept m op).Faultless := by
  intro e he
  rw [actions_of_isConversion kept h] at he
  cases hf : finding? rule m op with
  | none => simp [hf] at he
  | some d => cases kept <;> simp [hf] at he

theorem deliveries_actions (kept : Bool) (h : op.isConversion = true) :
    (actions rule kept m op).deliveries = if kept then (finding? rule m op).toList else [] := by
  rw [actions_of_isConversion kept h]
  cases finding? rule m op <;> cases kept <;> rfl

end Detector

/-! ## The pass of the linter -/

namespace Registration

theorem visits_of_reports {r : Registration} {g : Bool} (h : r.reports g = true) :
    r.visits g = true := by
  cases g
  · rfl
  · exact (Bool.and_eq_true_iff.1 h).1

end Registration

namespace Linter

variable (s : Settings)

theorem wants_ofSettings (d : Dialect) : (ofSettings s).registration.wants d = true := by
  cases d <;> rfl

theorem reports_ofSettings (g : Bool) :
    (ofSettings s).registration.reports g = true ↔ (g = true → s.generatedCode = .report) := by
  cases g
  · simp [Registration.reports]
  · cases hs : s.generatedCode <;> simp [ofSettings, Registration.reports, hs, GeneratedCode.flags]

/-- What is kept of what the rule finds at an operation of a file. -/
def keptFinding? (l : Linter) (m : FileModel) (op : Operation) : Option Diagnostic :=
  if l.registration.reports m.tree.isGenerated then Detector.finding? l.rule m op else none

/-- What is found in the listed files, site by site. -/
def found (l : Linter) (c : Compilation) (listed : List TreeId) : List Diagnostic :=
  (c.located listed).filterMap fun x => l.keptFinding? x.2.1 x.2.2

theorem filePass_of_visits {l : Linter} {m : FileModel}
    (hv : l.registration.visits m.tree.isGenerated = true) :
    l.filePass m = m.conversions.flatMap
      (l.conversionActions (l.registration.reports m.tree.isGenerated) m) :=
  if_pos hv

theorem filePass_of_not_visits {l : Linter} {m : FileModel}
    (hv : ¬ l.registration.visits m.tree.isGenerated = true) :
    l.filePass m = [.log (.skippedGenerated m.tree.path)] :=
  if_neg hv

variable {s}

theorem faultless_filePass (m : FileModel) : ((ofSettings s).filePass m).Faultless := by
  by_cases hv : (ofSettings s).registration.visits m.tree.isGenerated = true
  · rw [filePass_of_visits hv]
    refine Pass.Faultless.flatMap fun op hop => ?_
    rw [conversionActions, if_pos (wants_ofSettings s _), Pass.faultless_cons]
    exact ⟨by simp, Detector.faultless_actions _ (List.mem_filter.1 hop).2⟩
  · rw [filePass_of_not_visits hv]
    simp [Pass.Faultless]

theorem faultless_treePass (c : Compilation) (id : TreeId) :
    ((ofSettings s).treePass c id).Faultless := by
  rw [treePass, Pass.faultless_cons]
  refine ⟨by simp, ?_⟩
  cases c.model? id with
  | none => exact Pass.faultless_nil
  | some m => exact faultless_filePass m

theorem faultless_pass (c : Compilation) (listed : List TreeId) :
    ((ofSettings s).pass c listed).Faultless := by
  have h : Pass.Faultless (listed.flatMap ((ofSettings s).treePass c)) :=
    Pass.Faultless.flatMap fun id _ => faultless_treePass c id
  unfold pass
  split
  · exact h.silent
  · exact h

theorem deliveries_filePass (m : FileModel) :
    ((ofSettings s).filePass m).deliveries =
      m.operations.filterMap ((ofSettings s).keptFinding? m) := by
  have hconv : ∀ op ∈ m.conversions,
      ((ofSettings s).conversionActions ((ofSettings s).registration.reports m.tree.isGenerated) m
        op).deliveries = ((ofSettings s).keptFinding? m op).toList := by
    intro op hop
    rw [conversionActions, if_pos (wants_ofSettings s _), Pass.deliveries_cons,
      Detector.deliveries_actions _ (List.mem_filter.1 hop).2, keptFinding?]
    split <;> rfl
  -- operations that are no conversions give nothing, so all of them may be gone through
  have hops : m.conversions.filterMap ((ofSettings s).keptFinding? m) =
      m.operations.filterMap ((ofSettings s).keptFinding? m) := by
    rw [FileModel.conversions, List.filterMap_filter]
    congr 1
    funext op
    by_cases hop : op.isConversion = true
    · rw [if_pos hop]
    · rw [if_neg hop, keptFinding?, Detector.finding?_of_not_isConversion (by simpa using hop),
        ite_self]
  by_cases hv : (ofSettings s).registration.visits m.tree.isGenerated = true
  · rw [filePass_of_visits hv, Pass.deliveries_flatMap, List.flatMap_congr hconv, ← hops,
      List.filterMap_eq_flatMap_toList]
  · have hr : ¬ (ofSettings s).registration.reports m.tree.isGenerated = true :=
      fun h => hv (Registration.visits_of_reports h)
    have hnone : ∀ op, (ofSettings s).keptFinding? m op = none := fun op => if_neg hr
    rw [filePass_of_not_visits hv]
    simp [Pass.deliveries, Action.delivered?, hnone]

theorem deliveries_treePass (c : Compilation) (id : TreeId) :
    ((ofSettings s).treePass c id).deliveries = (c.model? id).toList.flatMap fun m =>
      m.operations.filterMap ((ofSettings s).keptFinding? m) := by
  rw [treePass, Pass.deliveries_cons]
  cases c.model? id with
  | none => rfl
  | some m => simp [Action.delivered?, deliveries_filePass]

theorem flatMap_deliveries_treePass (c : Compilation) (listed : List TreeId) :
    (listed.flatMap fun id => ((ofSettings s).treePass c id).deliveries) =
      (ofSettings s).found c listed := by
  have hfound : (ofSettings s).found c listed =
      ((c.located listed).map Prod.snd).filterMap
        fun x => (ofSettings s).keptFinding? x.1 x.2 := by
    rw [found, List.filterMap_map]
    rfl
  rw [hfound, Compilation.map_snd_located, List.filterMap_flatMap]
  refine List.flatMap_congr fun id _ => ?_
  rw [deliveries_treePass, List.filterMap_flatMap]
  refine List.flatMap_congr fun m _ => ?_
  rw [List.filterMap_map]
  rfl

/-- What is found in one file. -/
def foundIn (l : Linter) (m : FileModel) : List Diagnostic :=
  m.operations.filterMap (l.keptFinding? m)

theorem found_eq_flatMap (c : Compilation) (listed : List TreeId) :
    (ofSettings s).found c listed =
      listed.flatMap fun id => (c.model? id).toList.flatMap (ofSettings s).foundIn := by
  rw [← flatMap_deliveries_treePass]
  exact List.flatMap_congr fun id _ => deliveries_treePass c id

theorem deliveries_pass (c : Compilation) (listed : List TreeId) :
    ((ofSettings s).pass c listed).deliveries = (ofSettings s).found c listed := by
  rw [← flatMap_deliveries_treePass, ← Pass.deliveries_flatMap, pass]
  split
  · exact Pass.deliveries_silent _
  · rfl

/-- What an analysis gives that nothing stops. -/
theorem analyze_of_staysDown {σ : Type} {h : Host σ} {st : σ} (hd : h.StaysDown st)
    (c : Compilation) (listed : List TreeId) :
    ((ofSettings s).analyze h st c listed).result =
      .ok (if (ofSettings s).rule.enabled then Diagnostic.sorted ((ofSettings s).found c listed)
        else []) := by
  unfold analyze
  split
  · rw [Pass.report_run hd (faultless_pass c listed), deliveries_pass]
  · rfl

/-- What an analysis gives that succeeds, under any host. -/
theorem eq_of_analyze_eq_ok {σ : Type} {h : Host σ} {st : σ} {c : Compilation}
    {listed : List TreeId} {ds : List Diagnostic}
    (hok : ((ofSettings s).analyze h st c listed).result = .ok ds) :
    ds = if (ofSettings s).rule.enabled then Diagnostic.sorted ((ofSettings s).found c listed)
      else [] := by
  unfold analyze at hok
  split at hok
  · next he =>
    rw [Outcome.report] at hok
    cases herr : (((ofSettings s).pass c listed).run h st).error with
    | some e => simp [herr] at hok
    | none =>
      rw [if_pos he, ← deliveries_pass, ← Pass.delivered_run herr]
      simpa [herr] using hok.symm
  · next he =>
    rw [if_neg he]
    exact (Except.ok.inj hok).symm

end Linter

/-! ## The report -/

/-- What a diagnostic says of an operation that converts one type to another. -/
structure Describes (s : Settings) (m : FileModel) (op : Operation) (source target : TypeInfo)
    (d : Diagnostic) : Prop where
  id_eq : d.id = "AvoidImplicitBoxing"
  severity_eq : d.severity = (s.effective Rule.implicitBoxing).severity
  location_eq : d.location = .inTree m.tree.id op.binding.span
  arguments_eq : d.arguments = [m.displayName source op.binding.span.start.line,
    m.displayName target op.binding.span.start.line]
  message_eq : d.message =
    Message.format (s.effective Rule.implicitBoxing).messageFormat d.arguments

/-- At the site the compiler boxes, in a file whose findings are kept, and `d` says so. -/
def FindsAt (s : Settings) (c : Compilation) (listed : List TreeId) (site : Site)
    (d : Diagnostic) : Prop :=
  ∃ m op source target, c.at? listed site = some (m, op) ∧
    (m.tree.isGenerated = true → s.generatedCode = .report) ∧ op.isImplicitBoxing = true ∧
    op.operandType? = some source ∧ op.binding.type = some target ∧
    Describes s m op source target d

/-- The diagnostics are in the order of their locations, and they are what is found at the sites:
one at each site where something is found. Those at one location are in the order of the sites. -/
structure ReportsSites (s : Settings) (c : Compilation) (listed : List TreeId)
    (ds : List Diagnostic) : Prop where
  ordered : ds.Pairwise fun a b => a.location.key ≤ b.location.key
  once : ∃ (sites : List Site) (found : List Diagnostic),
    sites.Nodup ∧ sites.Pairwise (· < ·) ∧
    (∀ site, site ∈ sites ↔ ∃ d, FindsAt s c listed site d) ∧
    List.Forall₂ (FindsAt s c listed) sites found ∧
    ds.Perm found ∧ ∀ l, ds.filter (·.location = l) = found.filter (·.location = l)

section Report

variable {s : Settings} {c : Compilation} {listed : List TreeId}

theorem describes_iff {m : FileModel} {op : Operation} {source target : TypeInfo}
    {d : Diagnostic} :
    Describes s m op source target d ↔
      d = Detector.diagnostic (s.effective Rule.implicitBoxing) m op source target := by
  constructor
  · rintro ⟨hid, hsev, hloc, harg, hmsg⟩
    rw [harg] at hmsg
    cases d
    simp_all [Detector.diagnostic, Diagnostic.ofTemplate, Rule.implicitBoxing]
  · rintro rfl
    exact ⟨rfl, rfl, rfl, rfl, rfl⟩

theorem findsAt_iff (he : (s.effective Rule.implicitBoxing).enabled = true) {site : Site}
    {d : Diagnostic} :
    FindsAt s c listed site d ↔ ∃ m op, (site, m, op) ∈ c.located listed ∧
      (Linter.ofSettings s).keptFinding? m op = some d := by
  have hkept : ∀ m op, (Linter.ofSettings s).keptFinding? m op = some d ↔
      (m.tree.isGenerated = true → s.generatedCode = .report) ∧ op.isImplicitBoxing = true ∧
        ∃ source target, op.operandType? = some source ∧ op.binding.type = some target ∧
          Describes s m op source target d := by
    intro m op
    simp only [describes_iff]
    rw [← Linter.reports_ofSettings, Linter.keptFinding?, Option.ite_none_right_eq_some,
      Detector.finding?_eq_some_iff]
    exact and_congr_right fun _ => and_iff_right he
  simp only [FindsAt, Compilation.mem_located, hkept, exists_and_left]

theorem forall₂_filterMap {α β γ : Type} {xs : List α} {f : α → Option β} {g : α → γ}
    {r : γ → β → Prop} (h : ∀ x ∈ xs, ∀ b, f x = some b → r (g x) b) :
    List.Forall₂ r ((xs.filter fun x => (f x).isSome).map g) (xs.filterMap f) := by
  induction xs with
  | nil => exact .nil
  | cons x xs ih =>
    have ih := ih fun y hy => h y (List.mem_cons_of_mem x hy)
    cases hx : f x with
    | none =>
      rw [List.filter_cons_of_neg (by simp [hx]), List.filterMap_cons_none hx]
      exact ih
    | some b =>
      rw [List.filter_cons_of_pos (by simp [hx]), List.filterMap_cons_some hx, List.map_cons]
      exact .cons (h x List.mem_cons_self b hx) ih

/-- What is found, site by site, with the sites where it is found. -/
theorem forall₂_found (he : (s.effective Rule.implicitBoxing).enabled = true) :
    ∃ sites : List Site, sites.Pairwise (· < ·) ∧
      (∀ site, site ∈ sites ↔ ∃ d, FindsAt s c listed site d) ∧
      List.Forall₂ (FindsAt s c listed) sites ((Linter.ofSettings s).found c listed) := by
  refine ⟨((c.located listed).filter fun x =>
    ((Linter.ofSettings s).keptFinding? x.2.1 x.2.2).isSome).map Prod.fst, ?_, fun site => ?_, ?_⟩
  · exact List.pairwise_map.2 ((c.pairwise_located listed).filter _)
  · simp only [findsAt_iff he, List.mem_map, List.mem_filter, Prod.exists,
      Option.isSome_iff_exists]
    constructor
    · rintro ⟨_, m, op, ⟨hx, d, hd⟩, rfl⟩
      exact ⟨d, m, op, hx, hd⟩
    · rintro ⟨d, m, op, hx, hd⟩
      exact ⟨site, m, op, ⟨hx, d, hd⟩, rfl⟩
  · exact forall₂_filterMap fun x hx d hd => (findsAt_iff he).2 ⟨x.2.1, x.2.2, hx, hd⟩

end Report

/-- **An analysis reports each implicit boxing once.** Whatever the settings and the files, if the
signal stays down it succeeds; a rule that is switched off reports nothing, and otherwise the
diagnostics are those of the sites where the compiler boxes. The files are taken as the host lists
them, for instance by `c.treeIds`. -/
theorem analyze_reportsSites {σ : Type} {h : Host σ} {st : σ} (hd : h.StaysDown st)
    (s : Settings) (c : Compilation) (listed : List TreeId) :
    ∃ ds, ((Linter.ofSettings s).analyze h st c listed).result = .ok ds ∧
      ((s.effective Rule.implicitBoxing).enabled = false → ds = []) ∧
      ((s.effective Rule.implicitBoxing).enabled = true → ReportsSites s c listed ds) := by
  refine ⟨_, Linter.analyze_of_staysDown hd c listed, fun he => ?_, fun he => ?_⟩
  · exact if_neg (by rw [Linter.ofSettings, he]; exact Bool.false_ne_true)
  · rw [if_pos (show (Linter.ofSettings s).rule.enabled = true from he)]
    obtain ⟨sites, hlt, hsites, hfound⟩ := @forall₂_found s c listed he
    exact ⟨Diagnostic.pairwise_sorted _, sites, _, Site.nodup_of_pairwise_lt hlt, hlt, hsites,
      hfound, Diagnostic.sorted_perm _, Diagnostic.filter_sorted _⟩

/-! ## A conversion within a conversion -/

namespace NestedBoxing

/-- The `1` of `object o = f(1)`, boxed to be an argument. -/
def argument : Operation :=
  .conversion (some .boxing)
    (.plain .literal ⟨some (.value "System.Int32"), 2, Span.ofLength 6 24 1, .csharp, false⟩ [])
    ⟨some (.reference "System.Object"), 2, Span.ofLength 6 24 1, .csharp, true⟩ []

/-- The call in `object o = f(1)`, whose result is boxed as well. -/
def call : Operation :=
  .conversion (some .boxing)
    (.plain .invocation ⟨some (.value "System.Int32"), 1, Span.ofLength 6 22 4, .csharp, false⟩
      [argument])
    ⟨some (.reference "System.Object"), 1, Span.ofLength 6 22 4, .csharp, true⟩ []

/-- A file with the two conversions. -/
def file : FileModel := (FileModel.ofTree (Tree.empty 7 "Test0.cs" .csharp)).addRoot call

/-- Two files whose trees carry the same number. -/
def twice : Compilation := ⟨[file, file]⟩

/-- With the inner conversion of the second file among the sites, the report is as stated. -/
theorem analyze_reportsSites_twice :
    Signal.host.StaysDown (Signal.steady false) ∧
      (Settings.default.effective Rule.implicitBoxing).enabled = true ∧
      (∃ d, FindsAt Settings.default twice [0, 1] ⟨1, 0, [.operand, .child 0]⟩ d) ∧
      ∃ ds, ((Linter.ofSettings Settings.default).analyze Signal.host (Signal.steady false) twice
          [0, 1]).result = .ok ds ∧ ReportsSites Settings.default twice [0, 1] ds := by
  refine ⟨Signal.staysDown_steady, rfl, ?_, ?_⟩
  · exact ⟨_, file, argument, _, _, rfl, by decide, rfl, rfl, rfl, describes_iff.2 rfl⟩
  · obtain ⟨ds, hds, -, hsites⟩ :=
      analyze_reportsSites Signal.staysDown_steady Settings.default twice [0, 1]
    exact ⟨ds, hds, hsites rfl⟩

end NestedBoxing

end BoxLint
