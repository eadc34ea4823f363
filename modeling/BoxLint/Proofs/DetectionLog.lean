import BoxLint.Proofs.ProcessedFiles
import BoxLint.Proofs.SuppressionLog

/-!
# What an analysis logs

An analysis logs a finding where it comes to it, before it is known whether the finding is kept and
where it stands in the report, and it logs each generated file that it does not visit. Set beside the
sites where conversions are met (`MetAt`) and where the compiler boxes (`BoxesAt`), the log of an
analysis that was stopped after `k` looks has the findings at the first `k` conversions and the
skipped files up to there (`LogMatches`, `logMatches_upToLook`).

If nothing stops it, all findings are logged: those that are reported, and those in generated files
that are analyzed without a report (`LogsReport`, `Linter.perm_found_dropped`).
-/

namespace BoxLint

/-- The line of a finding: where it is and what it says. -/
def Diagnostic.line (d : Diagnostic) : LogLine :=
  ⟨.debug, d.message, [("location", d.location.text)]⟩

/-! ## The log and the sites -/

/-- The list has the things with a property, in ascending order. -/
def Enumerates {α : Type} [LT α] (P : α → Prop) (xs : List α) : Prop :=
  xs.Pairwise (· < ·) ∧ ∀ x, x ∈ xs ↔ P x

/-- An analysis meets a conversion at the site: the rule is switched on, and the file is visited. -/
def MetAt (s : Settings) (c : Compilation) (listed : List TreeId) (site : Site) : Prop :=
  (s.effective Rule.implicitBoxing).enabled = true ∧ ∃ m op, c.at? listed site = some (m, op) ∧
    (m.tree.isGenerated = true → s.generatedCode ≠ .skip) ∧ op.isConversion = true

/-- At the site the compiler boxes, and `d` says so, whether or not it is reported. -/
def BoxesAt (s : Settings) (c : Compilation) (listed : List TreeId) (site : Site)
    (d : Diagnostic) : Prop :=
  ∃ m op source target, c.at? listed site = some (m, op) ∧ op.isImplicitBoxing = true ∧
    op.operandType? = some source ∧ op.binding.type = some target ∧
    Describes s m op source target d

/-- The site lies in a file that was generated. -/
def InGeneratedFile (c : Compilation) (listed : List TreeId) (site : Site) : Prop :=
  ∃ m op, c.at? listed site = some (m, op) ∧ m.tree.isGenerated = true

/-- The file `m` in a place of the list is not visited: the rule is switched on and skips generated
files, of which `m` is one. -/
def SkipsAt (s : Settings) (c : Compilation) (listed : List TreeId) (j : Nat) (m : FileModel) :
    Prop :=
  (s.effective Rule.implicitBoxing).enabled = true ∧ s.generatedCode = .skip ∧
    listed[j]?.bind c.model? = some m ∧ m.tree.isGenerated = true

/-- An analysis that is stopped after `k` conversions comes to a place of the list: it meets no more
than `k` conversions in the files before. -/
def Reaches (s : Settings) (c : Compilation) (listed : List TreeId) (k j : Nat) : Prop :=
  ∃ before, Enumerates (MetAt s c (listed.take j)) before ∧ before.length ≤ k

/-- The log of an analysis that was stopped after `k` conversions, with the sites of these. -/
structure LogMatches (s : Settings) (c : Compilation) (listed : List TreeId)
    (processed : List Site) (k : Nat) (log : List Event) : Prop where
  /-- The findings are those at the processed sites, in the order of the sites. -/
  findings : ∃ sites built,
    Enumerates (fun site => site ∈ processed ∧ ∃ d, BoxesAt s c listed site d) sites ∧
    List.Forall₂ (BoxesAt s c listed) sites built ∧
    (log.filter Event.isFinding).map Event.line = built.map Diagnostic.line
  /-- The skipped files are those that were reached, in the order of the list. -/
  skips : ∃ places,
    Enumerates (fun j => Reaches s c listed k j ∧ ∃ m, SkipsAt s c listed j m) places ∧
    List.Forall₂ (fun j line => ∃ m, SkipsAt s c listed j m ∧
      line = ⟨.debug, "skipping generated tree", [("path", m.tree.path)]⟩) places
      ((log.filter Event.isSkip).map Event.line)

section Match

variable {s : Settings} {c : Compilation} {listed : List TreeId}

theorem Enumerates.congr {α : Type} [LT α] {P Q : α → Prop} {xs : List α} (h : Enumerates P xs)
    (hPQ : ∀ x, P x ↔ Q x) : Enumerates Q xs :=
  ⟨h.1, fun x => (h.2 x).trans (hPQ x)⟩

theorem Enumerates.length_eq {P : Site → Prop} {xs ys : List Site} (hx : Enumerates P xs)
    (hy : Enumerates P ys) : xs.length = ys.length :=
  ((List.perm_ext_iff_of_nodup (Site.nodup_of_pairwise_lt hx.1)
    (Site.nodup_of_pairwise_lt hy.1)).2 fun site => (hx.2 site).trans (hy.2 site).symm).length_eq

theorem boxesAt_iff (he : (s.effective Rule.implicitBoxing).enabled = true) {site : Site}
    {d : Diagnostic} :
    BoxesAt s c listed site d ↔ ∃ m op, (site, m, op) ∈ c.located listed ∧
      Detector.finding? (Linter.ofSettings s).rule m op = some d := by
  have hrule : (Linter.ofSettings s).rule = s.effective Rule.implicitBoxing := rfl
  simp only [BoxesAt, Compilation.mem_located, hrule, Detector.finding?_eq_some_iff, he, true_and,
    describes_iff, exists_and_left]

theorem mem_met {site : Site} {m : FileModel} {op : Operation} :
    (site, m, op) ∈ (Linter.ofSettings s).met c listed ↔ c.at? listed site = some (m, op) ∧
      (m.tree.isGenerated = true → s.generatedCode ≠ .skip) ∧ op.isConversion = true := by
  rw [Linter.met, List.mem_filter, Compilation.mem_located, Bool.and_eq_true,
    Linter.visits_ofSettings]

theorem enumerates_met (he : (s.effective Rule.implicitBoxing).enabled = true) :
    Enumerates (MetAt s c listed) (((Linter.ofSettings s).met c listed).map Prod.fst) := by
  refine ⟨List.pairwise_map.2 ((c.pairwise_located listed).filter _), fun site => ?_⟩
  simp only [List.mem_map, Prod.exists, mem_met, MetAt, he, true_and]
  constructor
  · rintro ⟨_, m, op, h, rfl⟩
    exact ⟨m, op, h⟩
  · rintro ⟨m, op, h⟩
    exact ⟨site, m, op, h, rfl⟩

/-- What is found at some of the operations, with the sites where it is found. -/
theorem exists_forall₂_built (he : (s.effective Rule.implicitBoxing).enabled = true)
    {xs : List (Site × FileModel × Operation)} (hxs : xs.Sublist (c.located listed)) :
    ∃ sites,
      Enumerates (fun site => site ∈ xs.map Prod.fst ∧ ∃ d, BoxesAt s c listed site d) sites ∧
      List.Forall₂ (BoxesAt s c listed) sites ((Linter.ofSettings s).built xs) := by
  refine ⟨(xs.filter fun x =>
    (Detector.finding? (Linter.ofSettings s).rule x.2.1 x.2.2).isSome).map Prod.fst,
    ⟨List.pairwise_map.2 (((c.pairwise_located listed).sublist hxs).filter _), fun site => ?_⟩, ?_⟩
  · simp only [List.mem_map, List.mem_filter, Option.isSome_iff_exists, boxesAt_iff he]
    constructor
    · rintro ⟨x, ⟨hx, d, hd⟩, rfl⟩
      exact ⟨⟨x, hx, rfl⟩, d, x.2.1, x.2.2, hxs.subset hx, hd⟩
    · rintro ⟨⟨x, hx, rfl⟩, d, m, op, hmem, hd⟩
      -- one operation stands at a site
      have hsame : x.2 = (m, op) := Option.some.inj
        ((Compilation.mem_located.1 (hxs.subset hx)).symm.trans (Compilation.mem_located.1 hmem))
      exact ⟨x, ⟨hx, d, by rw [hsame, hd]⟩, rfl⟩
  · exact forall₂_filterMap fun x hx d hd =>
      (boxesAt_iff he).2 ⟨x.2.1, x.2.2, hxs.subset hx, hd⟩

theorem reaches_iff (he : (s.effective Rule.implicitBoxing).enabled = true) {k j : Nat} :
    Reaches s c listed k j ↔ ((Linter.ofSettings s).met c (listed.take j)).length ≤ k := by
  have hmet := @enumerates_met s c (listed.take j) he
  constructor
  · rintro ⟨before, hbefore, hle⟩
    rwa [hbefore.length_eq hmet, List.length_map] at hle
  · intro hle
    exact ⟨_, hmet, by rwa [List.length_map]⟩

theorem skip?_eq_some_iff {m : FileModel} {e : Event} :
    (Linter.ofSettings s).skip? m = some e ↔
      s.generatedCode = .skip ∧ m.tree.isGenerated = true ∧ e = .skippedGenerated m.tree.path := by
  have hvisits := @Linter.visits_ofSettings s m.tree.isGenerated
  rw [Linter.skip?]
  split
  · next hv =>
    have hv := hvisits.1 hv
    refine iff_of_false (by simp) ?_
    rintro ⟨hskip, hg, -⟩
    exact hv hg hskip
  · next hv =>
    rw [hvisits] at hv
    push Not at hv
    simp [hv.1, hv.2, eq_comm]

theorem bind_skip?_eq_some_iff (he : (s.effective Rule.implicitBoxing).enabled = true) {j : Nat}
    {e : Event} : (listed[j]?.bind c.model?).bind (Linter.ofSettings s).skip? = some e ↔
      ∃ m, SkipsAt s c listed j m ∧ e = .skippedGenerated m.tree.path := by
  simp only [Option.bind_eq_some_iff (f := (Linter.ofSettings s).skip?), skip?_eq_some_iff, SkipsAt,
    he, true_and]
  constructor
  · rintro ⟨m, hm, hskip, hg, rfl⟩
    exact ⟨m, ⟨hskip, hm, hg⟩, rfl⟩
  · rintro ⟨m, ⟨hskip, hm, hg⟩, rfl⟩
    exact ⟨m, hm, hskip, hg, rfl⟩

/-- What is done of an analysis before look `k` logs what was found at the first `k` conversions
that are met, and the generated files that were reached. -/
theorem logMatches_upToLook (he : (s.effective Rule.implicitBoxing).enabled = true) (k : Nat) :
    LogMatches s c listed ((((Linter.ofSettings s).met c listed).map Prod.fst).take k) k
      (Pass.upToLook k (listed.flatMap ((Linter.ofSettings s).treePass c))).events where
  findings := by
    obtain ⟨sites, hsites, hbuilt⟩ := exists_forall₂_built he
      ((List.take_sublist k ((Linter.ofSettings s).met c listed)).trans List.filter_sublist)
    refine ⟨sites, _, ?_, hbuilt, ?_⟩
    · rwa [List.map_take] at hsites
    · rw [Linter.filter_isFinding_events, List.map_map]
      rfl
  skips := by
    have hlt : ∀ j m, SkipsAt s c listed j m → j < listed.length := by
      rintro j m ⟨-, -, hm, -⟩
      obtain ⟨id, hid, -⟩ := Option.bind_eq_some_iff.1 hm
      exact (List.getElem?_eq_some_iff.1 hid).1
    refine ⟨((((List.range listed.length).filter fun j =>
      ((Linter.ofSettings s).met c (listed.take j)).length ≤ k).filter fun j =>
        ((listed[j]?.bind c.model?).bind (Linter.ofSettings s).skip?).isSome).map id),
      ⟨?_, fun j => ?_⟩, ?_⟩
    · rw [List.map_id]
      exact (List.pairwise_lt_range.filter _).filter _
    · simp only [List.map_id, List.mem_filter, List.mem_range, decide_eq_true_eq,
        Option.isSome_iff_exists, bind_skip?_eq_some_iff he, reaches_iff he]
      constructor
      · rintro ⟨⟨-, hk⟩, _, m, hm, -⟩
        exact ⟨hk, m, hm⟩
      · rintro ⟨hk, m, hm⟩
        exact ⟨⟨hlt j m hm, hk⟩, _, m, hm, rfl⟩
    · rw [Linter.filter_isSkip_events, List.forall₂_map_right_iff]
      refine forall₂_filterMap fun j _ e hj => ?_
      obtain ⟨m, hm, rfl⟩ := (bind_skip?_eq_some_iff he).1 hj
      exact ⟨m, hm, rfl⟩

end Match

/-! ## The log and the report -/

namespace Linter

variable {s : Settings} {c : Compilation} {listed : List TreeId}

theorem built_filter_reports (s : Settings) (c : Compilation) (listed : List TreeId) :
    (ofSettings s).built (((ofSettings s).met c listed).filter fun x =>
      (ofSettings s).registration.reports x.2.1.tree.isGenerated) =
        (ofSettings s).found c listed := by
  rw [built, met, found, List.filter_filter, List.filterMap_filter]
  refine List.filterMap_congr fun x _ => ?_
  by_cases hr : (ofSettings s).registration.reports x.2.1.tree.isGenerated = true
  · by_cases hc : x.2.2.isConversion = true
    · simp [keptFinding?, hr, hc, Registration.visits_of_reports hr]
    · simp [keptFinding?, hr, hc, Detector.finding?_of_not_isConversion (by simpa using hc)]
  · simp [keptFinding?, hr]

/-- The conversions that are met in files whose findings are not kept. -/
def unkept (s : Settings) (c : Compilation) (listed : List TreeId) :
    List (Site × FileModel × Operation) :=
  ((ofSettings s).met c listed).filter fun x =>
    !(ofSettings s).registration.reports x.2.1.tree.isGenerated

/-- All that is found is what is reported and what is not kept. -/
theorem perm_found_dropped (s : Settings) (c : Compilation) (listed : List TreeId) :
    ((ofSettings s).built ((ofSettings s).met c listed)).Perm
      ((ofSettings s).found c listed ++ (ofSettings s).built (unkept s c listed)) := by
  rw [← built_filter_reports, built, built, built, ← List.filterMap_append]
  exact (List.filter_append_perm _ _).symm.filterMap _

theorem mem_unkept {site : Site} {m : FileModel} {op : Operation} :
    (site, m, op) ∈ unkept s c listed ↔ (site, m, op) ∈ (ofSettings s).met c listed ∧
      m.tree.isGenerated = true ∧ s.generatedCode ≠ .report := by
  have hreports := reports_ofSettings s m.tree.isGenerated
  rw [unkept, List.mem_filter, Bool.not_eq_true', Bool.eq_false_iff, ne_eq, hreports]
  push Not
  rfl

theorem unkept_eq_nil (hg : s.generatedCode ≠ .analyze) : unkept s c listed = [] := by
  rw [List.eq_nil_iff_forall_not_mem]
  rintro ⟨site, m, op⟩ hx
  obtain ⟨hmet, hgen, hreport⟩ := mem_unkept.1 hx
  have hskip := (mem_met.1 hmet).2.1 hgen
  cases hmode : s.generatedCode with
  | skip => exact hskip hmode
  | analyze => exact hg hmode
  | report => exact hreport hmode

theorem mem_map_fst_unkept (he : (s.effective Rule.implicitBoxing).enabled = true)
    (hg : s.generatedCode = .analyze) {site : Site} :
    site ∈ (unkept s c listed).map Prod.fst ↔
      MetAt s c listed site ∧ InGeneratedFile c listed site := by
  simp only [List.mem_map, Prod.exists, mem_unkept, mem_met, MetAt, InGeneratedFile, he, true_and]
  constructor
  · rintro ⟨_, m, op, ⟨⟨hat, hvisited, hc⟩, hgen, -⟩, rfl⟩
    exact ⟨⟨m, op, hat, hvisited, hc⟩, m, op, hat, hgen⟩
  · rintro ⟨⟨m, op, hat, hvisited, hc⟩, m', op', hat', hgen⟩
    obtain ⟨rfl, rfl⟩ : m = m' ∧ op = op' := by simpa using hat.symm.trans hat'
    exact ⟨site, m, op, ⟨⟨hat, hvisited, hc⟩, hgen, by simp [hg]⟩, rfl⟩

end Linter

/-- The log of an analysis that nothing stopped has all the findings: those that are reported, and,
where generated files are analyzed without a report, those in generated files. -/
structure LogsReport (s : Settings) (c : Compilation) (listed : List TreeId) (ds : List Diagnostic)
    (log : List Event) : Prop where
  reported : s.generatedCode ≠ .analyze →
    ((log.filter Event.isFinding).map Event.line).Perm (ds.map Diagnostic.line)
  dropped : s.generatedCode = .analyze → ∃ sites dropped,
    Enumerates (fun site => (MetAt s c listed site ∧ InGeneratedFile c listed site) ∧
      ∃ d, BoxesAt s c listed site d) sites ∧
    List.Forall₂ (BoxesAt s c listed) sites dropped ∧
    ((log.filter Event.isFinding).map Event.line).Perm
      (ds.map Diagnostic.line ++ dropped.map Diagnostic.line)

section Analysis

variable {s : Settings} {c : Compilation} {listed : List TreeId}

theorem logsReport_events (he : (s.effective Rule.implicitBoxing).enabled = true) :
    LogsReport s c listed (Diagnostic.sorted ((Linter.ofSettings s).found c listed))
      (Pass.events (listed.flatMap ((Linter.ofSettings s).treePass c))) := by
  have hevents : (Pass.events (listed.flatMap ((Linter.ofSettings s).treePass c))).filter
      Event.isFinding =
        ((Linter.ofSettings s).built ((Linter.ofSettings s).met c listed)).map Diagnostic.event := by
    have hall := Linter.filter_isFinding_events s c listed ((Linter.ofSettings s).met c listed).length
    rwa [Pass.upToLook_of_looks_le (Nat.le_of_eq (Linter.looks_flatMap_treePass _ c listed)),
      List.take_length] at hall
  have hperm : (((Pass.events (listed.flatMap ((Linter.ofSettings s).treePass c))).filter
      Event.isFinding).map Event.line).Perm
        ((Diagnostic.sorted ((Linter.ofSettings s).found c listed)).map Diagnostic.line ++
          ((Linter.ofSettings s).built (Linter.unkept s c listed)).map Diagnostic.line) := by
    rw [hevents, List.map_map, ← List.map_append]
    exact ((Linter.perm_found_dropped s c listed).trans
      ((Diagnostic.sorted_perm _).symm.append_right _)).map Diagnostic.line
  refine ⟨fun hg => ?_, fun hg => ?_⟩
  · rw [Linter.unkept_eq_nil hg] at hperm
    simpa [Linter.built] using hperm
  · obtain ⟨sites, hsites, hbuilt⟩ := @exists_forall₂_built s c listed he (Linter.unkept s c listed)
      (List.filter_sublist.trans List.filter_sublist)
    exact ⟨sites, _, hsites.congr fun site => and_congr_left' (Linter.mem_map_fst_unkept he hg),
      hbuilt, hperm⟩

theorem pass_of_sequential (hs : s.concurrent = false) :
    (Linter.ofSettings s).pass c listed = listed.flatMap ((Linter.ofSettings s).treePass c) := by
  have hconcurrent : (Linter.ofSettings s).registration.concurrent = false := hs
  rw [Linter.pass, hconcurrent]
  rfl

/-- An analysis with the rule switched off meets no conversion and logs nothing. -/
theorem logMatches_of_not_enabled (he : ¬ (s.effective Rule.implicitBoxing).enabled = true) :
    Enumerates (MetAt s c listed) [] ∧ (∀ k, LogMatches s c listed [] k []) ∧
      LogsReport s c listed [] [] := by
  have hnone : ∀ {α : Type} [LT α] {P : α → Prop}, (∀ x, ¬ P x) → Enumerates P [] :=
    fun hP => ⟨.nil, fun x => iff_of_false List.not_mem_nil (hP x)⟩
  have hmet : ∀ site, ¬ MetAt s c listed site := fun _ hsite => he hsite.1
  refine ⟨hnone hmet, fun k => ⟨⟨[], [], hnone (by simp), .nil, rfl⟩, [], hnone ?_, .nil⟩,
    fun _ => .nil, fun _ => ⟨[], [], hnone fun site hsite => hmet site hsite.1.1, .nil, .nil⟩⟩
  rintro j ⟨-, m, hm⟩
  exact he hm.1

theorem logMatches_events (he : (s.effective Rule.implicitBoxing).enabled = true) :
    LogMatches s c listed (((Linter.ofSettings s).met c listed).map Prod.fst)
      (((Linter.ofSettings s).met c listed).map Prod.fst).length
      (Pass.events (listed.flatMap ((Linter.ofSettings s).treePass c))) := by
  have hall := @logMatches_upToLook s c listed he
    (((Linter.ofSettings s).met c listed).map Prod.fst).length
  have hlooks : Pass.looks (listed.flatMap ((Linter.ofSettings s).treePass c)) =
      (((Linter.ofSettings s).met c listed).map Prod.fst).length := by
    rw [Linter.looks_flatMap_treePass, List.length_map]
  rwa [Pass.upToLook_of_looks_le (Nat.le_of_eq hlooks), List.take_length] at hall

variable {σ : Type} {h : Host σ} {st : σ}

theorem analyze_of_sequential (he : (s.effective Rule.implicitBoxing).enabled = true)
    (hs : s.concurrent = false) :
    (Linter.ofSettings s).analyze h st c listed =
      (Pass.run h st (listed.flatMap ((Linter.ofSettings s).treePass c))).report
        Diagnostic.sorted := by
  have hrule : (Linter.ofSettings s).rule.enabled = true := he
  rw [Linter.analyze, if_pos hrule, pass_of_sequential hs]

theorem log_analyze_of_staysDown (he : (s.effective Rule.implicitBoxing).enabled = true)
    (hs : s.concurrent = false) (hd : h.StaysDown st) :
    ((Linter.ofSettings s).analyze h st c listed).log =
      Pass.events (listed.flatMap ((Linter.ofSettings s).treePass c)) := by
  have hfaultless : Pass.Faultless (listed.flatMap ((Linter.ofSettings s).treePass c)) :=
    Pass.Faultless.flatMap fun id _ => Linter.faultless_treePass c id
  rw [analyze_of_sequential he hs, Pass.report_run hd hfaultless]

theorem analyze_of_risesAfter (he : (s.effective Rule.implicitBoxing).enabled = true)
    (hs : s.concurrent = false) {k : Nat}
    (hk : h.RisesAfter st ((Linter.ofSettings s).pass c listed) k) :
    (((Linter.ofSettings s).analyze h st c listed).result = .error .cancelled ↔
        k < (((Linter.ofSettings s).met c listed).map Prod.fst).length) ∧
      LogMatches s c listed ((((Linter.ofSettings s).met c listed).map Prod.fst).take k) k
        ((Linter.ofSettings s).analyze h st c listed).log := by
  have hfaultless : Pass.Faultless (listed.flatMap ((Linter.ofSettings s).treePass c)) :=
    Pass.Faultless.flatMap fun id _ => Linter.faultless_treePass c id
  rw [pass_of_sequential hs] at hk
  obtain ⟨herror, -, hlog⟩ := Pass.run_of_risesAfter hfaultless hk
  rw [analyze_of_sequential he hs, Outcome.report, herror,
    hlog (Linter.unannounced_pass s c listed), Linter.looks_flatMap_treePass, List.length_map]
  refine ⟨?_, logMatches_upToLook he k⟩
  by_cases hle : ((Linter.ofSettings s).met c listed).length ≤ k
  · rw [if_pos hle]
    exact iff_of_false (by simp) (Nat.not_lt.2 hle)
  · rw [if_neg hle]
    exact iff_of_true rfl (Nat.lt_of_not_le hle)

end Analysis

/-- **The log of an analysis matches its findings.** Let the files be analyzed one after the other.
The conversions that are met have their order, by files, roots and paths. An analysis whose host
gives the signal after `k` looks is cancelled exactly if more than `k` conversions are met; it has
then processed the first `k` of them, and logged one line for each finding at these, in their order,
and one for each generated file that it reached and does not visit. Every host that cannot take its
signal back gives it after some number of looks. If the signal stays down, all conversions are
processed: the lines of the findings are those of the report in another order, together with those of
the findings in generated files that are analyzed without a report. -/
theorem analyze_logMatches {s : Settings} (hs : s.concurrent = false) {σ : Type} (h : Host σ)
    (st : σ) (c : Compilation) (listed : List TreeId) :
    ∃ met, Enumerates (MetAt s c listed) met ∧
      (∀ k, h.RisesAfter st ((Linter.ofSettings s).pass c listed) k →
        (((Linter.ofSettings s).analyze h st c listed).result = .error .cancelled ↔
          k < met.length) ∧
        LogMatches s c listed (met.take k) k ((Linter.ofSettings s).analyze h st c listed).log) ∧
      (h.Latches → ∃ k, h.RisesAfter st ((Linter.ofSettings s).pass c listed) k) ∧
      (h.StaysDown st → ∃ ds, ((Linter.ofSettings s).analyze h st c listed).result = .ok ds ∧
        LogMatches s c listed met met.length ((Linter.ofSettings s).analyze h st c listed).log ∧
        LogsReport s c listed ds ((Linter.ofSettings s).analyze h st c listed).log) := by
  by_cases he : (s.effective Rule.implicitBoxing).enabled = true
  · refine ⟨_, enumerates_met he, fun k hk => analyze_of_risesAfter he hs hk,
      fun hl => hl.exists_risesAfter st _, fun hd => ?_⟩
    refine ⟨_, (Linter.analyze_of_staysDown hd c listed).trans (congrArg _ (if_pos he)), ?_⟩
    rw [log_analyze_of_staysDown he hs hd]
    exact ⟨logMatches_events he, logsReport_events he⟩
  · have hanalyze : (Linter.ofSettings s).analyze h st c listed = ⟨.ok [], [], st⟩ := if_neg he
    rw [hanalyze]
    obtain ⟨hmet, hlog, hreport⟩ := @logMatches_of_not_enabled s c listed he
    refine ⟨[], hmet, fun k _ => ⟨by simp, ?_⟩, fun hl => hl.exists_risesAfter st _,
      fun _ => ⟨[], rfl, hlog 0, hreport⟩⟩
    rw [List.take_nil]
    exact hlog k

namespace NestedBoxing

/-- The files are analyzed one after the other, and generated ones without a report. -/
def sequential : Settings := { Settings.default.treating .analyze with concurrent := false }

/-- A signal that goes up while the first finding is named lets that finding be logged, and the next
conversion is no longer processed. Without a signal three findings are logged, of which the two in
the generated file are not reported. -/
theorem analyze_logMatches_designer :
    sequential.concurrent = false ∧ Signal.host.Latches ∧
      Signal.host.RisesAfter ⟨false, 2, 0⟩
        ((Linter.ofSettings sequential).pass withDesigner [0, 1]) 1 ∧
      (∃ met, Enumerates (MetAt sequential withDesigner [0, 1]) met ∧ 1 < met.length ∧
        LogMatches sequential withDesigner [0, 1] (met.take 1) 1
          ((Linter.ofSettings sequential).analyze Signal.host ⟨false, 2, 0⟩ withDesigner
            [0, 1]).log) ∧
      Host.quiet.StaysDown () ∧
      ∃ ds, ((Linter.ofSettings sequential).analyze Host.quiet () withDesigner [0, 1]).result =
          .ok ds ∧
        LogsReport sequential withDesigner [0, 1] ds
          ((Linter.ofSettings sequential).analyze Host.quiet () withDesigner [0, 1]).log ∧
        ds.length = 1 ∧ (((Linter.ofSettings sequential).analyze Host.quiet () withDesigner
          [0, 1]).log.filter Event.isFinding).length = 3 := by
  have hrises : Signal.host.RisesAfter ⟨false, 2, 0⟩
      ((Linter.ofSettings sequential).pass withDesigner [0, 1]) 1 :=
    Host.risesAfter_of_sightings (m := 2) rfl
  obtain ⟨met, hmet, hstopped, -, -⟩ :=
    analyze_logMatches (s := sequential) rfl Signal.host ⟨false, 2, 0⟩ withDesigner [0, 1]
  obtain ⟨hcancelled, hlog⟩ := hstopped 1 hrises
  obtain ⟨_, -, -, -, hwhole⟩ :=
    analyze_logMatches (s := sequential) rfl Host.quiet () withDesigner [0, 1]
  obtain ⟨ds, hds, -, hreport⟩ := hwhole Host.staysDown_quiet
  refine ⟨rfl, Signal.latches_host, hrises, ⟨met, hmet, hcancelled.1 rfl, hlog⟩,
    Host.staysDown_quiet, ds, hds, hreport, ?_, rfl⟩
  rw [Linter.eq_of_analyze_eq_ok hds]
  exact (Diagnostic.sorted_perm _).length_eq

end NestedBoxing

end BoxLint
