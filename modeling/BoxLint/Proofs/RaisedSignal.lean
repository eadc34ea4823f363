import BoxLint.Proofs.GeneratedFiles
import BoxLint.Proofs.Interruption
import BoxLint.Proofs.NodeBinding

/-!
# A signal that is up from the start

Under a signal that is up from the start a pass is cancelled exactly if it looks at the signal at
all (`Pass.run_of_staysUp`). The linter delivers nothing before its first look, so a pass that does
not look gives nothing. An analysis looks once for each conversion in the files it visits
(`Linter.looks_treePass_ne_zero_iff`), the suppressor once for each candidate. It makes no
difference whether the files are analyzed one after the other or at the same time: a worker goes no
further than its first look either (`Worker.Waits`).
-/

namespace BoxLint

/-! ## Up to the first look -/

namespace Pass

variable {σ α β : Type} {h : Host σ} {s : σ} {p : Pass α}

theorem upToLook_of_looks_le {k : Nat} (hk : looks p ≤ k) : upToLook k p = p := by
  have happend := upToLook_append p [] k
  rw [List.append_nil, if_neg (Nat.not_lt.2 hk)] at happend
  rw [happend, upToLook, List.append_nil]

theorem deliveries_append (p q : Pass α) : deliveries (p ++ q) = deliveries p ++ deliveries q :=
  List.filterMap_append

theorem looks_flatMap_eq_zero_iff {f : β → Pass α} {xs : List β} :
    looks (xs.flatMap f) = 0 ↔ ∀ x ∈ xs, looks (f x) = 0 := by
  simp only [looks, List.countP_eq_zero, List.mem_flatMap]
  constructor
  · exact fun h x hx a ha => h a ⟨x, hx, ha⟩
  · rintro h a ⟨x, hx, ha⟩
    exact h x hx a ha

/-- Nothing is delivered before the first look. -/
def LooksFirst (p : Pass α) : Prop := (upToLook 0 p).deliveries = []

theorem LooksFirst.deliveries_eq_nil (hp : p.LooksFirst) (hlooks : looks p = 0) :
    p.deliveries = [] := by
  rwa [LooksFirst, upToLook_of_looks_le (Nat.le_of_eq hlooks)] at hp

theorem LooksFirst.flatMap {f : β → Pass α} {xs : List β} (hf : ∀ x ∈ xs, (f x).LooksFirst) :
    LooksFirst (xs.flatMap f) := by
  induction xs with
  | nil => rfl
  | cons x xs ih =>
    obtain ⟨hx, hxs⟩ := List.forall_mem_cons.1 hf
    rw [List.flatMap_cons, LooksFirst, upToLook_append]
    split
    · exact hx
    · next hlooks =>
      have hzero : looks (f x) = 0 := Nat.eq_zero_of_not_pos hlooks
      rw [hzero, deliveries_append]
      exact List.append_eq_nil_iff.2 ⟨hx.deliveries_eq_nil hzero, ih hxs⟩

theorem run_of_staysUp (hp : p.Faultless) (hu : h.StaysUp s) :
    (run h s p).error = (if looks p = 0 then none else some .cancelled) ∧
      (run h s p).delivered = (upToLook 0 p).deliveries := by
  obtain ⟨herror, hdelivered, -⟩ := run_of_risesAfter hp (hu.risesAfter p)
  simp only [Nat.le_zero] at herror
  exact ⟨herror, hdelivered⟩

theorem staysUp_run (hu : h.StaysUp s) (p : Pass α) : h.StaysUp (run h s p).state := by
  induction p generalizing s with
  | nil => exact hu
  | cons a p ih =>
    cases a with
    | look n =>
      rw [run]
      split
      · exact hu.turn .look
      · exact ih (hu.turn .look)
    | ask o => exact ih (hu.turn o)
    | log e => exact ih hu
    | deliver a => exact ih hu
    | fail e => exact hu

end Pass

/-! ## Workers under a raised signal -/

namespace Worker

variable {α : Type}

/-- A worker on a faultless pass goes no further than the first look, and is cancelled there. -/
def Waits (p : Pass α) (w : Worker α) : Prop :=
  p.Faultless ∧
    ((w.error = none ∧ ∃ done, p = done ++ w.rest ∧ Pass.looks done = 0 ∧
        w.delivered = Pass.deliveries done) ∨
      (w.error = some .cancelled ∧ w.rest = [] ∧ p.looks ≠ 0))

theorem waits_start {p : Pass α} (hp : p.Faultless) : Waits p (start p) :=
  ⟨hp, Or.inl ⟨rfl, [], rfl, rfl, rfl⟩⟩

/-- The worker has done an action that is no look. -/
theorem waits_of_done {p done rest : Pass α} {a : Action α} {ds : List α}
    {e : Option Failure} (hp : p.Faultless) (he : e = none) (heq : p = done ++ a :: rest)
    (hdone : Pass.looks done = 0) (ha : a.isLook = false)
    (hds : ds = Pass.deliveries done ++ a.delivered?.toList) : Waits p ⟨rest, ds, e⟩ := by
  refine ⟨hp, Or.inl ⟨he, done ++ [a], by rw [heq, List.append_assoc]; rfl, ?_, ?_⟩⟩
  · rw [Pass.looks_append, hdone, Pass.looks_cons, ha]
    rfl
  · rw [Pass.deliveries_append, Pass.deliveries_cons]
    simpa [Pass.deliveries] using hds

theorem Waits.step {p : Pass α} {w : Worker α} (hw : Waits p w) : Waits p (w.step true) := by
  obtain ⟨rest, ds, e⟩ := w
  obtain ⟨hp, ⟨he, done, heq, hdone, hds⟩ | ⟨he, hrest, hlooks⟩⟩ := hw
  · obtain rfl : ds = Pass.deliveries done := hds
    cases rest with
    | nil => exact ⟨hp, Or.inl ⟨he, done, heq, hdone, rfl⟩⟩
    | cons a rest =>
      cases a with
      | look n =>
        refine ⟨hp, Or.inr ⟨rfl, rfl, ?_⟩⟩
        rw [heq, Pass.looks_append, Pass.looks_cons]
        simp [Action.isLook]
      | ask o => exact waits_of_done hp he heq hdone rfl (List.append_nil _).symm
      | log ev => exact waits_of_done hp he heq hdone rfl (List.append_nil _).symm
      | deliver a => exact waits_of_done hp he heq hdone rfl rfl
      | fail err => exact absurd (by rw [heq]; simp) (hp err)
  · obtain rfl : rest = [] := hrest
    exact ⟨hp, Or.inr ⟨he, rfl, hlooks⟩⟩

end Worker

namespace Crew

variable {α : Type}

/-- The signal is up, and every worker goes no further than its first look. -/
def Waits (ps : List (Pass α)) (c : Crew α) : Prop :=
  c.up = true ∧ List.Forall₂ Worker.Waits ps c.workers

theorem waits_step {ps : List (Pass α)} {c : Crew α} (hc : Waits ps c) (move : Move) :
    Waits ps (c.step move) := by
  obtain ⟨hup, hworkers⟩ := hc
  cases move with
  | signal => exact ⟨rfl, hworkers⟩
  | work i =>
    refine ⟨hup, ?_⟩
    rw [step, hup]
    exact forall₂_modify (fun _ _ hw => hw.step) hworkers i

theorem waits_run {ps : List (Pass α)} {c : Crew α} (hc : Waits ps c) (moves : List Move) :
    Waits ps (c.run moves) := by
  induction moves generalizing c with
  | nil => exact hc
  | cons move moves ih => exact ih (waits_step hc move)

theorem waits_signal_start {ps : List (Pass α)} (hps : ∀ p ∈ ps, p.Faultless) :
    Waits ps ((start ps).step .signal) := by
  refine ⟨rfl, ?_⟩
  rw [start, step, List.forall₂_map_right_iff, List.forall₂_same]
  exact fun p hp => Worker.waits_start (hps p hp)

theorem exists_looks_of_failed {ps : List (Pass α)} {ws : List (Worker α)}
    (h : List.Forall₂ Worker.Waits ps ws) {w : Worker α} (hw : w ∈ ws) {e : Failure}
    (he : w.error = some e) : e = .cancelled ∧ ∃ p ∈ ps, Pass.looks p ≠ 0 := by
  induction h with
  | nil => exact absurd hw List.not_mem_nil
  | @cons p _ _ _ hp _ ih =>
    rcases List.mem_cons.1 hw with rfl | hw
    · obtain ⟨-, ⟨hnone, -⟩ | ⟨hcancelled, -, hlooks⟩⟩ := hp
      · exact absurd (hnone.symm.trans he) (by simp)
      · exact ⟨Option.some.inj (he.symm.trans hcancelled), p, List.mem_cons_self, hlooks⟩
    · obtain ⟨rfl, q, hq, hlooks⟩ := ih hw
      exact ⟨rfl, q, List.mem_cons_of_mem p hq, hlooks⟩

theorem looks_eq_zero_of_finished {ps : List (Pass α)} {ws : List (Worker α)}
    (h : List.Forall₂ Worker.Waits ps ws) (hws : ∀ w ∈ ws, w.error = none ∧ w.rest = []) :
    (∀ p ∈ ps, Pass.looks p = 0) ∧ ws.flatMap (·.delivered) = ps.flatMap Pass.deliveries := by
  induction h with
  | nil => exact ⟨by simp, rfl⟩
  | @cons p w ps ws hp _ ih =>
    obtain ⟨⟨hnone, hrest⟩, hws⟩ := List.forall_mem_cons.1 hws
    obtain ⟨hlooks, hdelivered⟩ := ih hws
    obtain ⟨-, ⟨-, done, heq, hdone, hds⟩ | ⟨hcancelled, -⟩⟩ := hp
    · obtain rfl : p = done := by rw [heq, hrest, List.append_nil]
      rw [List.forall_mem_cons, List.flatMap_cons, List.flatMap_cons, hdelivered, hds]
      exact ⟨⟨hdone, hlooks⟩, rfl⟩
    · exact absurd (hnone.symm.trans hcancelled) (by simp)

/-- A crew whose workers wait is cancelled, and one of its passes looks, or it ends with everything,
and none of them looks. -/
theorem Ends.of_waits {ps : List (Pass α)} {c : Crew α} {r : Except Failure (List α)}
    (hr : c.Ends r) (hc : Waits ps c) :
    (r = .error .cancelled ∧ ∃ p ∈ ps, Pass.looks p ≠ 0) ∨
      (r = .ok (ps.flatMap Pass.deliveries) ∧ ∀ p ∈ ps, Pass.looks p = 0) := by
  cases hr with
  | failed hw he =>
    obtain ⟨rfl, hlooks⟩ := exists_looks_of_failed hc.2 hw he
    exact Or.inl ⟨rfl, hlooks⟩
  | finished hws =>
    obtain ⟨hlooks, hdelivered⟩ := looks_eq_zero_of_finished hc.2 hws
    exact Or.inr ⟨congrArg _ hdelivered, hlooks⟩

end Crew

/-! ## The linter -/

/-- An analysis meets a conversion: a listed file that exists and is visited has one, at some
place. -/
def MeetsConversion (s : Settings) (c : Compilation) (listed : List TreeId) : Prop :=
  ∃ id ∈ listed, ∃ m, c.model? id = some m ∧
    (m.tree.isGenerated = true → s.generatedCode ≠ .skip) ∧
    ∃ a op, m.atPlace? a = some op ∧ op.isConversion = true

/-- The result of something that is cancelled exactly if `P`, and gives nothing otherwise. -/
structure CancelledIff {α : Type} (P : Prop) (nothing : α) (r : Except Failure α) :
    Prop where
  cancelled_iff : r = .error .cancelled ↔ P
  otherwise : ¬ P → r = .ok nothing

namespace CancelledIff

variable {α : Type} {P : Prop} {nothing : α} {r r' : Except Failure α}

theorem of_cases (hcancelled : P → r = .error .cancelled) (hnothing : ¬ P → r = .ok nothing) :
    CancelledIff P nothing r := by
  refine ⟨⟨fun hr => ?_, hcancelled⟩, hnothing⟩
  by_contra hP
  exact absurd (hr.symm.trans (hnothing hP)) (by simp)

theorem unique (hr : CancelledIff P nothing r) (hr' : CancelledIff P nothing r') : r = r' := by
  by_cases hP : P
  · rw [hr.cancelled_iff.2 hP, hr'.cancelled_iff.2 hP]
  · rw [hr.otherwise hP, hr'.otherwise hP]

end CancelledIff

theorem Detector.looks_actions (rule : EffectiveRule) (kept : Bool) (m : FileModel)
    (op : Operation) : Pass.looks (actions rule kept m op) = 0 := by
  unfold actions
  match inspect rule m op, kept with
  | .error e, _ => rfl
  | .ok none, _ => rfl
  | .ok (some d), true => rfl
  | .ok (some d), false => rfl

namespace Linter

variable {s : Settings} {c : Compilation} {listed : List TreeId}

theorem visits_ofSettings (g : Bool) :
    (ofSettings s).registration.visits g = true ↔ (g = true → s.generatedCode ≠ .skip) := by
  cases g
  · simp [Registration.visits]
  · cases hs : s.generatedCode <;> simp [ofSettings, Registration.visits, hs, GeneratedCode.flags]

theorem isRound_conversionActions (l : Linter) (kept : Bool) (m : FileModel) (op : Operation) :
    (l.conversionActions kept m op).IsRound := by
  refine ⟨_, _, rfl, ?_⟩
  split
  · exact Detector.looks_actions l.rule kept m op
  · rfl

theorem looks_filePass (l : Linter) (m : FileModel) :
    (l.filePass m).looks =
      if l.registration.visits m.tree.isGenerated then m.conversions.length else 0 := by
  split
  · next hv => rw [filePass_of_visits hv, Pass.looks_rounds (isRound_conversionActions l _ m)]
  · next hv =>
    rw [filePass_of_not_visits hv]
    rfl

theorem looksFirst_treePass (l : Linter) (c : Compilation) (id : TreeId) :
    (l.treePass c id).LooksFirst := by
  have hfile : ∀ m, (l.filePass m).LooksFirst := by
    intro m
    by_cases hv : l.registration.visits m.tree.isGenerated = true
    · rw [filePass_of_visits hv, Pass.LooksFirst,
        Pass.upToLook_rounds (isRound_conversionActions l _ m)]
      rfl
    · rw [filePass_of_not_visits hv]
      rfl
  rw [treePass, Pass.LooksFirst, Pass.upToLook, if_neg (by simp [Action.isLook]),
    Pass.deliveries_cons]
  cases c.model? id with
  | none => rfl
  | some m => exact hfile m

theorem looks_treePass_ne_zero_iff {id : TreeId} :
    ((ofSettings s).treePass c id).looks ≠ 0 ↔ ∃ m, c.model? id = some m ∧
      (m.tree.isGenerated = true → s.generatedCode ≠ .skip) ∧
      ∃ a op, m.atPlace? a = some op ∧ op.isConversion = true := by
  have hconversions : ∀ m : FileModel, m.conversions.length ≠ 0 ↔
      ∃ a op, m.atPlace? a = some op ∧ op.isConversion = true := by
    intro m
    rw [Nat.ne_zero_iff_zero_lt, List.length_pos_iff_exists_mem]
    simp only [FileModel.conversions, List.mem_filter, FileModel.mem_operations_iff]
    constructor
    · rintro ⟨op, ⟨a, ha⟩, hop⟩
      exact ⟨a, op, ha, hop⟩
    · rintro ⟨a, op, ha, hop⟩
      exact ⟨op, ⟨a, ha⟩, hop⟩
  rw [treePass, Pass.looks_cons]
  cases c.model? id with
  | none => simp [Action.isLook, Pass.looks]
  | some m =>
    simp only [Action.isLook, looks_filePass, ← visits_ofSettings, ← hconversions]
    simp

theorem looks_flatMap_treePass_eq_zero_iff :
    Pass.looks (listed.flatMap ((ofSettings s).treePass c)) = 0 ↔ ¬ MeetsConversion s c listed := by
  rw [Pass.looks_flatMap_eq_zero_iff, MeetsConversion]
  simp only [← looks_treePass_ne_zero_iff]
  push Not
  rfl

variable {σ : Type} {h : Host σ} {st : σ}

/-- One file after the other. -/
theorem analyze_of_staysUp (hu : h.StaysUp st) :
    CancelledIff (s.isEnabled "AvoidImplicitBoxing" true = true ∧ MeetsConversion s c listed) []
      ((ofSettings s).analyze h st c listed).result := by
  by_cases he : (ofSettings s).rule.enabled = true
  · have hfaultless : Pass.Faultless (listed.flatMap ((ofSettings s).treePass c)) :=
      Pass.Faultless.flatMap fun id _ => faultless_treePass c id
    have hnothing : Pass.LooksFirst (listed.flatMap ((ofSettings s).treePass c)) :=
      Pass.LooksFirst.flatMap fun id _ => looksFirst_treePass _ c id
    obtain ⟨herror, hdelivered⟩ := @run_pass c listed (ofSettings s) σ h st
    obtain ⟨herror', hdelivered'⟩ := Pass.run_of_staysUp hfaultless hu
    rw [analyze, if_pos he, Outcome.report, herror, herror', hdelivered, hdelivered', hnothing]
    refine .of_cases (fun hmeets => ?_) fun hnot => ?_
    · rw [if_neg fun h => looks_flatMap_treePass_eq_zero_iff.1 h hmeets.2]
    · rw [if_pos (looks_flatMap_treePass_eq_zero_iff.2 fun hmeets => hnot ⟨he, hmeets⟩)]
      exact congrArg Except.ok List.mergeSort_nil
  · rw [analyze, if_neg he]
    exact .of_cases (fun h => absurd h.1 he) fun _ => rfl

/-- All files at the same time, under any schedule. -/
theorem EndsWith.of_signal {moves : List Move} {r : Except Failure (List Diagnostic)}
    (hr : (ofSettings s).EndsWith c listed (.signal :: moves) r) :
    CancelledIff (s.isEnabled "AvoidImplicitBoxing" true = true ∧ MeetsConversion s c listed) []
      r := by
  by_cases he : (ofSettings s).rule.enabled = true
  · obtain ⟨r', hends, rfl⟩ := (endsWith_of_enabled he).1 hr
    have hwaits : Crew.Waits (listed.map ((ofSettings s).treePass c))
        ((Crew.start (listed.map ((ofSettings s).treePass c))).run (.signal :: moves)) := by
      refine Crew.waits_run (Crew.waits_signal_start fun p hp => ?_) moves
      obtain ⟨id, -, rfl⟩ := List.mem_map.1 hp
      exact faultless_treePass c id
    have hlooks : (∀ p ∈ listed.map ((ofSettings s).treePass c), Pass.looks p = 0) ↔
        ¬ MeetsConversion s c listed := by
      rw [List.forall_mem_map, ← Pass.looks_flatMap_eq_zero_iff, looks_flatMap_treePass_eq_zero_iff]
    rcases hends.of_waits hwaits with ⟨rfl, p, hp, hne⟩ | ⟨rfl, hzero⟩
    · exact .of_cases (fun _ => rfl) fun hnot =>
        absurd (hlooks.2 (fun hmeets => hnot ⟨he, hmeets⟩) p hp) hne
    · refine .of_cases (fun hmeets => absurd hmeets.2 (hlooks.1 hzero)) fun _ => ?_
      have hnothing : (listed.map ((ofSettings s).treePass c)).flatMap Pass.deliveries = [] := by
        rw [List.flatMap_eq_nil_iff, List.forall_mem_map]
        intro id hid
        exact (looksFirst_treePass _ c id).deliveries_eq_nil
          (hzero _ (List.mem_map_of_mem hid))
      rw [hnothing]
      exact congrArg Except.ok List.mergeSort_nil
  · rw [(endsWith_of_not_enabled he).1 hr]
    exact .of_cases (fun h => absurd h.1 he) fun _ => rfl

theorem suppress_of_staysUp (hu : h.StaysUp st) (reported : List Diagnostic) :
    CancelledIff (s.isEnabled "SPR0004" true = true ∧ ∃ d ∈ reported, d.id = "IDE0004") []
      ((ofSettings s).suppress h st c reported).result := by
  have hs : (ofSettings s).suppresses = s.isEnabled "SPR0004" true := rfl
  have hcandidates : 0 < (candidates reported).length ↔ ∃ d ∈ reported, d.id = "IDE0004" := by
    rw [List.length_pos_iff_exists_mem]
    simp only [candidates, List.mem_filter, beq_iff_eq]
    rfl
  rw [suppress, hs, ← hcandidates]
  by_cases he : s.isEnabled "SPR0004" true = true
  · rw [if_pos he]
    cases hcand : candidates reported with
    | nil => exact .of_cases (fun hP => absurd hP.2 (Nat.lt_irrefl 0)) fun _ => rfl
    | cons d ds =>
      -- a look comes before all else that is done about the first candidate
      have hstopped : ((Suppressor.pass c (d :: ds)).run h st).error = some .cancelled :=
        congrArg Outcome.error (if_pos (hu [.look]))
      rw [Outcome.report, hstopped]
      exact .of_cases (fun _ => rfl) fun hnot => absurd ⟨he, Nat.succ_pos ds.length⟩ hnot
  · rw [if_neg he]
    exact .of_cases (fun hP => absurd hP.1 he) fun _ => rfl

theorem staysUp_analyze (hu : h.StaysUp st) (l : Linter) (c : Compilation)
    (listed : List TreeId) : h.StaysUp (l.analyze h st c listed).state := by
  unfold analyze
  split
  · exact Pass.staysUp_run hu _
  · exact hu

theorem run_of_staysUp (hu : h.StaysUp st) (reported : List Diagnostic) :
    CancelledIff (((ofSettings s).analyze h st c listed).result = .error .cancelled ∨
        ((ofSettings s).suppress h st c reported).result = .error .cancelled) ⟨[], []⟩
      ((ofSettings s).run h st c listed reported).result := by
  have hanalyze := @analyze_of_staysUp s c listed σ h st hu
  have hsuppress := @suppress_of_staysUp s c σ h st hu reported
  -- suppressing begins where the analysis left the host, with the signal still up
  have hlater : ((ofSettings s).suppress h ((ofSettings s).analyze h st c listed).state c
      reported).result = ((ofSettings s).suppress h st c reported).result :=
    (suppress_of_staysUp (staysUp_analyze hu (ofSettings s) c listed) reported).unique hsuppress
  by_cases ha : ((ofSettings s).analyze h st c listed).result = .error .cancelled
  · have hrun : ((ofSettings s).run h st c listed reported).result = .error .cancelled := by
      simp only [run, ha]
    exact .of_cases (fun _ => hrun) fun hnot => absurd (Or.inl ha) hnot
  · have hok := hanalyze.otherwise (fun hP => ha (hanalyze.cancelled_iff.2 hP))
    have hrun : ((ofSettings s).run h st c listed reported).result =
        ((ofSettings s).suppress h st c reported).result.map (⟨[], ·⟩) := by
      simp only [run, hok, hlater]
    rw [hrun]
    refine .of_cases (fun hor => ?_) fun hnot => ?_
    · rw [hor.resolve_left ha]
      rfl
    · rw [hsuppress.otherwise fun hQ => hnot (Or.inr (hsuppress.cancelled_iff.2 hQ))]
      rfl

end Linter

/-- **What is done under a signal that is up from the start.** An analysis is cancelled exactly if
the rule is switched on and it meets a conversion, under every schedule of its files, and otherwise
finds nothing; suppressing is cancelled exactly if it is switched on and there is a candidate, and
otherwise suppresses nothing; and a run is cancelled exactly if either is. -/
theorem cancelledIff_of_staysUp {σ : Type} {h : Host σ} {st : σ} (hu : h.StaysUp st)
    (s : Settings) (c : Compilation) (listed : List TreeId) (reported : List Diagnostic) :
    CancelledIff (s.isEnabled "AvoidImplicitBoxing" true = true ∧ MeetsConversion s c listed) []
      ((Linter.ofSettings s).analyze h st c listed).result ∧
    (∀ moves r, (Linter.ofSettings s).EndsWith c listed (.signal :: moves) r →
      r = ((Linter.ofSettings s).analyze h st c listed).result) ∧
    CancelledIff (s.isEnabled "SPR0004" true = true ∧ ∃ d ∈ reported, d.id = "IDE0004") []
      ((Linter.ofSettings s).suppress h st c reported).result ∧
    CancelledIff (((Linter.ofSettings s).analyze h st c listed).result = .error .cancelled ∨
        ((Linter.ofSettings s).suppress h st c reported).result = .error .cancelled) ⟨[], []⟩
      ((Linter.ofSettings s).run h st c listed reported).result :=
  ⟨Linter.analyze_of_staysUp hu,
    fun _ _ hr => hr.of_signal.unique (Linter.analyze_of_staysUp hu),
    Linter.suppress_of_staysUp hu reported, Linter.run_of_staysUp hu reported⟩

namespace NestedBoxing

/-- Settings that skip the generated file give an empty report of it, others meet its conversions
and are cancelled; and a run with a candidate is cancelled though its analysis is not. -/
theorem cancelledIff_of_staysUp_designer :
    Host.stopped.StaysUp () ∧
      ((Linter.ofSettings (Settings.default.treating .skip)).analyze Host.stopped () withDesigner
        [0]).result = .ok [] ∧
      ((Linter.ofSettings (Settings.default.treating .analyze)).analyze Host.stopped () withDesigner
        [0]).result = .error .cancelled ∧
      ((Linter.ofSettings (Settings.default.treating .skip)).run Host.stopped () withDesigner [0]
        [ObjectCast.redundant 0]).result = .error .cancelled := by
  have hup : Host.stopped.StaysUp () := fun _ => rfl
  have hskipped : ¬ MeetsConversion (Settings.default.treating .skip) withDesigner [0] := by
    rintro ⟨id, hid, m, hm, hvisited, -⟩
    obtain rfl := List.mem_singleton.1 hid
    obtain rfl := Option.some.inj hm
    exact hvisited (by decide) rfl
  have hmet : MeetsConversion (Settings.default.treating .analyze) withDesigner [0] :=
    ⟨0, List.mem_singleton_self 0, _, rfl, fun _ => by decide, ⟨0, []⟩, call, rfl, rfl⟩
  obtain ⟨hskip, -, hsuppress, hrun⟩ := cancelledIff_of_staysUp hup
    (Settings.default.treating .skip) withDesigner [0] [ObjectCast.redundant 0]
  obtain ⟨hanalyze, -⟩ := cancelledIff_of_staysUp hup (Settings.default.treating .analyze)
    withDesigner [0] []
  refine ⟨hup, hskip.otherwise fun h => hskipped h.2, hanalyze.cancelled_iff.2 ⟨rfl, hmet⟩,
    hrun.cancelled_iff.2 (Or.inr (hsuppress.cancelled_iff.2 ⟨rfl, ?_⟩))⟩
  exact ⟨_, List.mem_singleton_self _, rfl⟩

end NestedBoxing

end BoxLint
