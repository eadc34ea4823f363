import BoxLint.Proofs.Interleaving
import BoxLint.Proofs.Suppression

/-!
# Passes that the signal stops

A pass is stopped at one of its looks or not at all, so how far it gets is a number of looks. If the
looks before number `k` find the signal down and the later ones find it up (`Host.RisesAfter`), then
what is done of the pass is the part before look `k` (`Pass.upToLook`, `Pass.run_of_risesAfter`). A
host that cannot take its signal back always has such a number (`Host.Latches.exists_risesAfter`).

The suppressor looks once for each diagnostic, before anything else it does about it
(`Suppressor.isRound_actions`). So a batch that is stopped is finished up to a diagnostic and
untouched from there on, whatever became of the diagnostics before it.
-/

namespace BoxLint

/-- Whether an action looks at the signal. -/
def Action.isLook {α : Type} : Action α → Bool
  | .look _ => true
  | _ => false

namespace Pass

variable {σ α : Type}

/-- How often a pass looks at the signal if nothing stops it. -/
def looks (p : Pass α) : Nat := p.countP Action.isLook

/-- The part of a pass before its look number `k`, counted from zero, or all of it if it has no
such look. -/
def upToLook : Nat → Pass α → Pass α
  | _, [] => []
  | k, a :: p =>
    if a.isLook then if k = 0 then [] else a :: upToLook (k - 1) p
    else a :: upToLook k p

/-- No look of the pass logs a notice when it finds the signal up. -/
def Unannounced (p : Pass α) : Prop := ∀ e, Action.look (some e) ∉ p

/-- What the looks of a pass find if nothing stops it: whether the signal is up, look by look. -/
def sightings (h : Host σ) : σ → Pass α → List Bool
  | _, [] => []
  | s, .look _ :: p => h.isUp (h.turn s .look) :: sightings h (h.turn s .look) p
  | s, .ask o :: p => sightings h (h.turn s o) p
  | s, .log _ :: p => sightings h s p
  | s, .deliver _ :: p => sightings h s p
  | s, .fail _ :: p => sightings h s p

end Pass

/-- The signal goes up between two looks of a pass: the looks before number `k` find it down, and
those from `k` on find it up. -/
def Host.RisesAfter {σ α : Type} (h : Host σ) (s : σ) (p : Pass α) (k : Nat) : Prop :=
  ∀ i up, (p.sightings h s)[i]? = some up → (up = true ↔ k ≤ i)

/-! ## How far a pass gets -/

namespace Pass

variable {σ α β : Type} {h : Host σ} {s : σ} {p q : Pass α} {k : Nat}

theorem looks_cons (a : Action α) (p : Pass α) :
    looks (a :: p) = looks p + if a.isLook then 1 else 0 := List.countP_cons

theorem looks_append (p q : Pass α) : looks (p ++ q) = looks p + looks q := List.countP_append

theorem upToLook_append (p q : Pass α) (k : Nat) :
    upToLook k (p ++ q) =
      if k < looks p then upToLook k p else p ++ upToLook (k - looks p) q := by
  induction p generalizing k with
  | nil => simp [looks]
  | cons a p ih =>
    rw [List.cons_append, upToLook, upToLook, looks_cons]
    by_cases ha : a.isLook = true
    · rw [if_pos ha, if_pos ha, if_pos ha]
      cases k with
      | zero => simp
      | succ k =>
        simp only [Nat.add_lt_add_iff_right, Nat.add_sub_add_right, Nat.add_sub_cancel,
          Nat.succ_ne_zero, if_false, ih]
        split <;> rfl
    · rw [if_neg ha, if_neg ha, if_neg ha, ih, Nat.add_zero]
      split <;> rfl

/-- A pass is stopped at a look or not at all, and delivers and logs what stands before the look that
finds the signal up. -/
theorem run_of_risesAfter (hp : p.Faultless) (hk : h.RisesAfter s p k) :
    (run h s p).error = (if p.looks ≤ k then none else some .cancelled) ∧
      (run h s p).delivered = (p.upToLook k).deliveries ∧
      (p.Unannounced → (run h s p).log = (p.upToLook k).events) := by
  induction p generalizing s k with
  | nil => exact ⟨rfl, rfl, fun _ => rfl⟩
  | cons a p ih =>
    obtain ⟨ha, hrest⟩ := faultless_cons.1 hp
    have hquiet : Unannounced (a :: p) → Unannounced p :=
      fun hq e he => hq e (List.mem_cons_of_mem a he)
    cases a with
    | look n =>
      have hfirst : h.isUp (h.turn s .look) = true ↔ k ≤ 0 := hk 0 _ rfl
      cases k with
      | zero =>
        rw [run, if_pos (hfirst.2 (Nat.le_refl 0))]
        refine ⟨by simp [looks, Action.isLook], rfl, fun hq => ?_⟩
        cases n with
        | none => rfl
        | some e => exact absurd List.mem_cons_self (hq e)
      | succ k =>
        have hdown : ¬ h.isUp (h.turn s .look) = true := fun hup => by simpa using hfirst.1 hup
        have hlater : h.RisesAfter (h.turn s .look) p k := fun i up hi =>
          (hk (i + 1) up hi).trans (Nat.add_le_add_iff_right)
        obtain ⟨herror, hdelivered, hlog⟩ := ih hrest hlater
        rw [run, if_neg hdown, herror, looks_cons]
        simp only [Action.isLook, if_true, Nat.add_le_add_iff_right, true_and]
        exact ⟨hdelivered, fun hq => hlog (hquiet hq)⟩
    | ask o =>
      obtain ⟨herror, hdelivered, hlog⟩ := ih hrest hk
      exact ⟨herror, hdelivered, fun hq => hlog (hquiet hq)⟩
    | log e =>
      obtain ⟨herror, hdelivered, hlog⟩ := ih hrest hk
      exact ⟨herror, hdelivered, fun hq => congrArg (e :: ·) (hlog (hquiet hq))⟩
    | deliver a =>
      obtain ⟨herror, hdelivered, hlog⟩ := ih hrest hk
      exact ⟨herror, congrArg (a :: ·) hdelivered, fun hq => hlog (hquiet hq)⟩
    | fail e => exact absurd rfl (ha e)

/-! ## Rounds -/

/-- A round of a pass: it begins with a look and has no other. -/
def IsRound (p : Pass α) : Prop := ∃ notice body, p = .look notice :: body ∧ looks body = 0

theorem IsRound.looks_eq (hp : p.IsRound) : looks p = 1 := by
  obtain ⟨notice, body, rfl, hbody⟩ := hp
  rw [looks_cons, hbody]
  rfl

theorem IsRound.upToLook_zero (hp : p.IsRound) : upToLook 0 p = [] := by
  obtain ⟨notice, body, rfl, -⟩ := hp
  rfl

theorem looks_rounds {f : β → Pass α} (hf : ∀ x, (f x).IsRound) (xs : List β) :
    looks (xs.flatMap f) = xs.length := by
  induction xs with
  | nil => rfl
  | cons x xs ih => rw [List.flatMap_cons, looks_append, (hf x).looks_eq, ih, List.length_cons,
      Nat.add_comm]

/-- The part before a look is a number of whole rounds. -/
theorem upToLook_rounds {f : β → Pass α} (hf : ∀ x, (f x).IsRound) (xs : List β) (k : Nat) :
    upToLook k (xs.flatMap f) = (xs.take k).flatMap f := by
  induction xs generalizing k with
  | nil => simp [upToLook]
  | cons x xs ih =>
    rw [List.flatMap_cons, upToLook_append, (hf x).looks_eq]
    cases k with
    | zero => rw [if_pos Nat.zero_lt_one, (hf x).upToLook_zero, List.take_zero, List.flatMap_nil]
    | succ k => rw [if_neg (by omega), Nat.add_sub_cancel, ih, List.take_succ_cons,
        List.flatMap_cons]

end Pass

/-! ## Hosts that keep their signal up -/

namespace Host

variable {σ α : Type} {h : Host σ}

theorem risesAfter_of_sightings {s : σ} {p : Pass α} {k m : Nat}
    (hs : p.sightings h s = List.replicate k false ++ List.replicate m true) :
    h.RisesAfter s p k := by
  intro i up hi
  rw [hs] at hi
  by_cases hik : i < k
  · rw [List.getElem?_append_left (by simpa using hik)] at hi
    rw [List.eq_of_mem_replicate (List.mem_of_getElem? hi)]
    simpa using hik
  · rw [List.getElem?_append_right (by simpa using hik)] at hi
    rw [List.eq_of_mem_replicate (List.mem_of_getElem? hi)]
    simpa using hik

/-- From a state on the signal stays up, whatever the host is asked. -/
def StaysUp (h : Host σ) (s : σ) : Prop :=
  ∀ occasions : List Occasion, h.isUp (occasions.foldl h.turn s) = true

theorem StaysUp.turn {s : σ} (hu : h.StaysUp s) (o : Occasion) : h.StaysUp (h.turn s o) :=
  fun occasions => hu (o :: occasions)

theorem StaysUp.sightings_eq {s : σ} (hu : h.StaysUp s) (p : Pass α) :
    p.sightings h s = List.replicate p.looks true := by
  induction p generalizing s with
  | nil => rfl
  | cons a p ih =>
    cases a with
    | look n =>
      have hup : h.isUp (h.turn s .look) = true := hu [.look]
      rw [Pass.sightings, hup, ih (hu.turn .look), Pass.looks_cons]
      rfl
    | ask o => exact ih (hu.turn o)
    | log e => exact ih hu
    | deliver a => exact ih hu
    | fail e => exact ih hu

theorem StaysUp.risesAfter {s : σ} (hu : h.StaysUp s) (p : Pass α) : h.RisesAfter s p 0 :=
  risesAfter_of_sightings ((hu.sightings_eq p).trans (List.nil_append _).symm)

theorem Latches.staysUp (hl : h.Latches) {s : σ} (hup : h.isUp s = true) : h.StaysUp s := by
  intro occasions
  induction occasions generalizing s with
  | nil => exact hup
  | cons o os ih => exact ih (hl s o hup)

/-- A host that cannot take its signal back gives it once: there is a number of looks before. -/
theorem Latches.exists_sightings (hl : h.Latches) (s : σ) (p : Pass α) :
    ∃ k m, p.sightings h s = List.replicate k false ++ List.replicate m true := by
  induction p generalizing s with
  | nil => exact ⟨0, 0, rfl⟩
  | cons a p ih =>
    cases a with
    | look n =>
      cases hup : h.isUp (h.turn s .look) with
      | false =>
        obtain ⟨k, m, hkm⟩ := ih (h.turn s .look)
        exact ⟨k + 1, m, by rw [Pass.sightings, hup, hkm]; rfl⟩
      | true =>
        refine ⟨0, Pass.looks p + 1, ?_⟩
        rw [Pass.sightings, hup, (hl.staysUp hup).sightings_eq]
        rfl
    | ask o => exact ih (h.turn s o)
    | log e => exact ih s
    | deliver a => exact ih s
    | fail e => exact ih s

theorem Latches.exists_risesAfter (hl : h.Latches) (s : σ) (p : Pass α) :
    ∃ k, h.RisesAfter s p k := by
  obtain ⟨k, m, hkm⟩ := hl.exists_sightings s p
  exact ⟨k, risesAfter_of_sightings hkm⟩

end Host

/-! ## Batches -/

namespace Suppressor

variable {σ : Type} {h : Host σ} {st : σ} {c : Compilation} {k : Nat}

theorem isRound_actions (c : Compilation) (d : Diagnostic) : (actions c d).IsRound := by
  have hin : ∀ m, Pass.looks (actionsIn m d) = 0 := by
    intro m
    unfold actionsIn
    split
    · match verdict m d with
      | .error e => rfl
      | .ok true => rfl
      | .ok false => rfl
    · rfl
  refine ⟨_, _, rfl, ?_⟩
  cases d.location.tree with
  | none => rfl
  | some t =>
    cases hm : c.model? t with
    | none => simp [hm, Action.isLook, Pass.looks]
    | some m => simp [hm, Pass.looks_cons, Action.isLook, hin]

/-- How a batch went that was begun with the suppressions `before` and whose first `k` diagnostics
were free to be judged: it succeeds if these are all of it, and what it has collected is theirs. -/
structure KeepsFirst (c : Compilation) (before : List Suppression) (ds : List Diagnostic) (k : Nat)
    (o : Outcome σ Suppression) : Prop where
  succeeds_iff : o.error = none ↔ ds.length ≤ k
  whole : ds.length ≤ k → o.delivered = before ++ hidden c ds
  stopped : k < ds.length →
    o.error = some .cancelled ∧ o.delivered = before ++ hidden c (ds.take k)

theorem run_pass_of_risesAfter (hc : c.Acyclic) {ds : List Diagnostic}
    (hk : h.RisesAfter st (pass c ds) k) :
    ((pass c ds).run h st).error = (if ds.length ≤ k then none else some .cancelled) ∧
      ((pass c ds).run h st).delivered = hidden c (ds.take k) := by
  obtain ⟨herror, hdelivered, -⟩ := Pass.run_of_risesAfter (faultless_pass hc ds) hk
  rw [herror, hdelivered, pass, Pass.looks_rounds (isRound_actions c),
    Pass.upToLook_rounds (isRound_actions c)]
  exact ⟨rfl, deliveries_pass hc (ds.take k)⟩

theorem collect_of_risesAfter (hc : c.Acyclic) {ds : List Diagnostic}
    (hk : h.RisesAfter st (pass c ds) k) (before : List Suppression) :
    KeepsFirst c before ds k (collect h st c before ds) := by
  obtain ⟨herror, hdelivered⟩ := run_pass_of_risesAfter hc hk
  have herror' : (collect h st c before ds).error =
      if ds.length ≤ k then none else some .cancelled := herror
  have hdelivered' : (collect h st c before ds).delivered = before ++ hidden c (ds.take k) :=
    congrArg (before ++ ·) hdelivered
  refine ⟨?_, fun hle => ?_, fun hlt => ⟨?_, hdelivered'⟩⟩
  · rw [herror']
    split <;> simp_all
  · rw [hdelivered', List.take_of_length_le hle]
  · rw [herror', if_neg (Nat.not_le.2 hlt)]

end Suppressor

namespace Linter

variable {σ : Type} {h : Host σ} {st : σ} {s : Settings} {c : Compilation} {k : Nat}
  {reported : List Diagnostic}

/-- Suppressing gives all suppressions, or fails and gives none. -/
theorem suppress_of_risesAfter (hc : c.Acyclic)
    (hk : h.RisesAfter st (Suppressor.pass c (candidates reported)) k) :
    ((ofSettings s).suppress h st c reported).result =
      if s.isEnabled "SPR0004" true = true ∧ k < (candidates reported).length then
        .error .cancelled
      else .ok (suppressionsOf s c reported) := by
  have hs : (ofSettings s).suppresses = s.isEnabled "SPR0004" true := rfl
  rw [suppress, hs]
  by_cases he : s.isEnabled "SPR0004" true = true
  · obtain ⟨herror, hdelivered⟩ := Suppressor.run_pass_of_risesAfter hc hk
    rw [if_pos he, Outcome.report, herror, hdelivered]
    by_cases hlt : k < (candidates reported).length
    · rw [if_neg (Nat.not_le.2 hlt), if_pos ⟨he, hlt⟩]
    · rw [if_pos (Nat.not_lt.1 hlt), if_neg fun h => hlt h.2,
        List.take_of_length_le (Nat.not_lt.1 hlt), hidden_candidates he]
      rfl
  · rw [if_neg he, if_neg fun h => he h.1]
    simp [suppressionsOf, Suppressible, he]

theorem run_of_risesAfter (hc : c.Acyclic) {listed : List TreeId} {ds : List Diagnostic}
    (hds : ((ofSettings s).analyze h st c listed).result = .ok ds)
    (hk : h.RisesAfter ((ofSettings s).analyze h st c listed).state
      (Suppressor.pass c (candidates reported)) k) :
    ((ofSettings s).run h st c listed reported).result =
      if s.isEnabled "SPR0004" true = true ∧ k < (candidates reported).length then
        .error .cancelled
      else .ok ⟨ds, suppressionsOf s c reported⟩ := by
  simp only [run, hds, suppress_of_risesAfter hc hk]
  split <;> rfl

end Linter

/-- **A batch that is stopped keeps what it finished.** Take a batch in a compilation without cycles
that is begun with the suppressions `before`, under a host whose signal goes up after `k` looks. It
succeeds exactly if it
has no more than `k` diagnostics, and then `before` is followed by the suppressions of all of them;
otherwise it is cancelled, and `before` is followed by those of the first `k`. The linter hands on
nothing of a batch that was cancelled. Every host that cannot take its signal back goes up after
some number of looks. -/
theorem collect_keepsFirst {σ : Type} (h : Host σ) {c : Compilation} (hc : c.Acyclic) :
    (∀ st before reported k, h.RisesAfter st (Suppressor.pass c reported) k →
      Suppressor.KeepsFirst c before reported k (Suppressor.collect h st c before reported)) ∧
    (∀ s st reported k,
      h.RisesAfter st (Suppressor.pass c (Linter.candidates reported)) k →
      ((Linter.ofSettings s).suppress h st c reported).result =
        if s.isEnabled "SPR0004" true = true ∧ k < (Linter.candidates reported).length then
          .error .cancelled
        else .ok (suppressionsOf s c reported)) ∧
    (∀ s st listed reported ds k, ((Linter.ofSettings s).analyze h st c listed).result = .ok ds →
      h.RisesAfter ((Linter.ofSettings s).analyze h st c listed).state
        (Suppressor.pass c (Linter.candidates reported)) k →
      ((Linter.ofSettings s).run h st c listed reported).result =
        if s.isEnabled "SPR0004" true = true ∧ k < (Linter.candidates reported).length then
          .error .cancelled
        else .ok ⟨ds, suppressionsOf s c reported⟩) ∧
    (h.Latches → ∀ st (p : Pass Suppression), ∃ k, h.RisesAfter st p k) :=
  ⟨fun _ before _ _ hk => Suppressor.collect_of_risesAfter hc hk before,
    fun _ _ _ _ hk => Linter.suppress_of_risesAfter hc hk,
    fun _ _ _ _ _ _ hds hk => Linter.run_of_risesAfter hc hds hk,
    fun hl st p => hl.exists_risesAfter st p⟩

namespace ObjectCast

/-- The diagnostic on the cast, reported three times. -/
def thrice : List Diagnostic := [redundant 0, redundant 0, redundant 0]

/-- A signal that goes up at the second request for a model. If that is while the second diagnostic
is judged, two are suppressed before the signal is seen, and the linter hands on neither; if files
are analyzed before, it is seen sooner. -/
theorem collect_keepsFirst_second :
    compilation.Acyclic ∧ Signal.host.Latches ∧
      Signal.host.RisesAfter ⟨false, 0, 2⟩ (Suppressor.pass compilation thrice) 2 ∧
      (Suppressor.collect Signal.host ⟨false, 0, 2⟩ compilation [⟨Rule.boxingCast, redundant 3⟩]
        thrice).error = some .cancelled ∧
      (Suppressor.collect Signal.host ⟨false, 0, 2⟩ compilation [⟨Rule.boxingCast, redundant 3⟩]
        thrice).delivered = [⟨Rule.boxingCast, redundant 3⟩, ⟨Rule.boxingCast, redundant 0⟩,
          ⟨Rule.boxingCast, redundant 0⟩] ∧
      ((Linter.ofSettings Settings.default).suppress Signal.host ⟨false, 0, 2⟩ compilation
        thrice).result = .error .cancelled ∧
      ((Linter.ofSettings Settings.default).analyze Signal.host ⟨false, 0, 2⟩ compilation
        [0]).result = .ok [] ∧
      ((Linter.ofSettings Settings.default).run Signal.host ⟨false, 0, 2⟩ compilation [0]
        thrice).result = .error .cancelled := by
  have hrises : Signal.host.RisesAfter ⟨false, 0, 2⟩ (Suppressor.pass compilation thrice) 2 :=
    Host.risesAfter_of_sightings (m := 1) (by decide)
  have hsooner : Signal.host.RisesAfter
      ((Linter.ofSettings Settings.default).analyze Signal.host ⟨false, 0, 2⟩ compilation [0]).state
      (Suppressor.pass compilation (Linter.candidates thrice)) 1 :=
    Host.risesAfter_of_sightings (m := 2) rfl
  have hanalyze : ((Linter.ofSettings Settings.default).analyze Signal.host ⟨false, 0, 2⟩
      compilation [0]).result = .ok [] := congrArg Except.ok List.mergeSort_nil
  obtain ⟨hcollect, hsuppress, hrun, -⟩ := collect_keepsFirst Signal.host acyclic_compilation
  obtain ⟨herror, hdelivered⟩ :=
    (hcollect _ [⟨Rule.boxingCast, redundant 3⟩] _ _ hrises).stopped (by decide)
  exact ⟨acyclic_compilation, Signal.latches_host, hrises, herror, hdelivered.trans rfl,
    (hsuppress Settings.default _ thrice _ hrises).trans rfl, hanalyze,
    (hrun Settings.default _ _ _ _ _ hanalyze hsooner).trans rfl⟩

/-- Where the node of the cast is its own parent, the signal stays down for the one diagnostic of a
batch, and yet the batch does not succeed: the search for the node runs for ever. -/
theorem collect_selfParent :
    Host.quiet.Latches ∧
      Host.quiet.RisesAfter () (Suppressor.pass ⟨[selfParent]⟩ [redundant 0]) 1 ∧
      (Suppressor.collect Host.quiet () ⟨[selfParent]⟩ [] [redundant 0]).error = some .endless ∧
      ¬ Suppressor.KeepsFirst ⟨[selfParent]⟩ [] [redundant 0] 1
        (Suppressor.collect Host.quiet () ⟨[selfParent]⟩ [] [redundant 0]) := by
  have hendless : (Suppressor.collect Host.quiet () ⟨[selfParent]⟩ [] [redundant 0]).error =
      some .endless := rfl
  refine ⟨fun _ _ hup => hup, Host.risesAfter_of_sightings (m := 0) (by decide), hendless,
    fun hkeeps => ?_⟩
  have hok := hkeeps.succeeds_iff.2 (Nat.le_refl 1)
  exact absurd (hendless.symm.trans hok) (Option.some_ne_none _)

end ObjectCast

end BoxLint
