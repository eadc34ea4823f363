import BoxLint.Analysis.Linter

/-!
# Passes that nothing stops

What a pass would deliver, log and ask for is written in it (`Pass.deliveries`, `Pass.events`,
`Pass.occasions`). A pass ends early for two reasons: it contains a failure, or a look finds the
signal up. Without a failure (`Pass.Faultless`), under a host whose signal stays down
(`Host.StaysDown`), it goes through with all of it (`Pass.run_eq`).
-/

namespace BoxLint

namespace Host

variable {σ : Type}

/-- From a state on the signal stays down, whatever the host is asked. -/
def StaysDown (h : Host σ) (s : σ) : Prop :=
  ∀ occasions : List Occasion, h.isUp (occasions.foldl h.turn s) = false

theorem StaysDown.turn {h : Host σ} {s : σ} (hd : h.StaysDown s) (o : Occasion) :
    h.StaysDown (h.turn s o) :=
  fun occasions => hd (o :: occasions)

theorem StaysDown.foldl {h : Host σ} {s : σ} (hd : h.StaysDown s) (os : List Occasion) :
    h.StaysDown (os.foldl h.turn s) := by
  intro os'
  rw [← List.foldl_append]
  exact hd (os ++ os')

theorem StaysDown.isUp {h : Host σ} {s : σ} (hd : h.StaysDown s) : h.isUp s = false := hd []

theorem staysDown_quiet : Host.quiet.StaysDown () := fun _ => rfl

end Host

/-- A signal that is down and goes up on no occasion stays down. -/
theorem Signal.staysDown_steady : Signal.host.StaysDown (Signal.steady false) := by
  have hturn : ∀ o, Signal.host.turn (Signal.steady false) o = Signal.steady false := by
    intro o
    cases o <;> rfl
  intro occasions
  induction occasions with
  | nil => rfl
  | cons o os ih => rw [List.foldl_cons, hturn, ih]

namespace Action

variable {α : Type}

/-- What an action delivers. -/
def delivered? : Action α → Option α
  | .deliver a => some a
  | _ => none

/-- What an action logs for certain. -/
def event? : Action α → Option Event
  | .log e => some e
  | _ => none

/-- The occasion on which an action turns to the host. -/
def occasion? : Action α → Option Occasion
  | .look _ => some .look
  | .ask o => some o
  | _ => none

end Action

namespace Pass

variable {σ α β : Type}

/-- What a pass delivers if nothing stops it. -/
def deliveries (p : Pass α) : List α := p.filterMap Action.delivered?

/-- What a pass logs if nothing stops it. -/
def events (p : Pass α) : List Event := p.filterMap Action.event?

/-- The occasions on which a pass turns to the host if nothing stops it. -/
def occasions (p : Pass α) : List Occasion := p.filterMap Action.occasion?

/-- A pass without failures. -/
def Faultless (p : Pass α) : Prop := ∀ e, Action.fail e ∉ p

/-! ## The parts of a pass -/

theorem deliveries_cons (a : Action α) (p : Pass α) :
    deliveries (a :: p) = a.delivered?.toList ++ p.deliveries := by
  cases a <;> rfl

theorem deliveries_flatMap (f : β → Pass α) (xs : List β) :
    deliveries (xs.flatMap f) = xs.flatMap fun x => (f x).deliveries := List.filterMap_flatMap

theorem deliveries_silent (p : Pass α) : p.silent.deliveries = p.deliveries := by
  rw [deliveries, silent, List.filterMap_filter]
  congr 1
  funext a
  cases a <;> rfl

theorem faultless_nil : Faultless ([] : Pass α) := fun _ he => List.not_mem_nil he

theorem faultless_cons {a : Action α} {p : Pass α} :
    Faultless (a :: p) ↔ (∀ e, a ≠ .fail e) ∧ p.Faultless := by
  constructor
  · intro h
    exact ⟨fun e he => h e (he ▸ List.mem_cons_self), fun e he => h e (List.mem_cons_of_mem a he)⟩
  · rintro ⟨ha, hp⟩ e he
    rcases List.mem_cons.1 he with he | he
    · exact ha e he.symm
    · exact hp e he

theorem Faultless.flatMap {f : β → Pass α} {xs : List β} (h : ∀ x ∈ xs, (f x).Faultless) :
    Faultless (xs.flatMap f) := by
  intro e he
  obtain ⟨x, hx, he⟩ := List.mem_flatMap.1 he
  exact h x hx e he

theorem Faultless.silent {p : Pass α} (h : p.Faultless) : p.silent.Faultless :=
  fun e he => h e (List.mem_filter.1 he).1

/-! ## Following a pass -/

variable {h : Host σ} {s : σ} {p : Pass α}

/-- A pass that does not fail goes through with all that is written in it, under any host. -/
theorem run_of_error (hp : (run h s p).error = none) :
    run h s p = ⟨none, p.deliveries, p.events, p.occasions.foldl h.turn s⟩ := by
  induction p generalizing s with
  | nil => rfl
  | cons a p ih =>
    cases a with
    | look n =>
      rw [run] at hp ⊢
      by_cases hup : h.isUp (h.turn s .look) = true
      · rw [if_pos hup] at hp
        exact absurd hp (Option.some_ne_none _)
      · rw [if_neg hup] at hp ⊢
        rw [ih hp]
        rfl
    | ask o =>
      rw [run, ih hp]
      rfl
    | log e =>
      rw [run, ih hp]
      rfl
    | deliver a =>
      rw [run, ih hp]
      rfl
    | fail e => exact absurd hp (Option.some_ne_none e)

theorem error_run (hd : h.StaysDown s) (hp : p.Faultless) : (run h s p).error = none := by
  induction p generalizing s with
  | nil => rfl
  | cons a p ih =>
    obtain ⟨ha, hrest⟩ := faultless_cons.1 hp
    cases a with
    | look n =>
      -- the only action at which the host could stop the pass
      rw [run, if_neg (by simp [(hd.turn .look).isUp])]
      exact ih (hd.turn .look) hrest
    | ask o => exact ih (hd.turn o) hrest
    | log e => exact ih hd hrest
    | deliver a => exact ih hd hrest
    | fail e => exact absurd rfl (ha e)

/-- A pass that nothing stops goes through with all that is written in it. -/
theorem run_eq (hd : h.StaysDown s) (hp : p.Faultless) :
    run h s p = ⟨none, p.deliveries, p.events, p.occasions.foldl h.turn s⟩ :=
  run_of_error (error_run hd hp)

/-- What is reported of a pass that nothing stops. -/
theorem report_run (hd : h.StaysDown s) (hp : p.Faultless) (f : List α → β) :
    (run h s p).report f =
      ⟨.ok (f p.deliveries), p.events, p.occasions.foldl h.turn s⟩ := by
  rw [run_eq hd hp]
  rfl

theorem delivered_run (hp : (run h s p).error = none) : (run h s p).delivered = p.deliveries := by
  rw [run_of_error hp]

theorem log_run (hp : (run h s p).error = none) : (run h s p).log = p.events := by
  rw [run_of_error hp]

/-- Leaving out the log changes neither the failure nor what is delivered. -/
theorem run_silent (h : Host σ) (s : σ) (p : Pass α) :
    (run h s p.silent).error = (run h s p).error ∧
      (run h s p.silent).delivered = (run h s p).delivered := by
  induction p generalizing s with
  | nil => exact ⟨rfl, rfl⟩
  | cons a p ih =>
    cases a with
    | look n =>
      change (run h s (.look n :: silent p)).error = _ ∧
        (run h s (.look n :: silent p)).delivered = _
      simp only [run]
      split
      · exact ⟨rfl, rfl⟩
      · exact ih _
    | ask o => exact ih _
    | log e => exact ih _
    | deliver a => exact ⟨(ih _).1, congrArg (a :: ·) (ih _).2⟩
    | fail e => exact ⟨rfl, rfl⟩

end Pass

end BoxLint
