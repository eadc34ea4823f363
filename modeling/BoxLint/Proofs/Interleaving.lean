import BoxLint.Proofs.Findings
import Mathlib.Data.List.Forall2

/-!
# Files analyzed at the same time

Each listed file has a worker that follows the file's pass. A schedule (`List Move`) says in which
order the workers take their actions and when the host gives its signal, which then stays up. All of
them see the same signal, at their looks.

One move keeps, for every worker, that it either has its whole result before it or was cancelled
under a raised signal (`Worker.Follows`, `Crew.follows_step`). So an analysis that ends
(`Crew.Ends`) ends cancelled or with everything, in the order of the files. It ends once every
worker has had as many turns as its pass has actions (`Crew.exists_ends`), and following the passes
one after the other, under a host that cannot take its signal back, is one of the schedules
(`Crew.exists_moves`).
-/

namespace BoxLint

/-- A signal that is up stays up. -/
def Host.Latches {σ : Type} (h : Host σ) : Prop :=
  ∀ s o, h.isUp s = true → h.isUp (h.turn s o) = true

theorem Signal.latches_host : Signal.host.Latches := by
  intro s o hup
  have hup : s.up = true := hup
  cases o <;> simp [Signal.host, Signal.turn, hup]

/-! ## Workers -/

/-- A worker on a pass: what is left to do, what was delivered, and why it failed if it did. -/
structure Worker (α : Type) where
  rest : Pass α
  delivered : List α
  error : Option Failure

namespace Worker

variable {α : Type}

/-- A worker that has not begun. -/
def start (p : Pass α) : Worker α := ⟨p, [], none⟩

/-- The next action of a worker, given whether the signal is up. After a failure nothing is left
to do. -/
def step (up : Bool) : Worker α → Worker α
  | ⟨[], ds, e⟩ => ⟨[], ds, e⟩
  | ⟨.look _ :: rest, ds, e⟩ => if up then ⟨[], ds, some .cancelled⟩ else ⟨rest, ds, e⟩
  | ⟨.ask _ :: rest, ds, e⟩ => ⟨rest, ds, e⟩
  | ⟨.log _ :: rest, ds, e⟩ => ⟨rest, ds, e⟩
  | ⟨.deliver a :: rest, ds, e⟩ => ⟨rest, ds ++ [a], e⟩
  | ⟨.fail err :: _, ds, _⟩ => ⟨[], ds, some err⟩

/-- A worker keeps to its pass: what it has delivered and what it has left make up the pass, unless
it saw the signal up. -/
def Follows (up : Bool) (p : Pass α) (w : Worker α) : Prop :=
  (w.error = none ∧ w.rest.Faultless ∧ w.delivered ++ w.rest.deliveries = p.deliveries) ∨
    (w.error = some .cancelled ∧ w.rest = [] ∧ up = true)

theorem follows_start {p : Pass α} (hp : p.Faultless) (up : Bool) : Follows up p (start p) :=
  Or.inl ⟨rfl, hp, rfl⟩

theorem Follows.raise {up : Bool} {p : Pass α} {w : Worker α} (h : Follows up p w) :
    Follows true p w :=
  h.imp_right fun ⟨he, hr, _⟩ => ⟨he, hr, rfl⟩

theorem Follows.step {up : Bool} {p : Pass α} {w : Worker α} (h : Follows up p w) :
    Follows up p (w.step up) := by
  obtain ⟨rest, ds, e⟩ := w
  obtain ⟨he, hrest, hds⟩ | ⟨he, hrest, hup⟩ := h
  · cases rest with
    | nil => exact Or.inl ⟨he, hrest, hds⟩
    | cons a rest =>
      obtain ⟨ha, hrest'⟩ := Pass.faultless_cons.1 hrest
      cases a with
      | look n =>
        cases up
        · exact Or.inl ⟨he, hrest', hds⟩
        · exact Or.inr ⟨rfl, rfl, rfl⟩
      | ask o => exact Or.inl ⟨he, hrest', hds⟩
      | log e => exact Or.inl ⟨he, hrest', hds⟩
      | deliver a =>
        refine Or.inl ⟨he, hrest', ?_⟩
        rw [← hds]
        exact List.append_assoc _ _ _
      | fail e => exact absurd rfl (ha e)
  · obtain rfl : rest = [] := hrest
    exact Or.inr ⟨he, rfl, hup⟩

theorem length_rest_step (up : Bool) (w : Worker α) :
    (w.step up).rest.length ≤ w.rest.length - 1 := by
  obtain ⟨_ | ⟨a, rest⟩, ds, e⟩ := w
  · exact Nat.le_refl 0
  · cases a with
    | look n => cases up <;> simp [step]
    | fail e => exact Nat.zero_le _
    | _ => exact Nat.le_refl _

end Worker

/-! ## Schedules -/

/-- A move of a schedule: the host gives its signal, or a worker takes its next action. -/
inductive Move where
  | signal
  | work (i : Nat)
  deriving DecidableEq, Repr

/-- The workers, and whether the signal is up. -/
structure Crew (α : Type) where
  up : Bool
  workers : List (Worker α)

namespace Crew

variable {α : Type}

/-- A worker for each pass, and the signal down. -/
def start (ps : List (Pass α)) : Crew α := ⟨false, ps.map Worker.start⟩

/-- One move. The signal is never taken back. -/
def step (c : Crew α) : Move → Crew α
  | .signal => { c with up := true }
  | .work i => { c with workers := c.workers.modify i (Worker.step c.up) }

/-- The moves of a schedule, one after the other. -/
def run (c : Crew α) (moves : List Move) : Crew α := moves.foldl step c

/-- How the work of a crew can end: with the failure of a worker, whatever the others are at, or
with all that was delivered, in the order of the workers. Which failure is handed on is left
open. -/
inductive Ends (c : Crew α) : Except Failure (List α) → Prop
  | failed {w : Worker α} {e : Failure} (hw : w ∈ c.workers) (he : w.error = some e) :
    Ends c (.error e)
  | finished (h : ∀ w ∈ c.workers, w.error = none ∧ w.rest = []) :
    Ends c (.ok (c.workers.flatMap (·.delivered)))

/-- Every worker keeps to its pass. -/
def Follows (ps : List (Pass α)) (c : Crew α) : Prop :=
  List.Forall₂ (Worker.Follows c.up) ps c.workers

theorem follows_start {ps : List (Pass α)} (hps : ∀ p ∈ ps, p.Faultless) :
    Follows ps (start ps) := by
  rw [Follows, start, List.forall₂_map_right_iff, List.forall₂_same]
  exact fun p hp => Worker.follows_start (hps p hp) false

theorem forall₂_modify {β γ : Type} {r : β → γ → Prop} {f : γ → γ}
    (hf : ∀ b c, r b c → r b (f c)) {bs : List β} {cs : List γ} (h : List.Forall₂ r bs cs)
    (i : Nat) : List.Forall₂ r bs (cs.modify i f) := by
  induction h generalizing i with
  | nil => simp
  | cons hr h ih =>
    cases i with
    | zero => exact .cons (hf _ _ hr) h
    | succ i => exact .cons hr (ih i)

theorem follows_step {ps : List (Pass α)} {c : Crew α} (h : Follows ps c) (move : Move) :
    Follows ps (c.step move) := by
  cases move with
  | signal => exact List.Forall₂.imp (fun _ _ hw => hw.raise) h
  | work i => exact forall₂_modify (fun _ _ hw => hw.step) h i

theorem follows_run {ps : List (Pass α)} {c : Crew α} (h : Follows ps c) (moves : List Move) :
    Follows ps (c.run moves) := by
  induction moves generalizing c with
  | nil => exact h
  | cons move moves ih => exact ih (follows_step h move)

theorem up_run {c : Crew α} {moves : List Move} (h : Move.signal ∉ moves) :
    (c.run moves).up = c.up := by
  induction moves generalizing c with
  | nil => rfl
  | cons move moves ih =>
    simp only [List.mem_cons, not_or] at h
    cases move with
    | signal => exact absurd rfl h.1
    | work i => exact ih h.2

/-! ## Ends -/

theorem flatMap_delivered_of_follows {ps : List (Pass α)} {up : Bool} {ws : List (Worker α)}
    (h : List.Forall₂ (Worker.Follows up) ps ws) (hws : ∀ w ∈ ws, w.error = none ∧ w.rest = []) :
    ws.flatMap (·.delivered) = ps.flatMap Pass.deliveries := by
  induction h with
  | nil => rfl
  | @cons p w ps ws hw _ ih =>
    obtain ⟨hw₀, hws⟩ := List.forall_mem_cons.1 hws
    rw [List.flatMap_cons, List.flatMap_cons, ih hws]
    obtain ⟨-, -, hds⟩ | ⟨he, -, -⟩ := hw
    · rw [← hds, hw₀.2]
      simp [Pass.deliveries]
    · exact absurd (hw₀.1.symm.trans he) (by simp)

theorem exists_follows_of_mem {ps : List (Pass α)} {up : Bool} {ws : List (Worker α)}
    (h : List.Forall₂ (Worker.Follows up) ps ws) {w : Worker α} (hw : w ∈ ws) :
    ∃ p, Worker.Follows up p w := by
  induction h with
  | nil => exact absurd hw List.not_mem_nil
  | @cons p _ _ _ hp _ ih =>
    rcases List.mem_cons.1 hw with rfl | hw
    · exact ⟨p, hp⟩
    · exact ih hw

/-- An end is the signal's doing, or it is whole. -/
theorem Ends.cancelled_or_whole {ps : List (Pass α)} {c : Crew α}
    {r : Except Failure (List α)} (h : c.Ends r) (hf : Follows ps c) :
    (r = .error .cancelled ∧ c.up = true) ∨ r = .ok (ps.flatMap Pass.deliveries) := by
  cases h with
  | failed hw he =>
    obtain ⟨p, ⟨hnone, -, -⟩ | ⟨hcancelled, -, hup⟩⟩ := exists_follows_of_mem hf hw
    · exact absurd (hnone.symm.trans he) (by simp)
    · obtain rfl := Option.some.inj (hcancelled.symm.trans he)
      exact Or.inl ⟨rfl, hup⟩
  | finished h => exact Or.inr (congrArg _ (flatMap_delivered_of_follows hf h))

/-! ## Reaching an end -/

theorem exists_worker_run {c : Crew α} {i : Nat} {w : Worker α} (hw : c.workers[i]? = some w)
    (moves : List Move) :
    ∃ w', (c.run moves).workers[i]? = some w' ∧
      w'.rest.length ≤ w.rest.length - moves.count (.work i) := by
  induction moves generalizing c w with
  | nil => exact ⟨w, hw, Nat.le_refl _⟩
  | cons move moves ih =>
    -- only a move of this worker shortens what it has left
    by_cases hmove : move = .work i
    · subst hmove
      have hstep : (c.step (.work i)).workers[i]? = some (w.step c.up) := by
        simp [step, hw]
      obtain ⟨w', hw', hlen⟩ := ih hstep
      refine ⟨w', hw', hlen.trans ?_⟩
      have := w.length_rest_step c.up
      rw [List.count_cons_self]
      omega
    · have hstep : (c.step move).workers[i]? = some w := by
        cases move with
        | signal => exact hw
        | work j =>
          have hji : j ≠ i := fun h => hmove (h ▸ rfl)
          simp [step, hji, hw]
      obtain ⟨w', hw', hlen⟩ := ih hstep
      exact ⟨w', hw', by rwa [List.count_cons_of_ne hmove]⟩

theorem length_workers_run (c : Crew α) (moves : List Move) :
    (c.run moves).workers.length = c.workers.length := by
  induction moves generalizing c with
  | nil => rfl
  | cons move moves ih =>
    rw [run, List.foldl_cons]
    refine (ih _).trans ?_
    cases move <;> simp [step]

/-- A schedule that gives each worker as many turns as its pass has actions reaches an end. -/
theorem exists_ends (ps : List (Pass α)) (moves : List Move)
    (h : ∀ i p, ps[i]? = some p → p.length ≤ moves.count (.work i)) :
    ∃ r, ((start ps).run moves).Ends r := by
  have hrest : ∀ w ∈ ((start ps).run moves).workers, w.rest = [] := by
    intro w hw
    obtain ⟨i, hi, rfl⟩ := List.mem_iff_getElem.1 hw
    have hi' : i < ps.length := by simpa [length_workers_run, start] using hi
    have hstart : (start ps).workers[i]? = some (Worker.start ps[i]) := by simp [start, hi']
    obtain ⟨w', hw', hlen⟩ := exists_worker_run hstart moves
    have hturns := h i ps[i] (List.getElem?_eq_getElem hi')
    rw [List.getElem?_eq_getElem hi, Option.some.injEq] at hw'
    rw [hw', ← List.length_eq_zero_iff]
    have : (Worker.start ps[i]).rest.length = ps[i].length := rfl
    omega
  by_cases herr : ∃ w ∈ ((start ps).run moves).workers, ∃ e, w.error = some e
  · obtain ⟨w, hw, e, he⟩ := herr
    exact ⟨_, .failed hw he⟩
  · refine ⟨_, .finished fun w hw => ⟨?_, hrest w hw⟩⟩
    by_contra hne
    exact herr ⟨w, hw, Option.ne_none_iff_exists'.1 hne⟩

/-! ## One file after the other -/

/-- A schedule leads from one state to another. -/
def Reaches (c c' : Crew α) : Prop := ∃ moves, c.run moves = c'

theorem Reaches.refl (c : Crew α) : Reaches c c := ⟨[], rfl⟩

theorem Reaches.head {c c' : Crew α} (move : Move) (h : Reaches (c.step move) c') :
    Reaches c c' := by
  obtain ⟨moves, h⟩ := h
  exact ⟨move :: moves, h⟩

theorem Reaches.trans {c₁ c₂ c₃ : Crew α} (h₁ : Reaches c₁ c₂) (h₂ : Reaches c₂ c₃) :
    Reaches c₁ c₃ := by
  obtain ⟨moves₁, rfl⟩ := h₁
  obtain ⟨moves₂, rfl⟩ := h₂
  exact ⟨moves₁ ++ moves₂, List.foldl_append⟩

theorem step_work (up : Bool) (pre post : List (Worker α)) (w : Worker α) :
    (⟨up, pre ++ w :: post⟩ : Crew α).step (.work pre.length) =
      ⟨up, pre ++ w.step up :: post⟩ := by
  have hmodify : (pre ++ w :: post).modify pre.length (Worker.step up) =
      pre ++ w.step up :: post := by
    induction pre with
    | nil => rfl
    | cons v pre ih => exact congrArg (v :: ·) ih
  rw [step, hmodify]

/-- A move of the worker after `pre`. -/
theorem Reaches.work {up : Bool} {pre post : List (Worker α)} {w : Worker α} {c : Crew α}
    (h : Reaches ⟨up, pre ++ w.step up :: post⟩ c) : Reaches ⟨up, pre ++ w :: post⟩ c :=
  Reaches.head (.work pre.length) (by rwa [step_work])

variable {σ : Type} {h : Host σ}

/-- The moves of a worker who follows its pass as it is followed under a host: the signal goes up
where the host's is found up. -/
theorem reaches_run (hl : h.Latches) (pre post : List (Worker α)) (p : Pass α) (ds : List α)
    (s : σ) (up : Bool) (hup : up = true → h.isUp s = true) :
    ∃ up', Reaches ⟨up, pre ++ ⟨p, ds, none⟩ :: post⟩
        ⟨up', pre ++ ⟨[], ds ++ (Pass.run h s p).delivered, (Pass.run h s p).error⟩ :: post⟩ ∧
      (up' = true → h.isUp (Pass.run h s p).state = true) := by
  induction p generalizing ds s up with
  | nil => exact ⟨up, by simpa [Pass.run] using Reaches.refl _, hup⟩
  | cons a p ih =>
    cases a with
    | look n =>
      by_cases hlook : h.isUp (h.turn s .look) = true
      · refine ⟨true, Reaches.head .signal (Reaches.work ?_), ?_⟩
        · simpa [Pass.run, hlook, Worker.step] using Reaches.refl _
        · simp [Pass.run, hlook]
      · -- a signal that is up stays up, so here it was never given
        obtain rfl : up = false := by
          by_contra hne
          exact hlook (hl s .look (hup (by simpa using hne)))
        obtain ⟨up', hreach, hup'⟩ := ih ds (h.turn s .look) false (by simp)
        refine ⟨up', Reaches.work ?_, ?_⟩
        · simpa [Pass.run, hlook, Worker.step] using hreach
        · simpa [Pass.run, hlook] using hup'
    | ask o =>
      obtain ⟨up', hreach, hup'⟩ := ih ds (h.turn s o) up fun h' => hl s o (hup h')
      exact ⟨up', Reaches.work hreach, hup'⟩
    | log e =>
      obtain ⟨up', hreach, hup'⟩ := ih ds s up hup
      exact ⟨up', Reaches.work hreach, hup'⟩
    | deliver a =>
      obtain ⟨up', hreach, hup'⟩ := ih (ds ++ [a]) s up hup
      refine ⟨up', Reaches.work ?_, hup'⟩
      rw [List.append_assoc] at hreach
      exact hreach
    | fail e =>
      refine ⟨up, Reaches.work ?_, hup⟩
      simpa [Pass.run, Worker.step] using Reaches.refl _

/-- Following passes one after the other, each worker of a crew in turn. -/
theorem reaches_run_flatten (hl : h.Latches) (ps : List (Pass α)) (pre : List (Worker α)) (s : σ)
    (up : Bool) (hup : up = true → h.isUp s = true) :
    ∃ up' ws, Reaches ⟨up, pre ++ ps.map Worker.start⟩ ⟨up', pre ++ ws⟩ ∧
      match (Pass.run h s ps.flatten).error with
      | some e => ∃ w ∈ ws, w.error = some e
      | none => (∀ w ∈ ws, w.error = none ∧ w.rest = []) ∧
          ws.flatMap (·.delivered) = (Pass.run h s ps.flatten).delivered := by
  induction ps generalizing pre s up with
  | nil => exact ⟨up, [], Reaches.refl _, by simp [Pass.run]⟩
  | cons p ps ih =>
    obtain ⟨up₁, hreach₁, hup₁⟩ := reaches_run hl pre (ps.map Worker.start) p [] s up hup
    rw [List.flatten_cons, Pass.run_append]
    rw [List.nil_append] at hreach₁
    cases herr : (Pass.run h s p).error with
    | some e =>
      -- the first failure ends it, and the later workers have not begun
      rw [herr] at hreach₁
      refine ⟨up₁, _, hreach₁, ?_⟩
      simp [Outcome.andThen, herr]
    | none =>
      rw [herr] at hreach₁
      obtain ⟨up₂, ws, hreach₂, hws⟩ := ih
        (pre ++ [⟨[], (Pass.run h s p).delivered, none⟩]) (Pass.run h s p).state up₁ hup₁
      rw [List.append_assoc, List.append_assoc] at hreach₂
      refine ⟨up₂, _, hreach₁.trans hreach₂, ?_⟩
      simp only [Outcome.andThen, herr]
      cases herr₂ : (Pass.run h (Pass.run h s p).state ps.flatten).error with
      | some e =>
        rw [herr₂] at hws
        obtain ⟨w, hw, he⟩ := hws
        exact ⟨w, List.mem_append_right _ hw, he⟩
      | none =>
        rw [herr₂] at hws
        refine ⟨?_, ?_⟩
        · intro w hw
          rcases List.mem_append.1 hw with hw | hw
          · obtain rfl := List.mem_singleton.1 hw
            exact ⟨rfl, rfl⟩
          · exact hws.1 w hw
        · rw [List.flatMap_append, hws.2]
          simp

/-- What comes of following passes one after the other comes of some schedule. -/
theorem exists_moves (hl : h.Latches) (ps : List (Pass α)) (s : σ) :
    ∃ moves, ((start ps).run moves).Ends ((Pass.run h s ps.flatten).report id).result := by
  obtain ⟨up, ws, ⟨moves, hmoves⟩, hws⟩ := reaches_run_flatten hl ps [] s false (by simp)
  refine ⟨moves, ?_⟩
  rw [List.nil_append, List.nil_append] at hmoves
  rw [start, hmoves, Outcome.report]
  cases herr : (Pass.run h s ps.flatten).error with
  | some e =>
    rw [herr] at hws
    obtain ⟨w, hw, he⟩ := hws
    exact .failed hw he
  | none =>
    rw [herr] at hws
    simp only [id_eq, ← hws.2]
    exact .finished hws.1

end Crew

/-! ## The analysis -/

namespace Linter

/-- How an analysis can end under a schedule, when each listed file has a worker. -/
def EndsWith (l : Linter) (c : Compilation) (listed : List TreeId) (moves : List Move)
    (r : Except Failure (List Diagnostic)) : Prop :=
  if l.rule.enabled then
    ∃ r', ((Crew.start (listed.map (l.treePass c))).run moves).Ends r' ∧
      r = r'.map Diagnostic.sorted
  else r = .ok []

variable {s : Settings} {c : Compilation} {listed : List TreeId}

theorem endsWith_of_enabled {l : Linter} (he : l.rule.enabled = true) {moves : List Move}
    {r : Except Failure (List Diagnostic)} :
    l.EndsWith c listed moves r ↔
      ∃ r', ((Crew.start (listed.map (l.treePass c))).run moves).Ends r' ∧
        r = r'.map Diagnostic.sorted := by
  rw [EndsWith, if_pos he]

theorem endsWith_of_not_enabled {l : Linter} (he : ¬ l.rule.enabled = true) {moves : List Move}
    {r : Except Failure (List Diagnostic)} :
    l.EndsWith c listed moves r ↔ r = .ok [] := by
  rw [EndsWith, if_neg he]

/-- An analysis ends cancelled, after a signal, or with what is found in all the files. -/
theorem EndsWith.cancelled_or_whole {moves : List Move}
    {r : Except Failure (List Diagnostic)} (h : (ofSettings s).EndsWith c listed moves r) :
    (r = .error .cancelled ∧ Move.signal ∈ moves) ∨
      r = .ok (if (ofSettings s).rule.enabled then
        Diagnostic.sorted ((ofSettings s).found c listed) else []) := by
  by_cases he : (ofSettings s).rule.enabled = true
  · obtain ⟨r', hends, rfl⟩ := (endsWith_of_enabled he).1 h
    have hstart : Crew.Follows (listed.map ((ofSettings s).treePass c))
        (Crew.start (listed.map ((ofSettings s).treePass c))) := by
      refine Crew.follows_start fun p hp => ?_
      obtain ⟨id, -, rfl⟩ := List.mem_map.1 hp
      exact faultless_treePass c id
    rcases hends.cancelled_or_whole (Crew.follows_run hstart moves) with ⟨rfl, hup⟩ | rfl
    · refine Or.inl ⟨rfl, ?_⟩
      by_contra hmoves
      rw [Crew.up_run hmoves] at hup
      exact Bool.false_ne_true hup
    · rw [List.flatMap_map, flatMap_deliveries_treePass, if_pos he]
      exact Or.inr rfl
  · rw [if_neg he]
    exact Or.inr ((endsWith_of_not_enabled he).1 h)

theorem exists_endsWith (l : Linter) (moves : List Move)
    (h : ∀ i id, listed[i]? = some id → (l.treePass c id).length ≤ moves.count (.work i)) :
    ∃ r, l.EndsWith c listed moves r := by
  by_cases he : l.rule.enabled = true
  · obtain ⟨r, hr⟩ := Crew.exists_ends (listed.map (l.treePass c)) moves fun i p hp => by
      rw [List.getElem?_map, Option.map_eq_some_iff] at hp
      obtain ⟨id, hid, rfl⟩ := hp
      exact h i id hid
    exact ⟨_, (endsWith_of_enabled he).2 ⟨r, hr, rfl⟩⟩
  · exact ⟨_, (endsWith_of_not_enabled he).2 rfl⟩

theorem run_pass (l : Linter) {σ : Type} (h : Host σ) (st : σ) :
    ((l.pass c listed).run h st).error =
        (Pass.run h st (listed.flatMap (l.treePass c))).error ∧
      ((l.pass c listed).run h st).delivered =
        (Pass.run h st (listed.flatMap (l.treePass c))).delivered := by
  simp only [pass]
  split
  · exact Pass.run_silent h st _
  · exact ⟨rfl, rfl⟩

/-- An analysis of one file after the other ends as some schedule does. -/
theorem exists_endsWith_analyze (l : Linter) {σ : Type} {h : Host σ} (hl : h.Latches) (st : σ) :
    ∃ moves, l.EndsWith c listed moves (l.analyze h st c listed).result := by
  by_cases he : l.rule.enabled = true
  · obtain ⟨moves, hmoves⟩ := Crew.exists_moves hl (listed.map (l.treePass c)) st
    rw [← List.flatMap_def] at hmoves
    refine ⟨moves, (endsWith_of_enabled he).2 ⟨_, hmoves, ?_⟩⟩
    obtain ⟨herror, hdelivered⟩ := @run_pass c listed l σ h st
    rw [analyze, if_pos he, Outcome.report, Outcome.report, herror, hdelivered]
    cases (Pass.run h st (listed.flatMap (l.treePass c))).error <;> rfl
  · exact ⟨[], (endsWith_of_not_enabled he).2 (by rw [analyze, if_neg he])⟩

end Linter

/-- **No schedule gives a part or another answer.** Let `ds` be what an analysis of one file after
the other gives under a host that never signals. Under every schedule an analysis that ends was
cancelled or gives `ds`, and it gives `ds` if no signal was given. It ends under every schedule that
gives each worker as many turns as its file has actions; and to analyze one file after the other,
under any host that cannot take its signal back, is one of the schedules. -/
theorem analyze_whole_or_cancelled (s : Settings) (c : Compilation) (listed : List TreeId) :
    ∃ ds, ((Linter.ofSettings { s with concurrent := false }).analyze Host.quiet () c
        listed).result = .ok ds ∧
      (∀ moves r, (Linter.ofSettings s).EndsWith c listed moves r →
        r = .error .cancelled ∨ r = .ok ds) ∧
      (∀ moves r, (Linter.ofSettings s).EndsWith c listed moves r → Move.signal ∉ moves →
        r = .ok ds) ∧
      (∀ moves, (∀ i id, listed[i]? = some id →
          ((Linter.ofSettings s).treePass c id).length ≤ moves.count (.work i)) →
        ∃ r, (Linter.ofSettings s).EndsWith c listed moves r) ∧
      ∀ (σ : Type) (h : Host σ) (st : σ), h.Latches →
        ∃ moves, (Linter.ofSettings s).EndsWith c listed moves
          ((Linter.ofSettings s).analyze h st c listed).result := by
  refine ⟨_, Linter.analyze_of_staysDown Host.staysDown_quiet c listed, fun moves r h => ?_,
    fun moves r h hmoves => ?_, Linter.exists_endsWith _,
    fun σ h st hl => Linter.exists_endsWith_analyze _ hl st⟩
  -- the settings agree on all that findings depend on
  · exact h.cancelled_or_whole.imp_left And.left
  · exact h.cancelled_or_whole.resolve_left fun hc => hmoves hc.2

namespace NestedBoxing

/-- Two workers that take turns find everything, one that meets the signal stops the analysis, and
when the signal goes up at the first request for a name some schedule ends as the analysis does. -/
theorem analyze_whole_or_cancelled_twice :
    ∃ ds, ((Linter.ofSettings { Settings.default with concurrent := false }).analyze Host.quiet ()
        twice [0, 1]).result = .ok ds ∧
      (Linter.ofSettings Settings.default).EndsWith twice [0, 1]
        ((List.range 22).map fun k => .work (k % 2)) (.ok ds) ∧
      (Linter.ofSettings Settings.default).EndsWith twice [0, 1]
        [.work 0, .signal, .work 0] (.error .cancelled) ∧
      ∃ moves, (Linter.ofSettings Settings.default).EndsWith twice [0, 1] moves
        ((Linter.ofSettings Settings.default).analyze Signal.host ⟨false, 1, 0⟩ twice
          [0, 1]).result := by
  obtain ⟨ds, hds, -, hquiet, hends, hhost⟩ :=
    analyze_whole_or_cancelled Settings.default twice [0, 1]
  refine ⟨ds, hds, ?_, ?_, hhost _ Signal.host _ Signal.latches_host⟩
  · obtain ⟨r, hr⟩ := hends ((List.range 22).map fun k => .work (k % 2)) fun i id hid => by
      match i, hid with
      | 0, rfl => decide
      | 1, rfl => decide
    rwa [hquiet _ r hr (by decide)] at hr
  · exact (Linter.endsWith_of_enabled rfl).2 ⟨_, .failed List.mem_cons_self rfl, rfl⟩

end NestedBoxing

end BoxLint
