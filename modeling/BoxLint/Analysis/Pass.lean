import BoxLint.Analysis.Error
import BoxLint.Analysis.Event

/-!
# Passes

A pass is a list of actions: it turns to its host, looks at the host's signal to stop, logs events
and delivers results. What a pass would do does not depend on the host; the host only decides how
far it gets. So a pass is written down once, as a list, and `Pass.run` follows it under a host until
its end, its failure, or the first look that finds the signal up.
-/

namespace BoxLint

/-- The occasions on which a pass turns to its host. -/
inductive Occasion where
  /-- The model of a file is asked for. -/
  | model
  /-- The display name of a type is asked for. -/
  | name
  /-- The signal is looked at. -/
  | look
  deriving DecidableEq, Repr

/-- A host with states `σ`: whether its signal is up, and the state after each occasion. -/
structure Host (σ : Type) where
  isUp : σ → Bool
  turn : σ → Occasion → σ

/-- The host that never gives the signal. -/
def Host.quiet : Host Unit := ⟨fun _ => false, fun _ _ => ()⟩

/-- The host whose signal was up from the start. -/
def Host.stopped : Host Unit := ⟨fun _ => true, fun _ _ => ()⟩

/-- An action of a pass that delivers results of type `α`. -/
inductive Action (α : Type) where
  /-- Looks at the signal, and logs a notice when it is up. -/
  | look (notice : Option Event)
  /-- Asks the host for a model or a name. -/
  | ask (occasion : Occasion)
  | log (event : Event)
  | deliver (result : α)
  | fail (failure : Failure)

/-- Whether an action only logs. -/
def Action.isLog {α : Type} : Action α → Bool
  | .log _ => true
  | _ => false

/-- A pass: its actions in order. -/
abbrev Pass (α : Type) := List (Action α)

/-- How a pass went: why it failed if it did, what it delivered and logged until then, and the
state of the host afterwards. -/
structure Outcome (σ α : Type) where
  error : Option Failure
  delivered : List α
  log : List Event
  state : σ

/-- One outcome after another: a pass that failed is not continued. -/
def Outcome.andThen {σ α : Type} (o : Outcome σ α) (next : σ → Outcome σ α) : Outcome σ α :=
  match o.error with
  | some _ => o
  | none =>
    let o' := next o.state
    ⟨o'.error, o.delivered ++ o'.delivered, o.log ++ o'.log, o'.state⟩

namespace Pass

variable {σ α : Type}

/-- Follows a pass under a host. -/
def run (h : Host σ) : σ → Pass α → Outcome σ α
  | s, [] => ⟨none, [], [], s⟩
  | s, .look notice :: rest =>
    let s := h.turn s .look
    if h.isUp s then ⟨some .cancelled, [], notice.toList, s⟩ else run h s rest
  | s, .ask occasion :: rest => run h (h.turn s occasion) rest
  | s, .log e :: rest =>
    let o := run h s rest
    { o with log := e :: o.log }
  | s, .deliver a :: rest =>
    let o := run h s rest
    { o with delivered := a :: o.delivered }
  | s, .fail e :: _ => ⟨some e, [], [], s⟩

/-- Following one pass and then another is following both in one. -/
theorem run_append (h : Host σ) (s : σ) (p q : Pass α) :
    run h s (p ++ q) = (run h s p).andThen fun s => run h s q := by
  induction p generalizing s with
  | nil => simp [run, Outcome.andThen]
  | cons a p ih =>
    cases a with
    | look notice =>
      simp only [List.cons_append, run]
      split
      · simp [Outcome.andThen]
      · exact ih _
    | ask occasion => simpa only [List.cons_append, run] using ih _
    | log e =>
      simp only [List.cons_append, run, ih, Outcome.andThen]
      split <;> simp
    | deliver r =>
      simp only [List.cons_append, run, ih, Outcome.andThen]
      split <;> simp
    | fail e => simp [run, Outcome.andThen]

/-- The pass without its log. -/
def silent (p : Pass α) : Pass α := p.filter (!·.isLog)

end Pass

/-- A signal that goes up by itself at a given request for a name or a model, counted from one;
at zero it stays down. -/
structure Signal where
  up : Bool
  atName : Nat
  atModel : Nat
  deriving DecidableEq, Repr

namespace Signal

/-- A signal that stays as it is. -/
def steady (up : Bool) : Signal := ⟨up, 0, 0⟩

/-- The signal after an occasion. -/
def turn (s : Signal) : Occasion → Signal
  | .name => { s with up := s.up || s.atName == 1, atName := s.atName - 1 }
  | .model => { s with up := s.up || s.atModel == 1, atModel := s.atModel - 1 }
  | .look => s

/-- The host of a signal. -/
def host : Host Signal := ⟨Signal.up, Signal.turn⟩

end Signal

end BoxLint
