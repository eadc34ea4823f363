import BoxLint.Proofs.Suppression

/-!
# What the suppressor logs

The suppressor comes to one of seven ends with a diagnostic. At six of them it logs one event, which
says that the diagnostic is suppressed or why it is passed over (`AccountsFor`). At the seventh, a
cast that the user wrote and that does not box (`OnOtherCast`), it logs nothing. So the log of a
batch goes through the batch in its order, one line for each diagnostic, and leaves out those on
casts that do not box (`Suppressor.forall₂_events_pass`). Parent links that go round in a circle are
left out of account here, since with them a batch may have no end.
-/

namespace BoxLint

/-- A line of a log: how detailed it is, its text, and what else it tells by name. -/
structure LogLine where
  level : EventLevel
  message : String
  fields : List (String × String)
  deriving DecidableEq, Repr

/-- The line that an event is logged as. -/
def Event.line (e : Event) : LogLine := ⟨e.level, e.message, e.fields⟩

/-- The diagnostic lies on a cast that the user wrote, and the cast does not box. -/
def OnOtherCast (c : Compilation) (d : Diagnostic) : Prop :=
  ∃ t m n op, d.location.tree = some t ∧ c.model? t = some m ∧
    m.tree.find? d.location.span = some n ∧ n.isExplicitCast = true ∧
    m.operation? n = some op ∧ op.isBoxing = false

/-- The line accounts for a diagnostic: it says that the diagnostic is suppressed, or how far it
could be traced back to a cast. -/
inductive AccountsFor (c : Compilation) (d : Diagnostic) : LogLine → Prop
  | suppressed (h : OnBoxingCast c d) :
    AccountsFor c d ⟨.debug, "suppressing " ++ d.id, [("location", d.location.text)]⟩
  | noTree (ht : d.location.tree = none) :
    AccountsFor c d ⟨.trace, "diagnostic has no source tree", [("id", d.id)]⟩
  | unknownTree {t : TreeId} (ht : d.location.tree = some t) (hm : c.model? t = none) :
    AccountsFor c d ⟨.trace, "tree not in compilation", [("id", d.id), ("tree", t.text)]⟩
  | noNode {t : TreeId} {m : FileModel} (ht : d.location.tree = some t) (hm : c.model? t = some m)
      (hn : m.tree.find? d.location.span = none) :
    AccountsFor c d ⟨.trace, "no syntax at diagnostic span", [("location", d.location.text)]⟩
  | notACast {t : TreeId} {m : FileModel} {n : Node} (ht : d.location.tree = some t)
      (hm : c.model? t = some m) (hn : m.tree.find? d.location.span = some n)
      (hc : n.isExplicitCast = false) :
    AccountsFor c d
      ⟨.trace, "not a cast shape", [("raw_kind", toString n.rawKind), ("dialect", n.dialect.name)]⟩
  | unbound {t : TreeId} {m : FileModel} {n : Node} (ht : d.location.tree = some t)
      (hm : c.model? t = some m) (hn : m.tree.find? d.location.span = some n)
      (hc : n.isExplicitCast = true) (ho : m.operation? n = none) :
    AccountsFor c d ⟨.trace, "cast has no bound operation", [("location", d.location.text)]⟩

/-- Every diagnostic of a batch has a line of its own in the log, in the order of the batch: a debug
line if it is suppressed, and a trace line if it is passed over. -/
def LogsEach (c : Compilation) (ds : List Diagnostic) (lines : List LogLine) : Prop :=
  List.Forall₂ (fun d line =>
    (OnBoxingCast c d →
      line = ⟨.debug, "suppressing " ++ d.id, [("location", d.location.text)]⟩) ∧
    (¬ OnBoxingCast c d → line.level = .trace)) ds lines

namespace Suppressor

variable {c : Compilation} {d : Diagnostic}

/-- Whether a diagnostic lies on a cast that does not box, by the verdict on it. -/
def passesOver (c : Compilation) (d : Diagnostic) : Bool :=
  (d.location.tree.bind c.model?).any fun m => verdict m d = .ok false

theorem passesOver_iff : passesOver c d = true ↔ OnOtherCast c d := by
  simp only [passesOver, OnOtherCast, Option.any_eq_true, Option.bind_eq_some_iff,
    decide_eq_true_eq, verdict_eq_ok_iff]
  constructor
  · rintro ⟨m, ⟨t, ht, hm⟩, n, op, h⟩
    exact ⟨t, m, n, op, ht, hm, h⟩
  · rintro ⟨t, m, n, op, ht, hm, h⟩
    exact ⟨m, ⟨t, ht, hm⟩, n, op, h⟩

instance (c : Compilation) (d : Diagnostic) : Decidable (OnOtherCast c d) :=
  decidable_of_iff (passesOver c d = true) passesOver_iff

/-! ## One diagnostic -/

section Verdict

variable {t : TreeId} {m : FileModel} (ht : d.location.tree = some t) (hm : c.model? t = some m)

include ht hm

theorem onBoxingCast_iff_verdict : OnBoxingCast c d ↔ verdict m d = .ok true := by
  simp [OnBoxingCast, verdict_eq_ok_iff, ht, hm]

theorem onOtherCast_iff_verdict : OnOtherCast c d ↔ verdict m d = .ok false := by
  simp [OnOtherCast, verdict_eq_ok_iff, ht, hm]

/-- The reason to leave a diagnostic alone accounts for it. -/
theorem accountsFor_reason {reason : Event} (h : verdict m d = .error reason) :
    AccountsFor c d reason.line := by
  unfold verdict at h
  cases hn : m.tree.find? d.location.span with
  | none =>
    obtain rfl : Event.noNode d.location = reason := by simpa [hn] using h
    exact .noNode ht hm hn
  | some n =>
    cases hc : n.isExplicitCast with
    | false =>
      obtain rfl : Event.notACast n.rawKind n.dialect = reason := by simpa [hn, hc] using h
      exact .notACast ht hm hn hc
    | true =>
      cases ho : m.operation? n with
      | none =>
        obtain rfl : Event.unboundCast d.location = reason := by simpa [hn, hc, ho] using h
        exact .unbound ht hm hn hc ho
      | some op => simp [hn, hc, ho] at h

end Verdict

/-- One event is logged that accounts for a diagnostic, and none if the diagnostic lies on a cast
that does not box. -/
theorem events_actions (hc : c.Acyclic) (d : Diagnostic) :
    (OnOtherCast c d → (actions c d).events = []) ∧
      (¬ OnOtherCast c d → ∃ e, (actions c d).events = [e] ∧ AccountsFor c d e.line) := by
  unfold actions
  cases ht : d.location.tree with
  | none =>
    refine ⟨fun h => ?_, fun _ => ⟨.noTree d.id, rfl, .noTree ht⟩⟩
    simp [OnOtherCast, ht] at h
  | some t =>
    cases hm : c.model? t with
    | none =>
      refine ⟨fun h => ?_, fun _ => ⟨.unknownTree d.id t, ?_, .unknownTree ht hm⟩⟩
      · simp [OnOtherCast, ht, hm] at h
      · simp only [hm]
        rfl
    | some m =>
      have hevents : Pass.events (.look (some .suppressionStopped) :: .ask .model ::
          actionsIn m d) = (actionsIn m d).events := rfl
      simp only [hm, hevents, onOtherCast_iff_verdict ht hm]
      rw [actionsIn, if_pos (hc.searchEnds hm _)]
      cases hv : verdict m d with
      | error reason =>
        refine ⟨fun h => absurd h (by simp), fun _ => ?_⟩
        exact ⟨reason, rfl, accountsFor_reason ht hm hv⟩
      | ok boxes =>
        cases boxes with
        | true =>
          refine ⟨fun h => absurd h (by simp), fun _ => ?_⟩
          exact ⟨_, rfl, .suppressed ((onBoxingCast_iff_verdict ht hm).2 hv)⟩
        | false => exact ⟨fun _ => rfl, fun h => absurd rfl h⟩

/-! ## A batch -/

/-- What is logged of a batch is one line for each diagnostic that does not lie on a cast that does
not box. -/
theorem forall₂_events_pass (hc : c.Acyclic) (ds : List Diagnostic) :
    List.Forall₂ (AccountsFor c) (ds.filter (¬ OnOtherCast c ·))
      ((pass c ds).events.map Event.line) := by
  induction ds with
  | nil => exact .nil
  | cons d ds ih =>
    have hcons : (pass c (d :: ds)).events = (actions c d).events ++ (pass c ds).events :=
      List.filterMap_append
    obtain ⟨hsilent, hlogged⟩ := events_actions hc d
    by_cases hd : OnOtherCast c d
    · rw [hcons, hsilent hd, List.nil_append, List.filter_cons_of_neg (by simpa using hd)]
      exact ih
    · obtain ⟨e, he, haccounts⟩ := hlogged hd
      rw [hcons, he, List.filter_cons_of_pos (by simpa using hd)]
      exact .cons haccounts ih

end Suppressor

theorem AccountsFor.logsOne {c : Compilation} {d : Diagnostic} {line : LogLine}
    (h : AccountsFor c d line) :
    (OnBoxingCast c d →
        line = ⟨.debug, "suppressing " ++ d.id, [("location", d.location.text)]⟩) ∧
      (¬ OnBoxingCast c d → line.level = .trace) := by
  cases h with
  | suppressed h => exact ⟨fun _ => rfl, fun hnot => absurd h hnot⟩
  | noTree ht => simp [OnBoxingCast, ht]
  | unknownTree ht hm => simp [OnBoxingCast, ht, hm]
  | noNode ht hm hn => simp [OnBoxingCast, ht, hm, hn]
  | notACast ht hm hn hc => simp [OnBoxingCast, ht, hm, hn, hc]
  | unbound ht hm hn hc ho => simp [OnBoxingCast, ht, hm, hn, hc, ho]

/-- **Where the log of a batch accounts for all of it.** Let no parent links go round in a circle. A
batch that is not cancelled, as none is while the signal stays down, is logged in its order, with
one line for each diagnostic that says what became of it, except that casts which do not box are
passed over in silence. So every diagnostic has its line exactly if none of them lies on such a
cast. -/
theorem logsEach_iff {σ : Type} (h : Host σ) (st : σ) {c : Compilation} (hc : c.Acyclic)
    (before : List Suppression) (ds : List Diagnostic) :
    (h.StaysDown st → (Suppressor.collect h st c before ds).error = none) ∧
    ((Suppressor.collect h st c before ds).error = none →
      List.Forall₂ (AccountsFor c) (ds.filter (¬ OnOtherCast c ·))
        ((Suppressor.collect h st c before ds).log.map Event.line) ∧
      (LogsEach c ds ((Suppressor.collect h st c before ds).log.map Event.line) ↔
        ∀ d ∈ ds, ¬ OnOtherCast c d)) := by
  refine ⟨fun hd => Pass.error_run hd (Suppressor.faultless_pass hc ds), fun hok => ?_⟩
  have hlog : (Suppressor.collect h st c before ds).log = (Suppressor.pass c ds).events :=
    Pass.log_run hok
  have hlines := Suppressor.forall₂_events_pass hc ds
  rw [← hlog] at hlines
  refine ⟨hlines, fun heach => ?_, fun hall => ?_⟩
  · -- a diagnostic that is left out makes the log shorter than the batch
    have hlength := hlines.length_eq.trans heach.length_eq.symm
    simpa using List.length_filter_eq_length_iff.1 hlength
  · rw [List.filter_eq_self.2 (by simpa using hall)] at hlines
    exact hlines.imp fun _ _ haccounts => haccounts.logsOne

namespace ObjectCast

/-- The file with the cast, to which no operation is bound. -/
def unboundFile : FileModel :=
  (FileModel.ofTree (Tree.empty 1 "Test1.cs" .csharp)).addNode node.rawKind node.span none

/-- A file with the cast of a text to an object, which does not box. -/
def textFile : FileModel :=
  ((FileModel.ofTree (Tree.empty 2 "Test2.cs" .csharp)).addNode node.rawKind node.span none).addRoot
    (.conversion (some .implicitReference)
      (.plain .literal ⟨some (.reference "System.String"), 1, Span.ofLength 6 28 1, .csharp, false⟩
        [])
      ⟨some (.reference "System.Object"), 0, node.span, .csharp, false⟩ [])

def mixed : Compilation := ⟨[file (some (.reference "System.Object")), unboundFile, textFile]⟩

/-- The diagnostic that calls a cast redundant, at a given location. -/
def redundantAt (l : Location) : Diagnostic :=
  .ofTemplate "IDE0004" .hidden "Cast is redundant" l []

/-- Diagnostics without a tree, in a missing file, beside all nodes, on the literal, on the unbound
cast and on the cast that boxes. -/
def oddBatch : List Diagnostic :=
  [redundantAt .nowhere, redundant 3, redundantAt (.inTree 0 (.ofLength 42 1 1)),
    redundantAt (.inTree 0 (.ofLength 6 28 1)), redundant 1, redundant 0]

/-- Each of the six has its line. -/
theorem logsEach_iff_oddBatch :
    mixed.Acyclic ∧ Host.quiet.StaysDown () ∧
      (Suppressor.collect Host.quiet () mixed [] oddBatch).error = none ∧
      (∀ d ∈ oddBatch, ¬ OnOtherCast mixed d) ∧
      LogsEach mixed oddBatch
        ((Suppressor.collect Host.quiet () mixed [] oddBatch).log.map Event.line) := by
  have hacyclic : mixed.Acyclic := by decide
  have hall : ∀ d ∈ oddBatch, ¬ OnOtherCast mixed d := by decide
  obtain ⟨hsucceeds, hlogs⟩ := logsEach_iff Host.quiet () hacyclic [] oddBatch
  have hok := hsucceeds Host.staysDown_quiet
  exact ⟨hacyclic, Host.staysDown_quiet, hok, hall, (hlogs hok).2.2 hall⟩

/-- The cast that does not box is passed over without a line. -/
theorem textCast_not_logged :
    mixed.Acyclic ∧ Host.quiet.StaysDown () ∧
      (Suppressor.collect Host.quiet () mixed [] [redundant 2]).error = none ∧
      ¬ OnBoxingCast mixed (redundant 2) ∧
      (Suppressor.collect Host.quiet () mixed [] [redundant 2]).log = [] ∧
      ¬ LogsEach mixed [redundant 2]
        ((Suppressor.collect Host.quiet () mixed [] [redundant 2]).log.map Event.line) := by
  have hlog : (Suppressor.collect Host.quiet () mixed [] [redundant 2]).log = [] := by decide
  refine ⟨by decide, Host.staysDown_quiet, by decide, by decide, hlog, fun heach => ?_⟩
  rw [hlog] at heach
  exact absurd heach.length_eq (by decide)

end ObjectCast

end BoxLint
