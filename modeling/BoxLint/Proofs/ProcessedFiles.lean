import BoxLint.Proofs.RaisedSignal
import Mathlib.Data.List.Induction

/-!
# How far an analysis gets

An analysis looks at the signal once for each conversion that it meets (`Linter.met`), before it
processes the conversion. So the part of its pass before look `k` has processed the first `k` of
these conversions and logged what it found there (`Linter.filter_isFinding_events`). It has reached
the files before which no more than `k` of them stand, and logged those that are not visited
(`Linter.filter_isSkip_events`).
-/

namespace BoxLint

/-! ## Parts of a pass and of its log -/

namespace Pass

variable {α β γ : Type} {q : Event → Bool} {f : β → Pass α} {xs : List β}

theorem events_append (p p' : Pass α) : events (p ++ p') = events p ++ events p' :=
  List.filterMap_append

theorem upToLook_append_eq (p p' : Pass α) (k : Nat) :
    upToLook k (p ++ p') =
      upToLook k p ++ if looks p ≤ k then upToLook (k - looks p) p' else [] := by
  rw [upToLook_append]
  by_cases hk : looks p ≤ k
  · rw [if_neg (Nat.not_lt.2 hk), if_pos hk, upToLook_of_looks_le hk]
  · rw [if_pos (Nat.not_le.1 hk), if_neg hk, List.append_nil]

theorem looks_flatMap {ys : β → List γ} (hlooks : ∀ x ∈ xs, looks (f x) = (ys x).length) :
    looks (xs.flatMap f) = (xs.flatMap ys).length := by
  induction xs with
  | nil => rfl
  | cons x xs ih =>
    obtain ⟨hx, hxs⟩ := List.forall_mem_cons.1 hlooks
    rw [List.flatMap_cons, looks_append, hx, ih hxs, List.flatMap_cons, List.length_append]

/-- If the parts of a pass look once for each item of a list and log item by item, the part of the
pass before look `k` logs the first `k` items. -/
theorem filter_events_upToLook {ys : β → List γ} {r : γ → List Event}
    (hlooks : ∀ x ∈ xs, looks (f x) = (ys x).length)
    (hf : ∀ x ∈ xs, ∀ k, (upToLook k (f x)).events.filter q = ((ys x).take k).flatMap r) (k : Nat) :
    (upToLook k (xs.flatMap f)).events.filter q = ((xs.flatMap ys).take k).flatMap r := by
  induction xs generalizing k with
  | nil => rw [List.flatMap_nil, List.flatMap_nil, List.take_nil]; rfl
  | cons x xs ih =>
    obtain ⟨hlook, hlooks⟩ := List.forall_mem_cons.1 hlooks
    obtain ⟨hx, hxs⟩ := List.forall_mem_cons.1 hf
    rw [List.flatMap_cons, upToLook_append_eq, events_append, List.filter_append, hx,
      List.flatMap_cons, List.take_append, List.flatMap_append, hlook]
    congr 1
    split
    · exact ih hlooks hxs _
    · next hk => rw [Nat.sub_eq_zero_of_le (Nat.le_of_not_le hk), List.take_zero]; rfl

/-- If each part of a pass logs the same before whichever look it is stopped, the part of the pass
before look `k` logs the parts before which no more than `k` looks stand. -/
theorem filter_events_upToLook_range {r : β → Option Event}
    (hf : ∀ x ∈ xs, ∀ k, (upToLook k (f x)).events.filter q = (r x).toList) (k : Nat) :
    (upToLook k (xs.flatMap f)).events.filter q =
      ((List.range xs.length).filter fun j => looks ((xs.take j).flatMap f) ≤ k).filterMap
        fun j => xs[j]?.bind r := by
  induction xs using List.reverseRecOn with
  | nil => rfl
  | append_singleton xs x ih =>
    have hx := hf x (List.mem_append_right xs (List.mem_singleton_self x))
    have hold : ∀ j ∈ List.range xs.length, (xs ++ [x]).take j = xs.take j ∧
        (xs ++ [x])[j]? = xs[j]? := by
      intro j hj
      have hlt : j < xs.length := List.mem_range.1 hj
      exact ⟨List.take_append_of_le_length (Nat.le_of_lt hlt), List.getElem?_append_left hlt⟩
    rw [List.flatMap_append, List.flatMap_singleton, upToLook_append_eq, events_append,
      List.filter_append, ih fun y hy => hf y (List.mem_append_left [x] hy), List.length_append,
      List.length_singleton, List.range_succ, List.filter_append, List.filterMap_append,
      List.filterMap_filter, List.filterMap_filter]
    congr 1
    · refine List.filterMap_congr fun j hj => ?_
      rw [(hold j hj).1, (hold j hj).2]
    · rw [List.filter_singleton, List.take_left]
      by_cases hk : looks (xs.flatMap f) ≤ k
      · rw [if_pos hk, hx, decide_eq_true hk]
        cases hr : r x <;> simp [hr]
      · rw [if_neg hk, decide_eq_false hk]
        rfl

end Pass

/-! ## What is logged -/

namespace Event

/-- Whether the event is that of a finding. -/
def isFinding : Event → Bool
  | .found _ _ => true
  | _ => false

/-- Whether the event is that of a generated file which is not visited. -/
def isSkip : Event → Bool
  | .skippedGenerated _ => true
  | _ => false

end Event

/-- The event of a finding. -/
def Diagnostic.event (d : Diagnostic) : Event := .found d.location d.message

theorem Detector.events_actions {rule : EffectiveRule} {m : FileModel} {op : Operation}
    (kept : Bool) (h : op.isConversion = true) :
    (actions rule kept m op).events = (finding? rule m op).toList.map Diagnostic.event := by
  rw [actions_of_isConversion kept h]
  cases finding? rule m op <;> cases kept <;> rfl

namespace Linter

variable {s : Settings} {c : Compilation} {listed : List TreeId}

/-- The conversions that are met in a file. -/
def metIn (l : Linter) (m : FileModel) : List (FileModel × Operation) :=
  if l.registration.visits m.tree.isGenerated then m.conversions.map (m, ·) else []

/-- The conversions that are met in the listed files, with their sites. -/
def met (l : Linter) (c : Compilation) (listed : List TreeId) :
    List (Site × FileModel × Operation) :=
  (c.located listed).filter fun x =>
    l.registration.visits x.2.1.tree.isGenerated && x.2.2.isConversion

/-- What is logged of a file that is not visited. -/
def skip? (l : Linter) (m : FileModel) : Option Event :=
  if l.registration.visits m.tree.isGenerated then none
  else some (.skippedGenerated m.tree.path)

theorem map_snd_met (l : Linter) (c : Compilation) (listed : List TreeId) :
    (l.met c listed).map Prod.snd =
      listed.flatMap fun id => (c.model? id).toList.flatMap l.metIn := by
  have hfilter : (l.met c listed).map Prod.snd = ((c.located listed).map Prod.snd).filter fun x =>
      l.registration.visits x.1.tree.isGenerated && x.2.isConversion := by
    rw [List.filter_map]
    rfl
  rw [hfilter, Compilation.map_snd_located, List.filter_flatMap]
  refine List.flatMap_congr fun id _ => ?_
  rw [List.filter_flatMap]
  refine List.flatMap_congr fun m _ => ?_
  rw [List.filter_map, metIn]
  split
  · next hv => simp [Function.comp_def, hv, FileModel.conversions]
  · next hv => simp [Function.comp_def, hv]

theorem looks_filePass_eq_length (l : Linter) (m : FileModel) :
    (l.filePass m).looks = (l.metIn m).length := by
  rw [looks_filePass, metIn]
  split
  · rw [List.length_map]
  · rfl

theorem looks_treePass (l : Linter) (c : Compilation) (id : TreeId) :
    (l.treePass c id).looks = ((c.model? id).toList.flatMap l.metIn).length := by
  rw [treePass, Pass.looks_cons]
  cases c.model? id with
  | none => rfl
  | some m => simp [looks_filePass_eq_length, Action.isLook]

theorem looks_flatMap_treePass (l : Linter) (c : Compilation) (listed : List TreeId) :
    Pass.looks (listed.flatMap (l.treePass c)) = (l.met c listed).length := by
  rw [Pass.looks_flatMap fun id _ => l.looks_treePass c id, ← map_snd_met, List.length_map]

/-! ## The log of one file -/

theorem events_upToLook_filePass (m : FileModel) (k : Nat) :
    (((ofSettings s).filePass m).upToLook k).events =
      ((ofSettings s).skip? m).toList ++ (((ofSettings s).metIn m).take k).flatMap fun x =>
        (Detector.finding? (ofSettings s).rule x.1 x.2).toList.map Diagnostic.event := by
  by_cases hv : (ofSettings s).registration.visits m.tree.isGenerated = true
  · have hround : ∀ op ∈ m.conversions.take k, Pass.events ((ofSettings s).conversionActions
        ((ofSettings s).registration.reports m.tree.isGenerated) m op) =
        (Detector.finding? (ofSettings s).rule m op).toList.map Diagnostic.event := by
      intro op hop
      have hc : op.isConversion = true := (List.mem_filter.1 (List.mem_of_mem_take hop)).2
      rw [conversionActions, if_pos (wants_ofSettings s _), ← Detector.events_actions _ hc]
      rfl
    rw [filePass_of_visits hv, Pass.upToLook_rounds (isRound_conversionActions _ _ m), skip?,
      if_pos hv, metIn, if_pos hv, ← List.map_take, List.flatMap_map, Pass.events,
      List.filterMap_flatMap]
    exact List.flatMap_congr hround
  · rw [filePass_of_not_visits hv, skip?, if_neg hv, metIn, if_neg hv, List.take_nil]
    rfl

theorem events_upToLook_treePass (id : TreeId) (k : Nat) :
    (((ofSettings s).treePass c id).upToLook k).events =
      (c.model? id).toList.flatMap fun m => (((ofSettings s).filePass m).upToLook k).events := by
  rw [treePass, Pass.upToLook, if_neg (by simp [Action.isLook])]
  cases c.model? id with
  | none => rfl
  | some m => exact (List.append_nil _).symm

theorem filter_isFinding_events_treePass (id : TreeId) (k : Nat) :
    (((ofSettings s).treePass c id).upToLook k).events.filter Event.isFinding =
      (((c.model? id).toList.flatMap (ofSettings s).metIn).take k).flatMap fun x =>
        (Detector.finding? (ofSettings s).rule x.1 x.2).toList.map Diagnostic.event := by
  rw [events_upToLook_treePass]
  cases c.model? id with
  | none => simp
  | some m =>
    have hskip : ((ofSettings s).skip? m).toList.filter Event.isFinding = [] := by
      rw [skip?]
      split <;> rfl
    have hfound : ∀ d : Diagnostic, d.event.isFinding = true := fun _ => rfl
    simp [events_upToLook_filePass, hskip, List.filter_flatMap, List.filter_map, Function.comp_def,
      hfound]

theorem filter_isSkip_events_treePass (id : TreeId) (k : Nat) :
    (((ofSettings s).treePass c id).upToLook k).events.filter Event.isSkip =
      ((c.model? id).bind (ofSettings s).skip?).toList := by
  rw [events_upToLook_treePass]
  cases c.model? id with
  | none => rfl
  | some m =>
    have hskip : ((ofSettings s).skip? m).toList.filter Event.isSkip =
        ((ofSettings s).skip? m).toList := by
      rw [skip?]
      split <;> rfl
    have hfound : ∀ d : Diagnostic, d.event.isSkip = false := fun _ => rfl
    simp [events_upToLook_filePass, hskip, List.filter_flatMap, List.filter_map, Function.comp_def,
      hfound]

/-! ## The log of all files -/

/-- What is found at operations, kept or not. -/
def built (l : Linter) (xs : List (Site × FileModel × Operation)) : List Diagnostic :=
  xs.filterMap fun x => Detector.finding? l.rule x.2.1 x.2.2

/-- Before look `k` the first `k` conversions that are met are processed. -/
theorem filter_isFinding_events (s : Settings) (c : Compilation) (listed : List TreeId) (k : Nat) :
    (Pass.upToLook k (listed.flatMap ((ofSettings s).treePass c))).events.filter Event.isFinding =
      ((ofSettings s).built (((ofSettings s).met c listed).take k)).map Diagnostic.event := by
  rw [Pass.filter_events_upToLook (fun id _ => looks_treePass _ c id)
    (fun id _ k => filter_isFinding_events_treePass id k), ← map_snd_met, ← List.map_take,
    List.flatMap_map, built, List.filterMap_eq_flatMap_toList, List.map_flatMap]

/-- Before look `k` the files are reached before which no more than `k` conversions are met. -/
theorem filter_isSkip_events (s : Settings) (c : Compilation) (listed : List TreeId) (k : Nat) :
    (Pass.upToLook k (listed.flatMap ((ofSettings s).treePass c))).events.filter Event.isSkip =
      ((List.range listed.length).filter fun j =>
        ((ofSettings s).met c (listed.take j)).length ≤ k).filterMap
          fun j => (listed[j]?.bind c.model?).bind (ofSettings s).skip? := by
  rw [Pass.filter_events_upToLook_range fun id _ k => filter_isSkip_events_treePass id k]
  simp only [looks_flatMap_treePass, Option.bind_assoc]

theorem unannounced_pass (s : Settings) (c : Compilation) (listed : List TreeId) :
    Pass.Unannounced (listed.flatMap ((ofSettings s).treePass c)) := by
  have hconversion : ∀ kept m op, Pass.Unannounced ((ofSettings s).conversionActions kept m op) := by
    intro kept m op e he
    have hlooks := Detector.looks_actions (ofSettings s).rule kept m op
    rw [conversionActions, if_pos (wants_ofSettings s _)] at he
    rcases List.mem_cons.1 he with he | he
    · cases he
    · exact List.countP_eq_zero.1 hlooks _ he rfl
  intro e he
  obtain ⟨id, -, he⟩ := List.mem_flatMap.1 he
  rw [treePass] at he
  cases hm : c.model? id with
  | none => simp [hm] at he
  | some m =>
    by_cases hv : (ofSettings s).registration.visits m.tree.isGenerated = true
    · simp only [hm, filePass_of_visits hv, List.mem_cons, reduceCtorEq, false_or] at he
      obtain ⟨op, -, he⟩ := List.mem_flatMap.1 he
      exact hconversion _ m op e he
    · simp [hm, filePass_of_not_visits hv] at he

end Linter

end BoxLint
