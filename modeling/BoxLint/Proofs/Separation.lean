import BoxLint.Proofs.Building
import BoxLint.Proofs.Suppression

/-!
# Files do not interfere

What is found in a file depends on that file alone, and of its number it shows only in the
locations (`Linter.foundIn_renumbered`). Where the files carry their own numbers a file that is
added has the highest, so that sorting leaves what is found there behind the rest
(`Linter.sorted_found_append`). The suppressor asks for no model but those of the files in which its
diagnostics lie (`Suppressor.pass_congr`), so diagnostics in other files are suppressed as before.
-/

namespace BoxLint

/-- The diagnostic at the same span of another tree. -/
def Diagnostic.inTree (d : Diagnostic) (id : TreeId) : Diagnostic :=
  { d with location := .inTree id d.location.span }

/-- Within one tree the spans decide the order. -/
theorem Location.precedes_eq_span_le {a b : Location} (h : a.tree = b.tree) :
    a.precedes b = decide (a.span ≤ b.span) := by
  unfold precedes
  rw [h]
  cases b.tree <;> simp

namespace Linter

variable {s : Settings} {l : Linter}

/-! ## One file -/

theorem displayName_renumbered (m : FileModel) (id : TreeId) :
    (m.renumbered id).displayName = m.displayName :=
  FileModel.displayName_congr rfl rfl

theorem diagnostic_renumbered (rule : EffectiveRule) (m : FileModel) (id : TreeId) (op : Operation)
    (source target : TypeInfo) :
    Detector.diagnostic rule (m.renumbered id) op source target =
      (Detector.diagnostic rule m op source target).inTree id := by
  simp only [Detector.diagnostic, Diagnostic.ofTemplate, displayName_renumbered]
  rfl

theorem keptFinding?_renumbered (m : FileModel) (id : TreeId) (op : Operation) :
    l.keptFinding? (m.renumbered id) op = (l.keptFinding? m op).map (·.inTree id) := by
  have hfinding : Detector.finding? l.rule (m.renumbered id) op =
      (Detector.finding? l.rule m op).map (·.inTree id) := by
    unfold Detector.finding?
    split
    · cases op.operandType? <;> cases op.binding.type <;> simp [diagnostic_renumbered]
    · rfl
  have hgenerated : (m.renumbered id).tree.isGenerated = m.tree.isGenerated := rfl
  rw [keptFinding?, keptFinding?, hgenerated, hfinding]
  split <;> rfl

theorem foundIn_renumbered (m : FileModel) (id : TreeId) :
    l.foundIn (m.renumbered id) = (l.foundIn m).map (·.inTree id) := by
  have hoperations : (m.renumbered id).operations = m.operations := rfl
  rw [foundIn, foundIn, hoperations, List.map_filterMap]
  congr 1
  funext op
  exact keptFinding?_renumbered m id op

theorem tree_of_mem_foundIn {m : FileModel} {d : Diagnostic} (hd : d ∈ l.foundIn m) :
    d.location.tree = some m.tree.id := by
  obtain ⟨op, -, hop⟩ := List.mem_filterMap.1 hd
  obtain ⟨-, hfinding⟩ := Option.ite_none_right_eq_some.1 hop
  obtain ⟨-, -, source, target, -, -, rfl⟩ := Detector.finding?_eq_some_iff.1 hfinding
  rfl

/-- The order within one file does not depend on its number. -/
theorem sorted_foundIn_renumbered (m : FileModel) (id : TreeId) :
    Diagnostic.sorted (l.foundIn (m.renumbered id)) =
      (Diagnostic.sorted (l.foundIn m)).map (·.inTree id) := by
  rw [foundIn_renumbered]
  refine Diagnostic.sorted_map fun a ha b hb => ?_
  have htree := (tree_of_mem_foundIn ha).trans (tree_of_mem_foundIn hb).symm
  have htree' : (a.inTree id).location.tree = (b.inTree id).location.tree := rfl
  rw [Location.precedes_eq_span_le htree, Location.precedes_eq_span_le htree']
  rfl

/-! ## One file more -/

theorem found_append (c : Compilation) (m : FileModel) :
    (ofSettings s).found (c.append m) (c.append m).treeIds =
      (ofSettings s).found c c.treeIds ++ (ofSettings s).foundIn m := by
  rw [found_eq_flatMap, found_eq_flatMap, Compilation.treeIds_append, List.flatMap_append]
  congr 1
  · refine List.flatMap_congr fun k hk => ?_
    have hk : k ≠ c.files.length := Nat.ne_of_lt (List.mem_range.1 hk)
    rw [Compilation.model?_append, if_neg hk]
  · simp [Compilation.model?_append]

theorem found_append_last (c : Compilation) (m : FileModel) :
    (ofSettings s).found (c.append m) [c.files.length] = (ofSettings s).foundIn m := by
  simp [found_eq_flatMap, Compilation.model?_append]

theorem exists_tree_of_mem_found {c : Compilation} (hc : c.Numbered) {d : Diagnostic}
    (hd : d ∈ (ofSettings s).found c c.treeIds) :
    ∃ k, k < c.files.length ∧ d.location.tree = some k := by
  rw [found_eq_flatMap] at hd
  obtain ⟨k, hk, hd⟩ := List.mem_flatMap.1 hd
  obtain ⟨m, hm, hd⟩ := List.mem_flatMap.1 hd
  refine ⟨k, List.mem_range.1 hk, ?_⟩
  rw [tree_of_mem_foundIn hd, hc k m (Option.mem_toList.1 hm)]

/-- The new file has the highest number, so its diagnostics come last. -/
theorem sorted_found_append {c : Compilation} (hc : c.Numbered) {m : FileModel}
    (hm : m.tree.id = c.files.length) :
    Diagnostic.sorted ((ofSettings s).found (c.append m) (c.append m).treeIds) =
      Diagnostic.sorted ((ofSettings s).found c c.treeIds) ++
        Diagnostic.sorted ((ofSettings s).foundIn m) := by
  rw [found_append]
  refine Diagnostic.sorted_append fun a ha b hb => ?_
  obtain ⟨k, hk, htree⟩ := exists_tree_of_mem_found hc ha
  rw [← Location.precedes_iff]
  simp [Location.precedes, htree, tree_of_mem_foundIn hb, hm, hk]

/-- What an analysis of one file gives that nothing stops. -/
def reportOf (l : Linter) (m : FileModel) : List Diagnostic :=
  if l.rule.enabled then Diagnostic.sorted (l.foundIn m) else []

theorem pairwise_reportOf (m : FileModel) :
    (l.reportOf m).Pairwise fun a b => a.location.key ≤ b.location.key := by
  unfold reportOf
  split
  · exact Diagnostic.pairwise_sorted _
  · exact .nil

theorem tree_of_mem_reportOf {m : FileModel} {d : Diagnostic} (hd : d ∈ l.reportOf m) :
    d.location.tree = some m.tree.id := by
  unfold reportOf at hd
  split at hd
  · exact tree_of_mem_foundIn ((Diagnostic.sorted_perm _).mem_iff.1 hd)
  · exact absurd hd List.not_mem_nil

theorem reportOf_renumbered (m : FileModel) (id : TreeId) :
    l.reportOf (m.renumbered id) = (l.reportOf m).map (·.inTree id) := by
  unfold reportOf
  split
  · exact sorted_foundIn_renumbered m id
  · rfl

variable {σ : Type} {h : Host σ} {st : σ}

theorem analyze_append (hd : h.StaysDown st) {c : Compilation} (hc : c.Numbered) {m : FileModel}
    (hm : m.tree.id = c.files.length) :
    ∃ before, ((ofSettings s).analyze h st c c.treeIds).result = .ok before ∧
      ((ofSettings s).analyze h st (c.append m) (c.append m).treeIds).result =
        .ok (before ++ (ofSettings s).reportOf m) := by
  refine ⟨_, analyze_of_staysDown hd c c.treeIds, ?_⟩
  rw [analyze_of_staysDown hd, sorted_found_append hc hm, reportOf]
  split <;> simp

theorem analyze_append_last (hd : h.StaysDown st) (c : Compilation) (m : FileModel) :
    ((ofSettings s).analyze h st (c.append m) [c.files.length]).result =
      .ok ((ofSettings s).reportOf m) := by
  rw [analyze_of_staysDown hd, found_append_last, reportOf]

end Linter

/-- What is done about a batch depends on the models of the files in which it lies. -/
theorem Suppressor.pass_congr {c c' : Compilation} {ds : List Diagnostic}
    (h : ∀ d ∈ ds, ∀ t, d.location.tree = some t → c.model? t = c'.model? t) :
    pass c ds = pass c' ds := by
  refine List.flatMap_congr fun d hd => ?_
  unfold actions
  cases ht : d.location.tree with
  | none => rfl
  | some t => simp only [h d hd t ht]

theorem suppress_append {σ : Type} {h : Host σ} {st : σ} {l : Linter} {c : Compilation}
    {m : FileModel} {reported : List Diagnostic}
    (hr : ∀ d ∈ reported, d.location.tree ≠ some c.files.length) :
    l.suppress h st (c.append m) reported = l.suppress h st c reported := by
  have hpass : Suppressor.pass (c.append m) (Linter.candidates reported) =
      Suppressor.pass c (Linter.candidates reported) := by
    refine Suppressor.pass_congr fun d hd t ht => ?_
    rw [Compilation.model?_append, if_neg]
    rintro rfl
    exact hr d (List.mem_filter.1 hd).1 ht
  rw [Linter.suppress, Linter.suppress, hpass]

/-- **A new file leaves the others alone.** Build a compilation by any steps, then add a file and
edit it in any way. If the signal stays down, an analysis gives the diagnostics from before,
followed by those of the new file in their order. These lie in the new file, and up to its number
they are what the file gives by itself. Diagnostics outside the new file are suppressed as they were
before. -/
theorem analyze_withFile {σ : Type} {h : Host σ} {st : σ} (hd : h.StaysDown st) (s : Settings)
    (steps : List BuildStep) (path : String) (dialect : Dialect) (edits : List FileEdit) :
    ∃ before new alone : List Diagnostic,
      ((Linter.ofSettings s).analyze h st (.build steps)
        (Compilation.build steps).treeIds).result = .ok before ∧
      ((Linter.ofSettings s).analyze h st (.withFile steps path dialect edits)
        (Compilation.withFile steps path dialect edits).treeIds).result = .ok (before ++ new) ∧
      ((Linter.ofSettings s).analyze h st (.withFile steps path dialect edits)
        [(Compilation.build steps).files.length]).result = .ok new ∧
      new.Pairwise (fun a b => a.location.key ≤ b.location.key) ∧
      (∀ d ∈ new, d.location.tree = some (Compilation.build steps).files.length) ∧
      ((Linter.ofSettings s).analyze h st (.withFile [] path dialect edits)
        (Compilation.withFile [] path dialect edits).treeIds).result = .ok alone ∧
      new = alone.map (·.inTree (Compilation.build steps).files.length) ∧
      ∀ reported : List Diagnostic,
        (∀ d ∈ reported, d.location.tree ≠ some (Compilation.build steps).files.length) →
        ((Linter.ofSettings s).suppress h st (.withFile steps path dialect edits)
            reported).result =
          ((Linter.ofSettings s).suppress h st (.build steps) reported).result := by
  have hid : ((FileModel.ofTree (Tree.empty (Compilation.build steps).files.length path
      dialect)).edited edits).tree.id = (Compilation.build steps).files.length :=
    FileModel.id_edited _ _
  obtain ⟨before, hbefore, hafter⟩ :=
    Linter.analyze_append (s := s) hd (Compilation.numbered_build steps) hid
  rw [Compilation.withFile_eq, Compilation.withFile_eq]
  refine ⟨before, _, _, hbefore, hafter, Linter.analyze_append_last hd _ _,
    Linter.pairwise_reportOf _, fun d hnew => ?_, Linter.analyze_append_last hd (.build []) _, ?_,
    fun reported hr => congrArg Report.result (suppress_append hr)⟩
  · exact (Linter.tree_of_mem_reportOf hnew).trans (congrArg some hid)
  · -- by itself the file has number 0, and the same edits make it the same file but for that
    rw [← Linter.reportOf_renumbered, ← FileModel.edited_renumbered]
    rfl

namespace NestedBoxing

/-- The steps that build one file with the two conversions. -/
def steps : List BuildStep := [.addTree "Test0.cs" .csharp, .edit 0 (.root call)]

/-- A second file in which an argument is boxed adds one diagnostic, and a redundant cast in the
first file is judged as before. -/
theorem analyze_withFile_argument :
    Host.quiet.StaysDown () ∧
      ∃ before new alone : List Diagnostic,
        ((Linter.ofSettings Settings.default).analyze Host.quiet () (.build steps)
          [0]).result = .ok before ∧
        ((Linter.ofSettings Settings.default).analyze Host.quiet ()
          (.withFile steps "Test1.cs" .csharp [.root argument]) [0, 1]).result =
            .ok (before ++ new) ∧
        ((Linter.ofSettings Settings.default).analyze Host.quiet ()
          (.withFile [] "Test1.cs" .csharp [.root argument]) [0]).result = .ok alone ∧
        alone.length = 1 ∧ new = alone.map (·.inTree 1) ∧
        (∀ d ∈ [ObjectCast.redundant 0], d.location.tree ≠ some 1) ∧
        ((Linter.ofSettings Settings.default).suppress Host.quiet ()
            (.withFile steps "Test1.cs" .csharp [.root argument]) [ObjectCast.redundant 0]).result =
          ((Linter.ofSettings Settings.default).suppress Host.quiet () (.build steps)
            [ObjectCast.redundant 0]).result := by
  obtain ⟨before, new, alone, hbefore, hafter, -, -, -, halone, hnew, hsuppress⟩ :=
    analyze_withFile Host.staysDown_quiet Settings.default steps "Test1.cs" .csharp [.root argument]
  have hone : ∃ d, ((Linter.ofSettings Settings.default).analyze Host.quiet ()
      (.withFile [] "Test1.cs" .csharp [.root argument]) [0]).result = .ok [d] := by
    rw [Linter.analyze_of_staysDown Host.staysDown_quiet]
    exact ⟨_, congrArg Except.ok (List.mergeSort_singleton _)⟩
  obtain ⟨d, hd⟩ := hone
  have hsingle : alone = [d] := Except.ok.inj (halone.symm.trans hd)
  have hother : ∀ d ∈ [ObjectCast.redundant 0], d.location.tree ≠ some 1 := by decide
  exact ⟨Host.staysDown_quiet, before, new, alone, hbefore, hafter, halone,
    congrArg List.length hsingle, hnew, hother, hsuppress _ hother⟩

end NestedBoxing

end BoxLint
