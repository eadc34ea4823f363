import BoxLint.Proofs.Separation

/-!
# Generated files

Settings treat generated files in one of three ways: these files are not looked at, or analyzed
without a report, or analyzed like any others. An analysis takes another way through the files each
time, but what it finds differs only in the files that were generated (`Linter.foundIn_treating`).
Where the files carry their own numbers a diagnostic shows by its location whether its file was
generated (`InGenerated`), so the three reports are one report, with or without the diagnostics in
generated files.
-/

namespace BoxLint

/-- The settings with another treatment of generated code. -/
def Settings.treating (s : Settings) (g : GeneratedCode) : Settings := { s with generatedCode := g }

/-- The diagnostic lies in a file that was generated. -/
def InGenerated (c : Compilation) (d : Diagnostic) : Prop :=
  ∃ k m, d.location.tree = some k ∧ c.model? k = some m ∧ m.tree.isGenerated = true

theorem any_isGenerated_iff {c : Compilation} {d : Diagnostic} :
    (d.location.tree.bind c.model?).any (·.tree.isGenerated) = true ↔ InGenerated c d := by
  simp only [InGenerated, Option.any_eq_true, Option.bind_eq_some_iff]
  constructor
  · rintro ⟨m, ⟨k, hk, hm⟩, hg⟩
    exact ⟨k, m, hk, hm, hg⟩
  · rintro ⟨k, m, hk, hm, hg⟩
    exact ⟨m, ⟨k, hk, hm⟩, hg⟩

instance (c : Compilation) (d : Diagnostic) : Decidable (InGenerated c d) :=
  decidable_of_iff _ any_isGenerated_iff

namespace Linter

variable {s : Settings} {l : Linter} {g : GeneratedCode} {c : Compilation}

/-! ## One file -/

/-- Without a report nothing is found in generated files, and the others are as they were. -/
theorem foundIn_treating (hg : g ≠ .report) (m : FileModel) :
    (ofSettings (s.treating g)).foundIn m =
      if m.tree.isGenerated then [] else (ofSettings (s.treating .report)).foundIn m := by
  have hreport : (ofSettings (s.treating .report)).registration.reports m.tree.isGenerated = true :=
    (reports_ofSettings _ _).2 fun _ => rfl
  cases hm : m.tree.isGenerated with
  | false =>
    have hkept : (ofSettings (s.treating g)).registration.reports m.tree.isGenerated = true := by
      rw [hm]
      rfl
    have hsame : ∀ op, (ofSettings (s.treating g)).keptFinding? m op =
        (ofSettings (s.treating .report)).keptFinding? m op := by
      intro op
      rw [keptFinding?, keptFinding?, if_pos hkept, if_pos hreport]
      rfl
    rw [if_neg Bool.false_ne_true, foundIn, foundIn, funext hsame]
  | true =>
    have hkept : ¬ (ofSettings (s.treating g)).registration.reports m.tree.isGenerated = true :=
      fun h => hg ((reports_ofSettings _ _).1 h hm)
    have hnone : ∀ op, (ofSettings (s.treating g)).keptFinding? m op = none :=
      fun op => if_neg hkept
    rw [if_pos rfl, foundIn]
    simp [hnone]

/-- A file that carries its own number is the one in which its diagnostics lie. -/
theorem inGenerated_iff_of_mem_foundIn (hc : c.Numbered) {k : TreeId} {m : FileModel}
    (hm : c.model? k = some m) {d : Diagnostic} (hd : d ∈ l.foundIn m) :
    InGenerated c d ↔ m.tree.isGenerated = true := by
  have htree : d.location.tree = some k := by rw [tree_of_mem_foundIn hd, hc k m hm]
  constructor
  · rintro ⟨k', m', hk', hm', hg⟩
    obtain rfl : k = k' := Option.some.inj (htree.symm.trans hk')
    obtain rfl : m = m' := Option.some.inj (hm.symm.trans hm')
    exact hg
  · intro hg
    exact ⟨k, m, htree, hm, hg⟩

theorem filter_foundIn (hc : c.Numbered) {k : TreeId} {m : FileModel} (hm : c.model? k = some m) :
    (l.foundIn m).filter (¬ InGenerated c ·) =
      if m.tree.isGenerated then [] else l.foundIn m := by
  have hiff : ∀ d ∈ l.foundIn m, InGenerated c d ↔ m.tree.isGenerated = true :=
    fun d hd => inGenerated_iff_of_mem_foundIn hc hm hd
  split
  · next hg =>
    rw [List.filter_eq_nil_iff]
    intro d hd
    simp [(hiff d hd).2 hg]
  · next hg =>
    rw [List.filter_eq_self]
    intro d hd
    simp [hiff d hd, hg]

/-! ## All files -/

theorem found_treating (hc : c.Numbered) (hg : g ≠ .report) (listed : List TreeId) :
    (ofSettings (s.treating g)).found c listed =
      ((ofSettings (s.treating .report)).found c listed).filter (¬ InGenerated c ·) := by
  rw [found_eq_flatMap, found_eq_flatMap, List.filter_flatMap]
  refine List.flatMap_congr fun k _ => ?_
  rw [List.filter_flatMap]
  refine List.flatMap_congr fun m hm => ?_
  rw [foundIn_treating hg, filter_foundIn hc (Option.mem_toList.1 hm)]

theorem analyze_treating {σ : Type} {h : Host σ} {st : σ} (hd : h.StaysDown st) (hc : c.Numbered)
    {listed : List TreeId} {all : List Diagnostic}
    (hall : ((ofSettings (s.treating .report)).analyze h st c listed).result = .ok all)
    (hg : g ≠ .report) :
    ((ofSettings (s.treating g)).analyze h st c listed).result =
      .ok (all.filter (¬ InGenerated c ·)) := by
  have hrule : (ofSettings (s.treating g)).rule = (ofSettings (s.treating .report)).rule := rfl
  rw [eq_of_analyze_eq_ok hall, analyze_of_staysDown hd, found_treating hc hg, hrule,
    Diagnostic.sorted_filter]
  split <;> rfl

end Linter

/-- **The treatments of generated code give one report.** Let each file's tree carry the number of
the file and let the signal stay down. Settings that differ only in how they treat generated code
give these reports: one of all files, and, whether generated files are skipped or analyzed without
a report, the same without the diagnostics in generated files, the others in their order. -/
theorem analyze_generatedCode {σ : Type} {h : Host σ} {st : σ} (hd : h.StaysDown st)
    {c : Compilation} (hc : c.Numbered) (s : Settings) (listed : List TreeId) :
    ∃ all : List Diagnostic,
      ((Linter.ofSettings (s.treating .report)).analyze h st c listed).result = .ok all ∧
      ((Linter.ofSettings (s.treating .skip)).analyze h st c listed).result =
        .ok (all.filter (¬ InGenerated c ·)) ∧
      ((Linter.ofSettings (s.treating .analyze)).analyze h st c listed).result =
        .ok (all.filter (¬ InGenerated c ·)) := by
  have hall := @Linter.analyze_of_staysDown (s.treating .report) σ h st hd c listed
  exact ⟨_, hall, Linter.analyze_treating hd hc hall (by decide),
    Linter.analyze_treating hd hc hall (by decide)⟩

namespace NestedBoxing

/-- A generated file with the two conversions, before one that a user wrote. -/
def withDesigner : Compilation :=
  .build [.addTree "Form.Designer.cs" .csharp, .edit 0 (.root call), .addTree "Test1.cs" .csharp,
    .edit 1 (.root argument)]

/-- All three conversions are reported, or only the one outside the generated file. -/
theorem analyze_generatedCode_designer :
    Host.quiet.StaysDown () ∧ withDesigner.Numbered ∧
      ∃ all kept : List Diagnostic,
        ((Linter.ofSettings (Settings.default.treating .report)).analyze Host.quiet () withDesigner
          [0, 1]).result = .ok all ∧
        ((Linter.ofSettings (Settings.default.treating .skip)).analyze Host.quiet () withDesigner
          [0, 1]).result = .ok kept ∧
        ((Linter.ofSettings (Settings.default.treating .analyze)).analyze Host.quiet () withDesigner
          [0, 1]).result = .ok kept ∧
        kept = all.filter (¬ InGenerated withDesigner ·) ∧ all.length = 3 ∧ kept.length = 1 := by
  have hnumbered : withDesigner.Numbered := Compilation.numbered_build _
  obtain ⟨all, hall, hskip, hanalyze⟩ :=
    analyze_generatedCode Host.staysDown_quiet hnumbered Settings.default [0, 1]
  refine ⟨Host.staysDown_quiet, hnumbered, all, _, hall, hskip, hanalyze, rfl, ?_, ?_⟩
  · rw [Linter.eq_of_analyze_eq_ok hall]
    exact (Diagnostic.sorted_perm _).length_eq
  · rw [Linter.eq_of_analyze_eq_ok hskip]
    exact (Diagnostic.sorted_perm _).length_eq

end NestedBoxing

end BoxLint
