import BoxLint.Syntax.Generated
import Mathlib.Data.List.Forall2

/-!
# The names of generated files

Whether a path names a generated file is told by its file name alone, the text behind the last slash
or backslash (`Generated.IsFileName`), and there the case of ASCII letters does not count
(`Generated.SameLetter`). Case is a matter of the 52 ASCII letters: to lower a text
(`Generated.Lowers`) replaces the 26 capitals and leaves all other characters as they are, those
beyond ASCII among them.
-/

namespace BoxLint.Generated

/-! ## File names -/

/-- The name of a file is what stands behind the last separator of its path, and the whole path if
there is none. -/
def IsFileName (path name : List Char) : Prop :=
  (∀ c ∈ name, c ≠ '/' ∧ c ≠ '\\') ∧
    (path = name ∨ ∃ directory separator, (separator = '/' ∨ separator = '\\') ∧
      path = directory ++ separator :: name)

theorem isSeparator_iff {c : Char} : isSeparator c = true ↔ c = '/' ∨ c = '\\' := by
  simp [isSeparator]

theorem isSeparator_eq_false_iff {c : Char} : isSeparator c = false ↔ c ≠ '/' ∧ c ≠ '\\' := by
  simp [isSeparator]

theorem isFileName_fileName (path : List Char) : IsFileName path (fileName path) := by
  unfold fileName
  cases hcut : Text.cutLast? isSeparator path with
  | none =>
    refine ⟨fun c hc => ?_, .inl rfl⟩
    exact isSeparator_eq_false_iff.1 (Text.cutLast?_eq_none_iff.1 hcut c hc)
  | some cut =>
    obtain ⟨separator, hsep, hpath, hname⟩ := Text.cutLast?_eq_some_iff.1 hcut
    exact ⟨fun c hc => isSeparator_eq_false_iff.1 (hname c hc),
      .inr ⟨cut.1, separator, isSeparator_iff.1 hsep, hpath⟩⟩

theorem IsFileName.fileName_eq {path name : List Char} (h : IsFileName path name) :
    fileName path = name := by
  obtain ⟨hname, rfl | ⟨directory, separator, hsep, hpath⟩⟩ := h
  · have hcut : Text.cutLast? isSeparator path = none :=
      Text.cutLast?_eq_none_iff.2 fun c hc => isSeparator_eq_false_iff.2 (hname c hc)
    rw [fileName, hcut]
  · have hcut : Text.cutLast? isSeparator path = some (directory, name) :=
      Text.cutLast?_eq_some_iff.2 ⟨separator, isSeparator_iff.2 hsep, hpath,
        fun c hc => isSeparator_eq_false_iff.2 (hname c hc)⟩
    rw [fileName, hcut]

/-! ## The case of letters -/

/-- The first character is an ASCII capital and the second its small letter. -/
def IsCapitalOf (c d : Char) : Prop := 'A' ≤ c ∧ c ≤ 'Z' ∧ d.toNat = c.toNat + 32

/-- The second character is what becomes of the first in lower case. -/
def Lowers (c d : Char) : Prop := IsCapitalOf c d ∨ ¬ ('A' ≤ c ∧ c ≤ 'Z') ∧ d = c

/-- Two characters differ in their case at most. -/
def SameLetter (c d : Char) : Prop := c = d ∨ IsCapitalOf c d ∨ IsCapitalOf d c

theorem isCapital_iff {c : Char} : 'A' ≤ c ∧ c ≤ 'Z' ↔ 65 ≤ c.toNat ∧ c.toNat ≤ 90 := Iff.rfl

theorem toNat_toLower (c : Char) :
    c.toLower.toNat = if 'A' ≤ c ∧ c ≤ 'Z' then c.toNat + 32 else c.toNat := by
  have hval : 'A' ≤ c ∧ c ≤ 'Z' ↔ c.val ≥ 'A'.val ∧ c.val ≤ 'Z'.val := Iff.rfl
  by_cases hc : 'A' ≤ c ∧ c ≤ 'Z'
  · have hlower : c.toLower = ⟨c.val + 32, _⟩ := dif_pos (hval.1 hc)
    have hcode : c.val.toNat ≤ 90 := (isCapital_iff.1 hc).2
    rw [if_pos hc, hlower]
    change (c.val + 32).toNat = c.val.toNat + 32
    rw [UInt32.toNat_add]
    exact Nat.mod_eq_of_lt (Nat.lt_of_le_of_lt (Nat.add_le_add_right hcode 32) (by decide))
  · have hlower : c.toLower = c := dif_neg (hval.not.1 hc)
    rw [if_neg hc, hlower]

theorem lowers_iff {c d : Char} : Lowers c d ↔ c.toLower = d := by
  rw [← Char.toNat_inj, toNat_toLower, Lowers, IsCapitalOf]
  by_cases hc : 'A' ≤ c ∧ c ≤ 'Z'
  · rw [if_pos hc]
    simp [hc, eq_comm]
  · rw [if_neg hc, Char.toNat_inj]
    have hnot : ¬ ('A' ≤ c ∧ c ≤ 'Z' ∧ d.toNat = c.toNat + 32) := fun h => hc ⟨h.1, h.2.1⟩
    simp [hc, hnot, eq_comm]

theorem sameLetter_iff {c d : Char} : SameLetter c d ↔ c.toLower = d.toLower := by
  simp only [SameLetter, IsCapitalOf, ← Char.toNat_inj, toNat_toLower, ← and_assoc, isCapital_iff]
  split <;> split <;> omega

theorem forall₂_lowers_iff {name lower : List Char} :
    List.Forall₂ Lowers name lower ↔ name.map Char.toLower = lower := by
  have hlowers : Lowers = fun c d => c.toLower = d := by
    funext c d
    exact propext lowers_iff
  rw [hlowers, ← List.forall₂_map_left_iff (R := (· = ·)), List.forall₂_eq_eq_eq]

theorem forall₂_sameLetter_iff {name name' : List Char} :
    List.Forall₂ SameLetter name name' ↔ name.map Char.toLower = name'.map Char.toLower := by
  have hsame : SameLetter = fun c d => c.toLower = d.toLower := by
    funext c d
    exact propext sameLetter_iff
  rw [hsame, ← List.forall₂_eq_eq_eq, List.forall₂_map_left_iff, List.forall₂_map_right_iff]

/-- Beyond ASCII there is no lower case. -/
theorem toLower_of_le {c : Char} (hc : 128 ≤ c.toNat) : c.toLower = c := by
  have hnot : ¬ ('A' ≤ c ∧ c ≤ 'Z') := by
    rw [isCapital_iff]
    omega
  rw [← Char.toNat_inj, toNat_toLower, if_neg hnot]

/-! ## Recognition -/

/-- A name in lower case is one that tools give to the files they generate. -/
def IsGeneratedName (lower : List Char) : Prop :=
  "temporarygeneratedfile_".toList <+: lower ∨
    ∃ ending ∈ [".g.cs", ".g.i.cs", ".designer.cs", ".generated.cs", ".g.vb", ".g.i.vb",
      ".designer.vb", ".generated.vb"], ending.toList <:+ lower

theorem isGeneratedPath_iff {path : String} :
    isGeneratedPath path = true ↔
      IsGeneratedName ((fileName path.toList).map Char.toLower) := by
  rw [isGeneratedPath, Bool.or_eq_true, List.isPrefixOf_iff_prefix, List.any_eq_true,
    IsGeneratedName]
  simp only [List.isSuffixOf_iff_suffix]
  rfl

/-- **Generated files are recognized by their names, in any case.** Every path has one file name,
and this has one form in lower case, in which characters beyond ASCII stand as they were. The path
names a generated file exactly if that form begins or ends as the names of such files do. So paths
whose file names differ in the case of ASCII letters only are both recognized or both not, whatever
their directories and separators. -/
theorem isGeneratedPath_of_fileName :
    (∀ path : String, ∃ name lower,
      (∀ name', IsFileName path.toList name' ↔ name' = name) ∧
      (∀ lower', List.Forall₂ Lowers name lower' ↔ lower' = lower) ∧
      (∀ (i : Nat) (c : Char), name[i]? = some c → 128 ≤ c.toNat → lower[i]? = some c) ∧
      (isGeneratedPath path = true ↔ IsGeneratedName lower)) ∧
    ∀ (path path' : String) (name name' : List Char), IsFileName path.toList name →
      IsFileName path'.toList name' → List.Forall₂ SameLetter name name' →
      isGeneratedPath path = isGeneratedPath path' := by
  refine ⟨fun path => ?_, fun path path' name name' hname hname' hsame => ?_⟩
  · refine ⟨fileName path.toList, _, fun name' => ⟨fun h => h.fileName_eq.symm, ?_⟩,
      fun lower' => forall₂_lowers_iff.trans eq_comm, fun i c hi hc => ?_, isGeneratedPath_iff⟩
    · rintro rfl
      exact isFileName_fileName path.toList
    · rw [List.getElem?_map, hi, Option.map_some, toLower_of_le hc]
  · rw [Bool.eq_iff_iff, isGeneratedPath_iff, isGeneratedPath_iff, hname.fileName_eq,
      hname'.fileName_eq, forall₂_sameLetter_iff.1 hsame]

/-- Two paths that differ in their directories and in case both name generated files. A directory
with the name of a generated file counts for nothing. -/
theorem isGeneratedPath_of_fileName_designer :
    IsFileName "obj\\Gen/Ä.DESIGNER.vb".toList "Ä.DESIGNER.vb".toList ∧
      IsFileName "Ä.Designer.VB".toList "Ä.Designer.VB".toList ∧
      List.Forall₂ SameLetter "Ä.DESIGNER.vb".toList "Ä.Designer.VB".toList ∧
      isGeneratedPath "obj\\Gen/Ä.DESIGNER.vb" = isGeneratedPath "Ä.Designer.VB" ∧
      isGeneratedPath "Ä.Designer.VB" = true ∧
      isGeneratedPath "Ä.designer.vb\\Program.vb" = isGeneratedPath "program.VB" ∧
      isGeneratedPath "Ä.designer.vb/" = isGeneratedPath "" := by
  have hfile : IsFileName "obj\\Gen/Ä.DESIGNER.vb".toList "Ä.DESIGNER.vb".toList :=
    isFileName_fileName _
  have hbare : IsFileName "Ä.Designer.VB".toList "Ä.Designer.VB".toList := isFileName_fileName _
  have hsame : List.Forall₂ SameLetter "Ä.DESIGNER.vb".toList "Ä.Designer.VB".toList :=
    forall₂_sameLetter_iff.2 (by decide)
  obtain ⟨-, hagree⟩ := isGeneratedPath_of_fileName
  refine ⟨hfile, hbare, hsame, hagree _ _ _ _ hfile hbare hsame, by decide, ?_, ?_⟩
  · exact hagree _ _ "Program.vb".toList "program.VB".toList (isFileName_fileName _)
      (isFileName_fileName _) (forall₂_sameLetter_iff.2 (by decide))
  · exact hagree _ _ [] [] (isFileName_fileName _) (isFileName_fileName _) .nil

end BoxLint.Generated
