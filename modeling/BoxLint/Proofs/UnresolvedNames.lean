import BoxLint.Proofs.DisplayNames

/-!
# The names of unresolved types

That a type did not resolve is said twice: by a flag, and by the hash that is kept for such types.
Keywords are looked up by hash alone. No framework type has the hash of unresolved types, so a type
with that hash is shown by name (`TypeInfo.shownByName_of_hash`), whatever its name and its other
flags. But a type may carry the flag together with the hash of a framework type, and then it is
shown by that type's keyword like any other (`TypeInfo.shownByName_iff_of_isError`).
-/

namespace BoxLint

namespace Keyword

theorem ofName_ne_unresolved : ∀ e ∈ entries, TypeHash.ofName e.name ≠ .unresolved := by
  decide +kernel

theorem not_spells_unresolved (dialect : Dialect) (keyword : String) :
    ¬ Spells dialect keyword .unresolved := by
  rintro ⟨e, he, hhash, -⟩
  exact ofName_ne_unresolved e he hhash

end Keyword

namespace TypeInfo

variable {dialect : Dialect} {t : TypeInfo}

/-- The type has no keyword in the dialect, and every file with the keywords of the dialect shows it
by its qualified or its simple name. -/
structure ShownByName (dialect : Dialect) (t : TypeInfo) : Prop where
  no_keyword : Keyword.ofType? dialect t = none
  displayName_eq : ∀ (m : FileModel) (line : Nat), m.keywords = dialect →
    m.displayName t line = t.name ∨ m.displayName t line = t.simpleName

theorem shownByName_iff :
    t.ShownByName dialect ↔ ∀ k, ¬ Keyword.Spells dialect k t.hash := by
  constructor
  · intro h
    exact Keyword.ofType?_eq_none_iff.1 h.no_keyword
  · intro hk
    refine ⟨Keyword.ofType?_eq_none_iff.2 hk, ?_⟩
    rintro m line rfl
    exact FileModel.displayName_eq_or_of_not_spells hk

theorem shownByName_of_hash (h : t.hash = .unresolved) : t.ShownByName dialect := by
  rw [shownByName_iff, h]
  exact Keyword.not_spells_unresolved dialect

/-- **Which unresolved types are shown by name.** An unresolved type is shown by name exactly if it
does not carry the hash of a framework type with a keyword in the dialect; so are all that carry
the hash kept for unresolved types. The others have that keyword and are shown by it in every file
with the keywords of the dialect, whatever the file imports. -/
theorem shownByName_iff_of_isError (dialect : Dialect) :
    (∀ t : TypeInfo, t.isError = true →
      (t.ShownByName dialect ↔ ∀ k, ¬ Keyword.Spells dialect k t.hash)) ∧
    (∀ t : TypeInfo, t.isError = true → t.hash = .unresolved → t.ShownByName dialect) ∧
    ∀ (t : TypeInfo) (k : String), t.isError = true → Keyword.Spells dialect k t.hash →
      Keyword.ofType? dialect t = some k ∧
        ∀ (m : FileModel) (line : Nat), m.keywords = dialect → m.displayName t line = k := by
  refine ⟨fun t _ => shownByName_iff, fun t _ h => shownByName_of_hash h, fun t k _ hk => ?_⟩
  refine ⟨Keyword.ofType?_eq_some_iff.2 hk, ?_⟩
  rintro m line rfl
  exact FileModel.displayName_of_spells hk

/-! ## An integer type that did not resolve -/

namespace MissingInt

/-- A type that a host could not resolve and described with its name and the flag for it. -/
def flagged : TypeInfo := .ofFlags "System.Int32" ⟨false, false, false, true⟩

def file : FileModel := .ofTree (Tree.empty 0 "Test0.cs" .csharp)

theorem spells_flagged : Keyword.Spells .csharp "int" flagged.hash :=
  ⟨⟨"System.Int32", some "int", "Integer"⟩, by simp [Keyword.entries], rfl, rfl⟩

/-- Of two descriptions of the type one is shown by name and the other by the keyword. -/
theorem shownByName_iff_of_isError_int :
    (unresolved "System.Int32").isError = true ∧
      (unresolved "System.Int32").hash = .unresolved ∧
      (unresolved "System.Int32").ShownByName .csharp ∧
      flagged.isError = true ∧ ¬ flagged.ShownByName .csharp ∧
      file.displayName flagged 6 = "int" := by
  obtain ⟨hiff, hreserved, hspelled⟩ := shownByName_iff_of_isError .csharp
  refine ⟨rfl, rfl, hreserved _ rfl rfl, rfl, fun h => ?_, ?_⟩
  · exact (hiff flagged rfl).1 h "int" spells_flagged
  · exact (hspelled flagged "int" rfl spells_flagged).2 file 6 rfl

/-- A type that did not resolve has a keyword, and it is shown by neither of its names. -/
theorem keyword_of_flagged :
    flagged.isError = true ∧ Keyword.ofType? .csharp flagged = some "int" ∧
      file.keywords = .csharp ∧ file.displayName flagged 6 ≠ flagged.name ∧
      file.displayName flagged 6 ≠ flagged.simpleName := by
  decide +kernel

end MissingInt

end TypeInfo

end BoxLint
