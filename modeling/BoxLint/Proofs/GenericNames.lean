import BoxLint.Proofs.DisplayNames
import Mathlib.Data.List.Infix

/-!
# Generic names

The name of a generic type holds the names of its arguments in angle brackets (`GenericName`). Names
are cut at the last dot, wherever it stands. If there is none in the arguments, that is the dot in
front of the generic name, and the type is shortened like any other. Otherwise the last dot stands
between the brackets: what counts as the namespace has a bracket that is not closed
(`GenericName.not_balanced_of_isQualified`), no import brings such a namespace into scope, and the
type is shown by its qualified name (`GenericName.shortened_iff`).
-/

namespace BoxLint

open TypeInfo

/-! ## Angle brackets -/

namespace Text

/-- No angle bracket is closed before it is opened, and all are closed in the end. -/
structure Balanced (s : String) : Prop where
  count_le : ∀ before, before <+: s.toList → before.count '>' ≤ before.count '<'
  count_eq : s.toList.count '>' = s.toList.count '<'

theorem balanced_iff {s : String} :
    Balanced s ↔ (∀ before ∈ s.toList.inits, before.count '>' ≤ before.count '<') ∧
      s.toList.count '>' = s.toList.count '<' := by
  simp only [List.mem_inits]
  exact ⟨fun h => ⟨h.count_le, h.count_eq⟩, fun h => ⟨h.1, h.2⟩⟩

instance (s : String) : Decidable (Balanced s) := decidable_of_iff _ balanced_iff.symm

/-- There are no angle brackets. -/
def Bracketless (s : String) : Prop := '<' ∉ s.toList ∧ '>' ∉ s.toList

instance (s : String) : Decidable (Bracketless s) := inferInstanceAs (Decidable (_ ∧ _))

end Text

open Text

/-- The name of a generic type with its arguments. -/
structure GenericName where
  scope : String
  base : String
  args : String
  bracketless_scope : Bracketless scope := by decide +kernel
  bracketless_base : Bracketless base := by decide +kernel
  dotless_base : '.' ∉ base.toList := by decide +kernel
  balanced_args : Balanced args := by decide +kernel

namespace GenericName

variable {g : GenericName} {before after : String}

/-- The generic name with its arguments, without the namespace. -/
def short (g : GenericName) : String := g.base ++ "<" ++ g.args ++ ">"

/-- The qualified name. -/
def text (g : GenericName) : String := g.scope ++ "." ++ g.short

theorem toList_short (g : GenericName) :
    g.short.toList = g.base.toList ++ '<' :: g.args.toList ++ ['>'] := by
  simp [short]

/-- Without a dot in the arguments the last dot is the one before the generic name. -/
theorem dot_mem_short_iff : '.' ∈ g.short.toList ↔ '.' ∈ g.args.toList := by
  have hbase := g.dotless_base
  simp [toList_short, hbase]

theorem isQualified_text (h : '.' ∉ g.args.toList) : IsQualified g.text g.scope g.short :=
  ⟨rfl, fun hmem => h (dot_mem_short_iff.1 hmem)⟩

/-- Otherwise the last dot is that of the arguments. -/
theorem isQualified_text_of_args (h : IsQualified g.args before after) :
    IsQualified g.text (g.scope ++ "." ++ g.base ++ "<" ++ before) (after ++ ">") where
  name_eq := by
    rw [text, short, h.name_eq]
    simp only [String.append_assoc]
  dotless := by
    have hafter := h.dotless
    simp [hafter]

/-- Of what stands before that dot the bracket around the arguments is not closed. -/
theorem not_balanced_of_isQualified (h : IsQualified g.args before after) :
    ¬ Balanced (g.scope ++ "." ++ g.base ++ "<" ++ before) := by
  intro hbalanced
  have hbefore : before.toList.count '>' ≤ before.toList.count '<' := by
    refine g.balanced_args.count_le _ ?_
    rw [h.name_eq, String.toList_append, String.toList_append, List.append_assoc]
    exact List.prefix_append _ _
  have hscope := g.bracketless_scope
  have hbase := g.bracketless_base
  have hopened : (g.scope ++ "." ++ g.base ++ "<" ++ before).toList.count '<' =
      before.toList.count '<' + 1 := by
    simp [List.count_eq_zero.2 hscope.1, List.count_eq_zero.2 hbase.1]
  have hclosed : (g.scope ++ "." ++ g.base ++ "<" ++ before).toList.count '>' =
      before.toList.count '>' := by
    simp [List.count_eq_zero.2 hscope.2, List.count_eq_zero.2 hbase.2]
  have hcount := hbalanced.count_eq
  omega

/-! ## Generic types -/

section Shown

variable {t : TypeInfo} {m : FileModel} {line : Nat}

theorem simpleName_eq_iff (ht : t.name = g.text) :
    t.scope? = some g.scope ∧ t.simpleName = g.short ↔ '.' ∉ g.args.toList := by
  constructor
  · rintro ⟨-, hsimple⟩
    rw [← dot_mem_short_iff, ← hsimple]
    exact t.dotless_simpleName
  · intro hdots
    have hname : IsQualified t.name g.scope g.short := by
      rw [ht]
      exact isQualified_text hdots
    exact ⟨hname.scope?, hname.simpleName⟩

/-- With its namespace in scope the type is shown by the generic name, unless the arguments have a
dot. -/
theorem displayName_eq_short_iff (ht : t.name = g.text)
    (hk : ∀ k, ¬ Keyword.Spells m.keywords k t.hash) (hscope : m.InScope g.scope line) :
    m.displayName t line = g.short ↔ '.' ∉ g.args.toList := by
  constructor
  · intro h hdot
    rcases @FileModel.displayName_eq_or_of_not_spells m t line hk with hname | hname
    · -- the qualified name is longer
      have hlength := congrArg String.length (h.symm.trans (hname.trans ht))
      simp only [text, String.length_append] at hlength
      have hdot : ".".length = 1 := rfl
      omega
    · rw [← dot_mem_short_iff, ← h, hname] at hdot
      exact t.dotless_simpleName hdot
  · intro hdots
    obtain ⟨hname, hsimple⟩ := (simpleName_eq_iff ht).2 hdots
    rw [FileModel.displayName_of_inScope hk hname hscope, hsimple]

/-- With a dot in its arguments the type is shown by its qualified name wherever the names of
namespaces have their brackets balanced. -/
theorem displayName_eq_name (ht : t.name = g.text) (hdot : '.' ∈ g.args.toList)
    (hk : ∀ k, ¬ Keyword.Spells m.keywords k t.hash)
    (himports : ∀ i ∈ m.imports, Balanced i.scope) : m.displayName t line = t.name := by
  obtain ⟨before, after, hargs⟩ := exists_isQualified hdot
  have hname := isQualified_text_of_args hargs
  rw [← ht] at hname
  refine FileModel.displayName_of_not_inScope hk ?_
  rintro scope hscope ⟨i, hi, hbrings, -⟩
  obtain rfl := Option.some.inj (hname.scope?.symm.trans hscope)
  exact not_balanced_of_isQualified hargs (hbrings ▸ himports i hi)

end Shown

/-- **Which generic types are shortened.** A generic type has the namespace in front of its generic
name, and its simple name is the generic name with the arguments, exactly if there is no dot in the
arguments. Under the same condition it is shown by its simple name where the namespace is imported
and no keyword has its hash. With a dot in the arguments it is shown by its qualified name whatever
is imported, as long as the brackets are balanced in the names of the imported namespaces. -/
theorem shortened_iff (g : GenericName) {t : TypeInfo} (ht : t.name = g.text) :
    (t.scope? = some g.scope ∧ t.simpleName = g.short ↔ '.' ∉ g.args.toList) ∧
      ∀ (m : FileModel) (line : Nat), (∀ k, ¬ Keyword.Spells m.keywords k t.hash) →
        (m.InScope g.scope line → (m.displayName t line = g.short ↔ '.' ∉ g.args.toList)) ∧
        ('.' ∈ g.args.toList → (∀ i ∈ m.imports, Balanced i.scope) →
          m.displayName t line = t.name) := by
  refine ⟨simpleName_eq_iff ht, fun m line hk => ⟨?_, ?_⟩⟩
  · exact displayName_eq_short_iff ht hk
  · exact fun hdot => displayName_eq_name ht hdot hk

namespace ImportedCollections

/-- A list of pairs whose types are written by keywords. -/
def pairList : GenericName where
  scope := "System.Collections.Generic"
  base := "List"
  args := "KeyValuePair<int,string>"

/-- An optional integer whose type is written out. -/
def nullableInt : GenericName where
  scope := "System"
  base := "Nullable"
  args := "System.Int32"

/-- A file that imports both namespaces. -/
def file : FileModel :=
  ((FileModel.ofTree (Tree.empty 0 "Test0.cs" .csharp)).addImport ⟨"System", none⟩).addImport
    ⟨"System.Collections.Generic", some (1, 9)⟩

theorem not_spells {g : GenericName} (h : Keyword.ofType? .csharp (.value g.text) = none) :
    ∀ k, ¬ Keyword.Spells file.keywords k (TypeInfo.value g.text).hash :=
  Keyword.ofType?_eq_none_iff.1 h

/-- The list is shortened, and the optional integer is not. -/
theorem shortened_iff_imported :
    file.InScope pairList.scope 6 ∧ '.' ∉ pairList.args.toList ∧
      file.displayName (.value pairList.text) 6 = "List<KeyValuePair<int,string>>" ∧
      (∀ i ∈ file.imports, Balanced i.scope) ∧ '.' ∈ nullableInt.args.toList ∧
      file.displayName (.value nullableInt.text) 6 = "System.Nullable<System.Int32>" := by
  have hlist : file.InScope pairList.scope 6 ∧ '.' ∉ pairList.args.toList ∧
      Keyword.ofType? .csharp (.value pairList.text) = none := by decide +kernel
  have hint : (∀ i ∈ file.imports, Balanced i.scope) ∧ '.' ∈ nullableInt.args.toList ∧
      Keyword.ofType? .csharp (.value nullableInt.text) = none := by decide +kernel
  obtain ⟨-, hshown⟩ := shortened_iff pairList (t := .value pairList.text) rfl
  obtain ⟨-, hshown'⟩ := shortened_iff nullableInt (t := .value nullableInt.text) rfl
  refine ⟨hlist.1, hlist.2.1, ?_, hint.1, hint.2.1, ?_⟩
  · exact ((hshown file 6 (not_spells hlist.2.2)).1 hlist.1).2 hlist.2.1
  · exact (hshown' file 6 (not_spells hint.2.2)).2 hint.2.1 hint.1

/-- The dot in the argument is taken for the end of the namespace, and the type is not shortened
where its namespace is imported. -/
theorem nullableInt_not_shortened :
    Keyword.ofType? file.keywords (.value nullableInt.text) = none ∧
      file.InScope nullableInt.scope 6 ∧
      (TypeInfo.value nullableInt.text).scope? = some "System.Nullable<System" ∧
      (TypeInfo.value nullableInt.text).simpleName = "Int32>" ∧
      file.displayName (.value nullableInt.text) 6 ≠ nullableInt.short := by
  decide +kernel

end ImportedCollections

end GenericName

end BoxLint
