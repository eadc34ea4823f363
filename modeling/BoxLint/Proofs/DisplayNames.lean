import BoxLint.Proofs.BuildHistory
import Mathlib.Data.List.Nodup

/-!
# Display names

A type is shown by the keyword of its hash, or else by its simple name where its namespace is
imported, or else by its qualified name (`FileModel.IsName`). Keywords are found by hash; the
framework types have different hashes, so a hash has one keyword at most
(`Keyword.ofHash?_eq_some_iff`). The namespace and the simple name are what stands before and after
the last dot (`TypeInfo.parts?_eq_some_iff`). Of the imports it matters only which there are
(`FileModel.inScope_edited`): their order and repetitions change nothing, and one more can only
shorten a qualified name (`FileModel.namedByRule`).
-/

namespace BoxLint

/-! ## Keywords by hash -/

namespace Keyword

variable {dialect : Dialect} {keyword : String} {hash : TypeHash} {t : TypeInfo}

/-- The keyword spells the framework type with the hash. -/
def Spells (dialect : Dialect) (keyword : String) (hash : TypeHash) : Prop :=
  ∃ e ∈ entries, TypeHash.ofName e.name = hash ∧ e.keyword? dialect = some keyword

theorem nodup_hashes : (entries.map fun e => TypeHash.ofName e.name).Nodup := by decide +kernel

theorem ofHash?_eq_some_iff :
    ofHash? dialect hash = some keyword ↔ Spells dialect keyword hash := by
  have hspells : ∀ k, ofHash? dialect hash = some k → Spells dialect k hash := by
    intro k hk
    obtain ⟨e, he, hfound⟩ := List.exists_of_findSome?_eq_some hk
    obtain ⟨hhash, hkeyword⟩ := Option.ite_none_right_eq_some.1 hfound
    exact ⟨e, he, hhash, hkeyword⟩
  refine ⟨hspells keyword, ?_⟩
  rintro ⟨e, he, hhash, hkeyword⟩
  have hsome : (ofHash? dialect hash).isSome = true := by
    refine List.findSome?_isSome_iff.2 ⟨e, he, ?_⟩
    rw [if_pos hhash, hkeyword]
    rfl
  obtain ⟨k, hk⟩ := Option.isSome_iff_exists.1 hsome
  -- whatever entry the look-up met, it is the one with this hash
  obtain ⟨e', he', hhash', hkeyword'⟩ := hspells k hk
  obtain rfl : e = e' := List.inj_on_of_nodup_map nodup_hashes he he' (hhash.trans hhash'.symm)
  rw [hk, ← hkeyword', hkeyword]

theorem ofType?_eq_some_iff : ofType? dialect t = some keyword ↔ Spells dialect keyword t.hash :=
  ofHash?_eq_some_iff

theorem ofType?_eq_none_iff : ofType? dialect t = none ↔ ∀ k, ¬ Spells dialect k t.hash := by
  simp only [Option.eq_none_iff_forall_ne_some, ne_eq, ofType?_eq_some_iff]

end Keyword

/-! ## Namespaces and simple names -/

namespace TypeInfo

variable {t : TypeInfo} {name scope simple : String}

/-- The name is a namespace and a simple name with a dot between them, and no dot comes later. -/
structure IsQualified (name scope simple : String) : Prop where
  name_eq : name = scope ++ "." ++ simple
  dotless : '.' ∉ simple.toList

theorem parts?_eq_some_iff : t.parts? = some (scope, simple) ↔ IsQualified t.name scope simple := by
  have hname : t.name = scope ++ "." ++ simple ↔
      t.name.toList = scope.toList ++ '.' :: simple.toList := by
    rw [← String.toList_inj, String.toList_append, String.toList_append, List.append_assoc]
    rfl
  have hcut : Text.cutLast? (· == '.') t.name.toList = some (scope.toList, simple.toList) ↔
      IsQualified t.name scope simple := by
    rw [Text.cutLast?_eq_some_iff]
    constructor
    · rintro ⟨c, hc, heq, hdots⟩
      obtain rfl : c = '.' := by simpa using hc
      exact ⟨hname.2 heq, fun hmem => by simpa using hdots '.' hmem⟩
    · rintro ⟨heq, hdotless⟩
      refine ⟨'.', rfl, hname.1 heq, fun d hd => beq_false_of_ne ?_⟩
      rintro rfl
      exact hdotless hd
  rw [← hcut, parts?]
  constructor
  · intro h
    obtain ⟨⟨a, b⟩, hab, heq⟩ := Option.map_eq_some_iff.1 h
    obtain ⟨rfl, rfl⟩ := Prod.mk.inj heq
    rw [hab, String.toList_ofList, String.toList_ofList]
  · intro h
    rw [h, Option.map_some]
    exact congrArg some (Prod.ext String.ofList_toList String.ofList_toList)

theorem parts?_eq_none_iff : t.parts? = none ↔ '.' ∉ t.name.toList := by
  rw [parts?, Option.map_eq_none_iff, Text.cutLast?_eq_none_iff]
  constructor
  · intro h hmem
    simpa using h '.' hmem
  · rintro h c hc
    exact beq_false_of_ne fun heq => h (heq ▸ hc)

/-- A name with a dot has a last one. -/
theorem exists_isQualified (h : '.' ∈ name.toList) :
    ∃ scope simple, IsQualified name scope simple := by
  cases hparts : (unresolved name).parts? with
  | none => exact absurd h (parts?_eq_none_iff.1 hparts)
  | some r => exact ⟨r.1, r.2, parts?_eq_some_iff.1 hparts⟩

theorem scope?_eq_none_iff : t.scope? = none ↔ '.' ∉ t.name.toList := by
  rw [scope?, Option.map_eq_none_iff, parts?_eq_none_iff]

theorem IsQualified.scope? (h : IsQualified t.name scope simple) : t.scope? = some scope := by
  rw [TypeInfo.scope?, parts?_eq_some_iff.2 h]
  rfl

theorem IsQualified.simpleName (h : IsQualified t.name scope simple) : t.simpleName = simple := by
  rw [TypeInfo.simpleName, parts?_eq_some_iff.2 h]
  rfl

theorem isQualified_of_scope? (h : t.scope? = some scope) :
    IsQualified t.name scope t.simpleName := by
  obtain ⟨⟨a, b⟩, hab, rfl⟩ := Option.map_eq_some_iff.1 h
  have hq := parts?_eq_some_iff.1 hab
  rwa [hq.simpleName]

theorem simpleName_of_dotless (h : '.' ∉ t.name.toList) : t.simpleName = t.name := by
  rw [TypeInfo.simpleName, parts?_eq_none_iff.2 h]
  rfl

theorem dotless_simpleName (t : TypeInfo) : '.' ∉ t.simpleName.toList := by
  cases h : t.scope? with
  | none =>
    have hdotless := scope?_eq_none_iff.1 h
    rwa [simpleName_of_dotless hdotless]
  | some scope => exact (isQualified_of_scope? h).dotless

end TypeInfo

/-! ## Imports in scope -/

/-- The import brings a namespace into scope on a line: it is for the whole file, or the line is
one of its own. -/
def Import.Brings (i : Import) (scope : String) (line : Nat) : Prop :=
  i.scope = scope ∧ ∀ first last, i.lines = some (first, last) → first ≤ line ∧ line ≤ last

theorem Import.coversLine_iff {i : Import} {line : Nat} :
    i.coversLine line = true ↔
      ∀ first last, i.lines = some (first, last) → first ≤ line ∧ line ≤ last := by
  cases h : i.lines with
  | none => simp [coversLine, h]
  | some r =>
    obtain ⟨first, last⟩ := r
    simp [coversLine, h]

namespace FileModel

variable {m m' : FileModel} {t : TypeInfo} {line : Nat} {scope : String} {edits : List FileEdit}

/-- Some import brings the namespace into scope on the line. -/
def InScope (m : FileModel) (scope : String) (line : Nat) : Prop :=
  ∃ i ∈ m.imports, i.Brings scope line

theorem imported_iff : m.imported scope line = true ↔ m.InScope scope line := by
  simp only [imported, InScope, Import.Brings, List.any_eq_true, Bool.and_eq_true, beq_iff_eq,
    Import.coversLine_iff]

instance (m : FileModel) (scope : String) (line : Nat) : Decidable (m.InScope scope line) :=
  decidable_of_iff _ imported_iff

theorem mem_imports_apply (e : FileEdit) (m : FileModel) (i : Import) :
    i ∈ (e.apply m).imports ↔ i ∈ m.imports ∨ e = .importing i := by
  cases e with
  | importing j => simp [FileEdit.apply, addImport, eq_comm]
  | _ => simp [FileEdit.apply, addNode, pushNode, addRoot]

theorem mem_imports_edited (m : FileModel) (edits : List FileEdit) (i : Import) :
    i ∈ (m.edited edits).imports ↔ i ∈ m.imports ∨ .importing i ∈ edits := by
  induction edits generalizing m with
  | nil => simp [edited]
  | cons e edits ih => rw [edited_cons, ih, mem_imports_apply, List.mem_cons, or_assoc, eq_comm]

/-- What is in scope after some edits was in scope before or is brought by one of their imports. -/
theorem inScope_edited : (m.edited edits).InScope scope line ↔
    m.InScope scope line ∨ ∃ i, .importing i ∈ edits ∧ i.Brings scope line := by
  simp only [InScope, mem_imports_edited, or_and_right, exists_or]

/-! ## The rule -/

/-- The name that a type has on a line. -/
inductive IsName (m : FileModel) (t : TypeInfo) (line : Nat) : String → Prop
  | keyword {k : String} (hk : Keyword.Spells m.keywords k t.hash) : IsName m t line k
  | simple {scope simple : String} (hk : ∀ k, ¬ Keyword.Spells m.keywords k t.hash)
      (hname : TypeInfo.IsQualified t.name scope simple) (hscope : m.InScope scope line) :
      IsName m t line simple
  | qualified (hk : ∀ k, ¬ Keyword.Spells m.keywords k t.hash)
      (hscope : ∀ scope simple, TypeInfo.IsQualified t.name scope simple →
        ¬ m.InScope scope line) :
      IsName m t line t.name

theorem displayName_of_spells {k : String} (hk : Keyword.Spells m.keywords k t.hash) :
    m.displayName t line = k := by
  unfold displayName
  rw [Keyword.ofType?_eq_some_iff.2 hk]

theorem displayName_of_inScope (hk : ∀ k, ¬ Keyword.Spells m.keywords k t.hash)
    (hname : t.scope? = some scope) (hscope : m.InScope scope line) :
    m.displayName t line = t.simpleName := by
  unfold displayName
  rw [Keyword.ofType?_eq_none_iff.2 hk, hname]
  exact if_pos (imported_iff.2 hscope)

theorem displayName_of_not_inScope (hk : ∀ k, ¬ Keyword.Spells m.keywords k t.hash)
    (hscope : ∀ scope, t.scope? = some scope → ¬ m.InScope scope line) :
    m.displayName t line = t.name := by
  unfold displayName
  rw [Keyword.ofType?_eq_none_iff.2 hk]
  refine if_neg fun hany => ?_
  obtain ⟨scope, hname, himported⟩ := (Option.any_eq_true _ _).1 hany
  exact hscope scope hname (imported_iff.1 himported)

theorem displayName_eq_or_of_not_spells (hk : ∀ k, ¬ Keyword.Spells m.keywords k t.hash) :
    m.displayName t line = t.name ∨ m.displayName t line = t.simpleName := by
  by_cases hscope : ∃ scope, t.scope? = some scope ∧ m.InScope scope line
  · obtain ⟨scope, hname, hscope⟩ := hscope
    exact .inr (displayName_of_inScope hk hname hscope)
  · exact .inl (displayName_of_not_inScope hk fun scope hname hin => hscope ⟨scope, hname, hin⟩)

/-- Every type has the name that it is shown by. -/
theorem isName_displayName (m : FileModel) (t : TypeInfo) (line : Nat) :
    m.IsName t line (m.displayName t line) := by
  by_cases hk : ∃ k, Keyword.Spells m.keywords k t.hash
  · obtain ⟨k, hk⟩ := hk
    rw [displayName_of_spells hk]
    exact .keyword hk
  · rw [not_exists] at hk
    by_cases hscope : ∃ scope, t.scope? = some scope ∧ m.InScope scope line
    · obtain ⟨scope, hname, hscope⟩ := hscope
      rw [displayName_of_inScope hk hname hscope]
      exact .simple hk (TypeInfo.isQualified_of_scope? hname) hscope
    · rw [displayName_of_not_inScope hk fun scope hname hin => hscope ⟨scope, hname, hin⟩]
      exact .qualified hk fun scope _ hname hin => hscope ⟨scope, hname.scope?, hin⟩

/-- A type has one name on a line. -/
theorem displayName_eq_iff {n : String} : m.displayName t line = n ↔ m.IsName t line n := by
  constructor
  · rintro rfl
    exact isName_displayName m t line
  · intro h
    cases h with
    | keyword hk => exact displayName_of_spells hk
    | simple hk hname hscope =>
      rw [displayName_of_inScope hk hname.scope? hscope, hname.simpleName]
    | qualified hk hscope =>
      exact displayName_of_not_inScope hk fun scope hname =>
        hscope scope _ (TypeInfo.isQualified_of_scope? hname)

/-! ## Edits -/

/-- The name depends on the keywords of the file and on what is in scope. -/
theorem IsName.congr {n : String} (h : m.IsName t line n) (hkeywords : m'.keywords = m.keywords)
    (hscope : ∀ scope, m.InScope scope line ↔ m'.InScope scope line) : m'.IsName t line n := by
  cases h with
  | keyword hk => exact .keyword (hkeywords ▸ hk)
  | simple hk hname hin => exact .simple (hkeywords ▸ hk) hname ((hscope _).1 hin)
  | qualified hk hout =>
    exact .qualified (hkeywords ▸ hk) fun scope simple hname hin =>
      hout scope simple hname ((hscope scope).2 hin)

/-- A name stays as it is or, being the qualified name, gives way to the simple one. -/
theorem IsName.edited {n : String} (h : m.IsName t line n) (edits : List FileEdit) :
    (m.edited edits).IsName t line n ∨
      n = t.name ∧ (m.edited edits).IsName t line t.simpleName := by
  have hkeywords := keywords_edited m edits
  cases h with
  | keyword hk => exact .inl (.keyword (hkeywords ▸ hk))
  | simple hk hname hin =>
    exact .inl (.simple (hkeywords ▸ hk) hname (inScope_edited.2 (.inl hin)))
  | qualified hk hout =>
    by_cases hin : ∃ scope, t.scope? = some scope ∧ (m.edited edits).InScope scope line
    · obtain ⟨scope, hname, hin⟩ := hin
      exact .inr ⟨rfl, .simple (hkeywords ▸ hk) (TypeInfo.isQualified_of_scope? hname) hin⟩
    · refine .inl (.qualified (hkeywords ▸ hk) fun scope simple hname hscope => ?_)
      exact hin ⟨scope, hname.scope?, hscope⟩

/-- What display names are and how edits of the file change them. -/
structure NamedByRule (m : FileModel) (t : TypeInfo) (line : Nat) : Prop where
  isName_iff : ∀ n, m.displayName t line = n ↔ m.IsName t line n
  name_eq : ∀ scope, t.scope? = some scope → t.name = scope ++ "." ++ t.simpleName
  scope?_eq_none_iff : t.scope? = none ↔ '.' ∉ t.name.toList
  dotless_simpleName : '.' ∉ t.simpleName.toList
  /-- It does not matter in which order or how often something is imported. -/
  sameImports : ∀ edits edits' : List FileEdit,
    (∀ i, .importing i ∈ edits ↔ .importing i ∈ edits') →
    (m.edited edits).displayName t line = (m.edited edits').displayName t line
  keyword_kept : ∀ k edits, Keyword.Spells m.keywords k t.hash →
    (m.edited edits).displayName t line = k
  simpleName_kept : ∀ edits, m.displayName t line = t.simpleName →
    (m.edited edits).displayName t line = t.simpleName
  /-- A name changes only from the qualified to the simple name. -/
  shortened : ∀ edits, (m.edited edits).displayName t line ≠ m.displayName t line →
    m.displayName t line = t.name ∧ (m.edited edits).displayName t line = t.simpleName

/-- **A type is shown by its keyword, by its simple name or by its qualified name.** Which of them
it is follows from the keywords of the file, the dots of the name and the imports that hold on the
line. Of imports that are added it matters only which there are; they leave a keyword and a simple
name as they are and turn a qualified name into nothing but its simple name. -/
theorem namedByRule (m : FileModel) (t : TypeInfo) (line : Nat) : m.NamedByRule t line where
  isName_iff _ := displayName_eq_iff
  name_eq _ h := (TypeInfo.isQualified_of_scope? h).name_eq
  scope?_eq_none_iff := TypeInfo.scope?_eq_none_iff
  dotless_simpleName := t.dotless_simpleName
  sameImports := by
    intro edits edits' h
    refine displayName_eq_iff.2 ((isName_displayName _ t line).congr ?_ fun scope => ?_)
    · rw [keywords_edited, keywords_edited]
    · simp only [inScope_edited, h]
  keyword_kept := by
    intro k edits hk
    exact displayName_of_spells ((keywords_edited m edits).symm ▸ hk)
  simpleName_kept := by
    intro edits h
    rcases (displayName_eq_iff.1 h).edited edits with hname | ⟨-, hname⟩ <;>
      exact displayName_eq_iff.2 hname
  shortened := by
    intro edits hne
    rcases (isName_displayName m t line).edited edits with hname | ⟨hfrom, hname⟩
    · exact absurd (displayName_eq_iff.2 hname) hne
    · exact ⟨hfrom, displayName_eq_iff.2 hname⟩

namespace ScopedImport

def point : TypeInfo := .value "System.Drawing.Point"

def guid : TypeInfo := .value "System.Guid"

/-- A file that imports `System.Drawing` on some of its lines. -/
def file : FileModel :=
  (ofTree (Tree.empty 0 "Test0.cs" .csharp)).addImport ⟨"System.Drawing", some (3, 10)⟩

/-- An import for the whole file, after one whose last line comes before its first. -/
def once : List FileEdit :=
  [.importing ⟨"System.Drawing", some (14, 11)⟩, .importing ⟨"System", none⟩]

/-- The same imports, and the second also in front. -/
def twice : List FileEdit := .importing ⟨"System", none⟩ :: once

theorem importing_mem_twice_iff (i : Import) :
    .importing i ∈ twice ↔ .importing i ∈ once := by
  rw [twice, List.mem_cons]
  refine or_iff_right_of_imp fun hi => ?_
  rw [hi]
  exact .tail _ (.head _)

/-- Below the lines of the import two types are shown by their qualified names. The further imports
shorten one of them, however often they are there. -/
theorem namedByRule_afterImports :
    file.displayName point 10 = "Point" ∧ file.displayName guid 12 = "System.Guid" ∧
      (file.edited twice).displayName point 12 = "System.Drawing.Point" ∧
      (file.edited twice).displayName guid 12 = "Guid" := by
  have hguid := namedByRule file guid 12
  have hpoint := namedByRule file point 12
  have hbefore : file.displayName point 10 = "Point" ∧ file.displayName guid 12 = "System.Guid" ∧
      (file.edited once).displayName point 12 = "System.Drawing.Point" ∧
      (file.edited once).displayName guid 12 ≠ file.displayName guid 12 := by decide +kernel
  obtain ⟨hpoint10, hguid12, hpoint12, hchanged⟩ := hbefore
  refine ⟨hpoint10, hguid12, ?_, ?_⟩
  · rw [hpoint.sameImports twice once importing_mem_twice_iff, hpoint12]
  · rw [hguid.sameImports twice once importing_mem_twice_iff, (hguid.shortened once hchanged).2]
    decide +kernel

end ScopedImport

end FileModel

end BoxLint
