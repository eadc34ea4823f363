import BoxLint.Proofs.CastRemoval

/-!
# Types that did not resolve

A conversion that lacks one of its types, or has one that did not resolve (`Operation.Unresolved`),
is no boxing to speak of. The detector leaves such conversions alone, with one exception: in C# the
type of the result is asked for and not looked at, so a conversion to a type that did not resolve is
reported if the compiler calls it boxing (`Operation.BoxesToError`). Each of these is reported and
no other unresolved conversion is (`reported_unresolved_iff`).
-/

namespace BoxLint

/-- The type is known and resolved. -/
def IsResolved (type : Option TypeInfo) : Prop := ∃ t, type = some t ∧ t.isError = false

namespace Operation

/-- The type that the operation converts or the type that it gives is missing or did not resolve. -/
def Unresolved (op : Operation) : Prop :=
  ¬ IsResolved op.operandType? ∨ ¬ IsResolved op.binding.type

/-- A C# conversion that is classified as boxing and has a resolved operand, but gives a type that
did not resolve. -/
def BoxesToError (op : Operation) : Prop :=
  ∃ o b cs source target, op = .conversion (some .boxing) o b cs ∧ b.dialect = .csharp ∧
    o.binding.type = some source ∧ source.isError = false ∧
    b.type = some target ∧ target.isError = true

theorem isResolved_operandType_of_isBoxing {op : Operation} (h : op.isBoxing = true) :
    IsResolved op.operandType? := by
  obtain ⟨source, hsource⟩ := exists_operandType_of_isBoxing h
  simp only [isBoxing, hsource, Bool.and_eq_true, Bool.not_eq_true'] at h
  exact ⟨source, hsource, h.1⟩

/-- What boxes in Visual Basic gives a type that resolved. -/
theorem isError_eq_false_of_isBoxing {op : Operation} (h : op.isBoxing = true)
    (hdialect : op.binding.dialect = .visualBasic) {target : TypeInfo}
    (htarget : op.binding.type = some target) : target.isError = false := by
  obtain ⟨source, hsource⟩ := exists_operandType_of_isBoxing h
  cases op with
  | plain k b cs => simp [operandType?, operand?] at hsource
  | conversion k o b cs =>
    have hdialect : b.dialect = .visualBasic := hdialect
    have htarget : b.type = some target := htarget
    simp only [isBoxing, hsource, boxesFrom, hdialect, htarget, Option.any_some,
      TypeInfo.isReference, Bool.and_eq_true, Bool.not_eq_true'] at h
    exact h.2.1.2

/-- Of the unresolved conversions with both types the classifier takes those for boxing that go
in C# to a type that did not resolve. -/
theorem boxesToError_iff {op : Operation} (h : op.Unresolved) :
    op.BoxesToError ↔ op.isBoxing = true ∧ ∃ target, op.binding.type = some target := by
  constructor
  · rintro ⟨o, b, cs, source, target, rfl, hdialect, hsource, herror, htarget, -⟩
    refine ⟨?_, target, htarget⟩
    simp [isBoxing, operandType?, operand?, boxesFrom, hsource, herror, hdialect]
  · rintro ⟨hbox, target, htarget⟩
    obtain ⟨source, hsource, herror⟩ := isResolved_operandType_of_isBoxing hbox
    have hunresolved : target.isError = true := by
      by_contra hne
      rcases h with h | h
      · exact h ⟨source, hsource, herror⟩
      · exact h ⟨target, htarget, by simpa using hne⟩
    cases op with
    | plain k b cs => simp [operandType?, operand?] at hsource
    | conversion k o b cs =>
      cases hdialect : b.dialect with
      | csharp =>
        obtain rfl : k = some .boxing := by
          simpa [isBoxing, hsource, herror, boxesFrom, hdialect] using hbox
        exact ⟨o, b, cs, source, target, rfl, hdialect, hsource, herror, htarget, hunresolved⟩
      | visualBasic =>
        rw [isError_eq_false_of_isBoxing hbox hdialect htarget] at hunresolved
        exact absurd hunresolved Bool.false_ne_true

end Operation

section Report

variable {s : Settings} {c : Compilation} {listed : List TreeId} {site : Site} {m : FileModel}
  {op : Operation}

/-- Where something is found: in a file whose findings are kept, at an implicit boxing with both of
its types. -/
theorem exists_findsAt_iff (hat : c.at? listed site = some (m, op)) :
    (∃ d, FindsAt s c listed site d) ↔
      (m.tree.isGenerated = true → s.generatedCode = .report) ∧ op.binding.isImplicit = true ∧
        op.isBoxing = true ∧ ∃ target, op.binding.type = some target := by
  constructor
  · rintro ⟨d, m', op', source, target, hat', hkept, himplicit, -, htarget, -⟩
    obtain ⟨rfl, rfl⟩ := Prod.mk.inj (Option.some.inj (hat.symm.trans hat'))
    obtain ⟨himplicit, hbox⟩ := Bool.and_eq_true_iff.1 himplicit
    exact ⟨hkept, himplicit, hbox, target, htarget⟩
  · rintro ⟨hkept, himplicit, hbox, target, htarget⟩
    obtain ⟨source, hsource⟩ := Operation.exists_operandType_of_isBoxing hbox
    exact ⟨_, m, op, source, target, hat, hkept, Bool.and_eq_true_iff.2 ⟨himplicit, hbox⟩, hsource,
      htarget, describes_iff.2 rfl⟩

/-- What an analysis reports that succeeds, site by site. -/
theorem exists_sites_of_analyze {σ : Type} {h : Host σ} {st : σ} {ds : List Diagnostic}
    (hok : ((Linter.ofSettings s).analyze h st c listed).result = .ok ds) :
    ∃ (sites : List Site) (found : List Diagnostic), sites.Nodup ∧
      List.Forall₂ (FindsAt s c listed) sites found ∧ ds.Perm found ∧
      ∀ site, site ∈ sites ↔ (s.effective Rule.implicitBoxing).enabled = true ∧
        ∃ d, FindsAt s c listed site d := by
  rw [Linter.eq_of_analyze_eq_ok hok]
  by_cases he : (s.effective Rule.implicitBoxing).enabled = true
  · rw [if_pos (show (Linter.ofSettings s).rule.enabled = true from he)]
    obtain ⟨sites, hlt, hsites, hfound⟩ := @forall₂_found s c listed he
    exact ⟨sites, _, Site.nodup_of_pairwise_lt hlt, hfound, Diagnostic.sorted_perm _,
      fun site => (hsites site).trans (and_iff_right he).symm⟩
  · rw [if_neg (show ¬ (Linter.ofSettings s).rule.enabled = true from he)]
    exact ⟨[], [], List.nodup_nil, .nil, .nil, by simp [he]⟩

end Report

/-- **Which unresolved conversions are reported.** Whatever the settings, the files and the host,
the diagnostics of an analysis that succeeds are those of a list of sites, one for each. An
unresolved conversion of the listed files has its site there exactly if the rule is switched on,
findings in its file are kept, and it is an implicit C# conversion that is classified as boxing, to
a type that did not resolve. -/
theorem reported_unresolved_iff {s : Settings} {c : Compilation} {listed : List TreeId} {σ : Type}
    {h : Host σ} {st : σ} {ds : List Diagnostic}
    (hok : ((Linter.ofSettings s).analyze h st c listed).result = .ok ds) :
    ∃ (sites : List Site) (found : List Diagnostic), sites.Nodup ∧
      List.Forall₂ (FindsAt s c listed) sites found ∧ ds.Perm found ∧
      ∀ site m op, c.at? listed site = some (m, op) → op.Unresolved →
        (site ∈ sites ↔ (s.effective Rule.implicitBoxing).enabled = true ∧
          (m.tree.isGenerated = true → s.generatedCode = .report) ∧
          op.binding.isImplicit = true ∧ op.BoxesToError) := by
  obtain ⟨sites, found, hnodup, hfound, hperm, hsites⟩ := exists_sites_of_analyze hok
  refine ⟨sites, found, hnodup, hfound, hperm, fun site m op hat hop => ?_⟩
  rw [hsites, exists_findsAt_iff hat, Operation.boxesToError_iff hop]

/-! ## A conversion to a missing type -/

namespace MissingTarget

/-- The `1` of `Missing o = 1`, converted to a type that did not resolve. -/
def conversion (dialect : Dialect) : Operation :=
  .conversion (some .boxing)
    (.plain .literal ⟨some (.value "System.Int32"), 0, Span.ofLength 6 20 1, dialect, false⟩ [])
    ⟨some (.unresolved "Missing"), 0, Span.ofLength 6 20 1, dialect, true⟩ []

/-- A file with the conversion. -/
def file (id : TreeId) (dialect : Dialect) : FileModel :=
  (FileModel.ofTree (Tree.empty id "Test0" dialect)).addRoot (conversion dialect)

/-- The conversion in both dialects, under the same classification. -/
def compilation : Compilation := ⟨[file 0 .csharp, file 1 .visualBasic]⟩

theorem unresolved_conversion (dialect : Dialect) : (conversion dialect).Unresolved := by
  refine Or.inr ?_
  rintro ⟨t, ht, herror⟩
  obtain rfl : TypeInfo.unresolved "Missing" = t := Option.some.inj ht
  exact Bool.noConfusion herror

theorem boxesToError_conversion : (conversion .csharp).BoxesToError :=
  ⟨_, _, _, _, _, rfl, rfl, rfl, rfl, rfl, rfl⟩

/-- Of the two conversions the one in C# is reported, and the one in Visual Basic is not. -/
theorem reported_unresolved_iff_dialects :
    ∃ ds sites found, ((Linter.ofSettings Settings.default).analyze Host.quiet () compilation
        [0, 1]).result = .ok ds ∧ ds.Perm found ∧
      List.Forall₂ (FindsAt Settings.default compilation [0, 1]) sites found ∧
      (⟨0, 0, []⟩ : Site) ∈ sites ∧ (⟨1, 0, []⟩ : Site) ∉ sites := by
  have hok := @Linter.analyze_of_staysDown Settings.default _ _ _ Host.staysDown_quiet compilation
    [0, 1]
  obtain ⟨sites, found, -, hfound, hperm, hsites⟩ := reported_unresolved_iff hok
  refine ⟨_, sites, found, hok, hperm, hfound, ?_, fun hmem => ?_⟩
  · exact (hsites _ (file 0 .csharp) _ rfl (unresolved_conversion .csharp)).2
      ⟨rfl, by decide, rfl, boxesToError_conversion⟩
  · obtain ⟨-, -, -, o, b, cs, _, _, hop, hdialect, -⟩ :=
      (hsites _ (file 1 .visualBasic) _ rfl (unresolved_conversion .visualBasic)).1 hmem
    obtain ⟨-, -, rfl, -⟩ := Operation.conversion.inj hop
    exact Dialect.noConfusion hdialect

/-- A diagnostic comes from a conversion whose type did not resolve. -/
theorem analyze_reports_unresolved :
    compilation.at? [0, 1] ⟨0, 0, []⟩ = some (file 0 .csharp, conversion .csharp) ∧
      (conversion .csharp).Unresolved ∧
      ∃ d, ((Linter.ofSettings Settings.default).analyze Host.quiet () compilation
          [0, 1]).result = .ok [d] ∧
        FindsAt Settings.default compilation [0, 1] ⟨0, 0, []⟩ d := by
  refine ⟨rfl, unresolved_conversion .csharp, _, ?_, _, _, _, _, rfl, by decide, rfl, rfl, rfl,
    describes_iff.2 rfl⟩
  rw [Linter.analyze_of_staysDown Host.staysDown_quiet]
  exact congrArg Except.ok (List.mergeSort_singleton _)

end MissingTarget

end BoxLint
