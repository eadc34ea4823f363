import BoxLint.Proofs.SettingsDocument
import BoxLint.Proofs.WrittenText

/-!
# Writing settings

Any settings can be written down: as fields, and a table of rules with a table of fields for each
rule that is overridden (`Settings.text`). A document of that form (`Sheet`) is put together header
by header and field by field; a new key always goes to the end of the table that was opened last, so
each step extends the last entry of what is there (`Section.descend_last`).
-/

namespace BoxLint

namespace Toml

/-! ## Adding at the end -/

namespace Section

theorem alterEntries_append {k : String} {f : Option Item → Option Item}
    {es fs : List (String × Item)} (hk : k ∉ es.map Prod.fst) :
    alterEntries k f (es ++ fs) = (alterEntries k f fs).map (es ++ ·) := by
  induction es with
  | nil => simp
  | cons e es ih =>
    obtain ⟨k', i⟩ := e
    simp only [List.map_cons, List.mem_cons, not_or] at hk
    rw [List.cons_append, alterEntries, if_neg (Ne.symm hk.1), ih hk.2, Option.map_map]
    rfl

theorem alter_of_not_mem {k : String} {f : Option Item → Option Item} {s : Section} {i : Item}
    (hk : k ∉ s.entries.map Prod.fst) (hf : f none = some i) :
    s.alter k f = some ⟨s.origin, s.entries ++ [(k, i)]⟩ := by
  have happend : alterEntries k f (s.entries ++ []) = _ := alterEntries_append hk
  rw [List.append_nil] at happend
  rw [alter, happend, alterEntries, hf]
  rfl

theorem addPair_key {es : List (String × Item)} {k : String} (hk : k ∉ es.map Prod.fst)
    (v : Value) : addPair ⟨[], k⟩ v ⟨.written, es⟩ = some ⟨.written, es ++ [(k, .value v)]⟩ :=
  alter_of_not_mem hk rfl

/-- A path that leads through the last entry changes the table there and leaves the rest. -/
theorem descend_last {f : Section → Option Section} {k : String} {ks : List String}
    {origin : Origin} {before es es' : List (String × Item)} (hk : k ∉ before.map Prod.fst)
    (h : descend false f ks ⟨.written, es⟩ = some ⟨.written, es'⟩) :
    descend false f (k :: ks) ⟨origin, before ++ [(k, .table .written es)]⟩ =
      some ⟨origin, before ++ [(k, .table .written es')]⟩ := by
  rw [descend, alter, alterEntries_append hk, alterEntries, if_pos rfl]
  simp [h]

end Section

/-- The next key is new, and the keys after it stay new once it is there. -/
theorem nodup_step {es : List (String × Item)} {k : String} {ks : List String}
    (h : (es.map Prod.fst ++ k :: ks).Nodup) (i : Item) :
    k ∉ es.map Prod.fst ∧ ((es ++ [(k, i)]).map Prod.fst ++ ks).Nodup := by
  constructor
  · exact fun hmem => (List.nodup_append.1 h).2.2 k hmem k List.mem_cons_self rfl
  · rw [List.map_append, List.append_assoc]
    exact h

/-! ## Sheets -/

/-- Fields with their values. -/
abbrev Fields := List (String × Atom)

namespace Fields

/-- The entries of the fields in a table. -/
def entries (fs : Fields) : Table := fs.map fun x => (x.1, x.2.value)

/-- The entries of the fields in a table under construction. -/
def items (fs : Fields) : List (String × Item) := fs.map fun x => (x.1, .value x.2.value)

/-- The lines of the fields. -/
def lines (fs : Fields) : List Line := fs.map fun x => .field x.1 x.2

theorem finish_items (fs : Fields) : finish fs.items = fs.entries := by
  rw [finish_eq_map, items, entries, List.map_map]
  exact List.map_congr_left fun x _ => by rw [Function.comp_apply, Item.toValue]

/-- Fields are added one by one to the table that a header has opened. What that table is, `root`
tells: the whole document, given the entries of the table. -/
theorem assembleFrom_lines {header : List String} {root : List (String × Item) → Section}
    (hstep : ∀ es k v, k ∉ es.map Prod.fst →
      (root es).descend false (·.addPair ⟨[], k⟩ v) header = some (root (es ++ [(k, .value v)])))
    {fs : Fields} (es : List (String × Item))
    (hnodup : (es.map Prod.fst ++ fs.map Prod.fst).Nodup) (rest : List Statement) :
    assembleFrom header (root es) (fs.lines.map Line.statement ++ rest) =
      assembleFrom header (root (es ++ fs.items)) rest := by
  induction fs generalizing es with
  | nil => simp [lines, items]
  | cons x fs ih =>
    obtain ⟨k, a⟩ := x
    obtain ⟨hk, hnodup⟩ := nodup_step hnodup (.value a.value)
    have ih := ih _ hnodup
    rw [List.append_assoc] at ih
    rw [lines, List.map_cons, List.map_cons, List.cons_append, Line.statement, assembleFrom,
      hstep es k a.value hk]
    exact ih

end Fields

/-- A document of fields and a table of tables of fields. -/
structure Sheet where
  fields : Fields
  table : String
  sections : List (String × Fields)
  nodup_keys : (fields.map Prod.fst).Nodup
  table_not_mem : table ∉ fields.map Prod.fst
  nodup_sections : (sections.map Prod.fst).Nodup
  nodup_section : ∀ x ∈ sections, (x.2.map Prod.fst).Nodup

namespace Sheet

variable (d : Sheet)

/-- The lines of a section. -/
def sectionLines (x : String × Fields) : List Line :=
  .header ⟨[d.table], x.1⟩ :: x.2.lines

/-- The lines of a sheet. -/
def lines : List Line :=
  d.fields.lines ++ .header ⟨[], d.table⟩ :: d.sections.flatMap d.sectionLines

/-- A sheet as it is written. -/
def text : String := String.ofList (writeLines d.lines)

/-- What a sheet says. -/
def entries : Table :=
  d.fields.entries ++ [(d.table, .table (d.sections.map fun x => (x.1, .table x.2.entries)))]

/-- The sheet under construction, with the sections that are there so far. -/
def root (es : List (String × Item)) : Section :=
  ⟨.written, d.fields.items ++ [(d.table, .table .written es)]⟩

theorem table_not_mem_items : d.table ∉ d.fields.items.map Prod.fst := by
  rw [Fields.items, List.map_map]
  exact d.table_not_mem

theorem openTable_root {es : List (String × Item)} {id : String} (hid : id ∉ es.map Prod.fst) :
    (d.root es).openTable ⟨[d.table], id⟩ = some (d.root (es ++ [(id, .table .written [])])) :=
  Section.descend_last d.table_not_mem_items (Section.alter_of_not_mem hid rfl)

theorem descend_root {es gs : List (String × Item)} {id k : String} (hid : id ∉ es.map Prod.fst)
    (hk : k ∉ gs.map Prod.fst) (v : Value) :
    (d.root (es ++ [(id, .table .written gs)])).descend false (·.addPair ⟨[], k⟩ v) [d.table, id] =
      some (d.root (es ++ [(id, .table .written (gs ++ [(k, .value v)]))])) :=
  Section.descend_last d.table_not_mem_items
    (Section.descend_last hid (Section.addPair_key hk v))

theorem assembleFrom_sections {sections : List (String × Fields)} (es : List (String × Item))
    (hnodup : (es.map Prod.fst ++ sections.map Prod.fst).Nodup)
    (hfields : ∀ x ∈ sections, (x.2.map Prod.fst).Nodup) (header : List String) :
    assembleFrom header (d.root es) ((sections.flatMap d.sectionLines).map Line.statement) =
      some (d.root (es ++ sections.map fun x => (x.1, .table .written x.2.items))) := by
  induction sections generalizing es header with
  | nil => simp [assembleFrom]
  | cons x sections ih =>
    obtain ⟨id, fs⟩ := x
    obtain ⟨hfs, hfields⟩ := List.forall_mem_cons.1 hfields
    obtain ⟨hid, hnodup⟩ := nodup_step hnodup (.table .written fs.items)
    have ih := ih _ hnodup hfields [d.table, id]
    rw [List.append_assoc] at ih
    have hlines := Fields.assembleFrom_lines (fun gs k v hk => d.descend_root hid hk v) [] hfs
      ((sections.flatMap d.sectionLines).map Line.statement)
    rw [List.flatMap_cons, List.map_append, sectionLines, List.map_cons, List.cons_append,
      Line.statement, assembleFrom, d.openTable_root hid]
    exact hlines.trans ih

theorem toTable_root :
    (d.root (d.sections.map fun x => (x.1, .table .written x.2.items))).toTable = d.entries := by
  have hsections : finish (d.sections.map fun x => (x.1, .table .written x.2.items)) =
      d.sections.map fun x => (x.1, .table x.2.entries) := by
    rw [finish_eq_map, List.map_map]
    refine List.map_congr_left fun x _ => ?_
    rw [Function.comp_apply, Item.toValue, Fields.finish_items]
  rw [root, Section.toTable, finish_eq_map, List.map_append, ← finish_eq_map, Fields.finish_items,
    List.map_singleton, Item.toValue, hsections, entries]

theorem assemble?_lines : assemble? (d.lines.map Line.statement) = some d.entries := by
  have hstep : ∀ es k v, k ∉ es.map Prod.fst →
      (⟨.written, es⟩ : Section).descend false (·.addPair ⟨[], k⟩ v) [] =
        some ⟨.written, es ++ [(k, .value v)]⟩ := fun es k v hk => Section.addPair_key hk v
  have hopen : (⟨.written, d.fields.items⟩ : Section).openTable ⟨[], d.table⟩ = some (d.root []) :=
    Section.alter_of_not_mem d.table_not_mem_items rfl
  have hassemble : assembleFrom [] (Section.empty .written) (d.lines.map Line.statement) =
      some (d.root (d.sections.map fun x => (x.1, .table .written x.2.items))) := by
    calc assembleFrom [] (Section.empty .written) (d.lines.map Line.statement)
        = assembleFrom [] ⟨.written, d.fields.items⟩ (.header ⟨[], d.table⟩ ::
            (d.sections.flatMap d.sectionLines).map Line.statement) := by
          rw [lines, List.map_append]
          exact Fields.assembleFrom_lines hstep [] d.nodup_keys _
      _ = assembleFrom [d.table] (d.root []) ((d.sections.flatMap d.sectionLines).map
            Line.statement) := by
          rw [assembleFrom, hopen]
          rfl
      _ = some (d.root (d.sections.map fun x => (x.1, .table .written x.2.items))) :=
          d.assembleFrom_sections [] d.nodup_sections d.nodup_section [d.table]
  rw [assemble?, hassemble, Option.map_some, d.toTable_root]

theorem fits_of_mem_lines {l : Line} (hl : l ∈ d.lines) : l.Fits := by
  have hfields : ∀ {fs : Fields}, l ∈ fs.lines → l.Fits := by
    intro fs hl
    obtain ⟨x, -, rfl⟩ := List.mem_map.1 hl
    trivial
  rcases List.mem_append.1 hl with hl | hl
  · exact hfields hl
  · rcases List.mem_cons.1 hl with rfl | hl
    · exact Nat.succ_pos _
    · obtain ⟨x, -, hl⟩ := List.mem_flatMap.1 hl
      rcases List.mem_cons.1 hl with rfl | hl
      · exact Nat.succ_lt_succ (Nat.succ_pos _)
      · exact hfields hl

/-- A sheet is read as what it says. -/
theorem document?_text : document? d.text = some d.entries := by
  rw [text, document?_write fun _ => d.fits_of_mem_lines, d.assemble?_lines]

end Sheet

end Toml

open Toml (Fields Sheet Value)

/-! ## Overrides -/

theorem readOptional_map {α : Type} (read? : Value → Option α) (write : α → Value)
    (h : ∀ a, read? (write a) = some a) (o : Option α) :
    readOptional read? (o.map write) = some o := by
  cases o with
  | none => rfl
  | some a => rw [Option.map_some, readOptional, h, Option.map_some]

theorem GeneratedCode.ofWord?_word (g : GeneratedCode) : ofWord? g.word = some g := by
  cases g <;> rfl

theorem SeverityChoice.ofWord?_word (c : SeverityChoice) : ofWord? c.word = some c := by
  rcases c with _ | _ | _ | _ | _ <;> rfl

namespace RuleOverride

/-- The fields that an override has. -/
def fields (o : RuleOverride) : Fields :=
  (o.enabled.map fun b => ("enabled", .truth b)).toList ++
    (o.severity.map fun c => ("severity", .text c.word)).toList ++
      (o.message.map fun m => ("message", .text m)).toList

theorem nodup_fields (o : RuleOverride) : (o.fields.map Prod.fst).Nodup := by
  obtain ⟨_ | _, _ | _, _ | _⟩ := o <;> simp [fields]

theorem lookup_fields (o : RuleOverride) :
    o.fields.entries.lookup "enabled" = o.enabled.map .boolean ∧
      o.fields.entries.lookup "severity" = o.severity.map (.string ·.word) ∧
      o.fields.entries.lookup "message" = o.message.map .string := by
  obtain ⟨_ | _, _ | _, _ | _⟩ := o <;> exact ⟨rfl, rfl, rfl⟩

theorem ofValue?_fields (o : RuleOverride) : ofValue? (.table o.fields.entries) = some o := by
  have hkeys : hasOnlyKeys ["enabled", "severity", "message"] o.fields.entries = true := by
    obtain ⟨_ | _, _ | _, _ | _⟩ := o <;> rfl
  obtain ⟨henabled, hseverity, hmessage⟩ := o.lookup_fields
  have hboolean : readOptional readBoolean? (o.enabled.map .boolean) = some o.enabled :=
    readOptional_map readBoolean? _ (fun _ => rfl) _
  have hword : readOptional (readWord? · >>= SeverityChoice.ofWord?)
      (o.severity.map (.string ·.word)) = some o.severity :=
    readOptional_map _ _ SeverityChoice.ofWord?_word _
  have htext : readOptional readText? (o.message.map .string) = some o.message :=
    readOptional_map readText? _ (fun _ => rfl) _
  rw [ofValue?, if_pos hkeys, henabled, hseverity, hmessage, ofFields?, hboolean, hword, htext]
  rfl

end RuleOverride

namespace RuleTable

theorem insertAscending_of_lt {id : String} {o : RuleOverride} {es : List (String × RuleOverride)}
    (h : ∀ e ∈ es, e.1 < id) : insertAscending id o es = es ++ [(id, o)] := by
  induction es with
  | nil => rfl
  | cons e es ih =>
    obtain ⟨hlt, hes⟩ := List.forall_mem_cons.1 h
    rw [insertAscending, if_neg (String.lt_asymm hlt), if_neg (ne_of_gt hlt), ih hes]
    rfl

/-- Overrides that are in order stay as they are. -/
theorem ofList_entries (t : RuleTable) : ofList t.entries = t := by
  have hfold : ∀ (es : List (String × RuleOverride)) (u : RuleTable),
      (u.entries ++ es).Pairwise (fun a b => a.1 < b.1) →
      (es.foldl (fun t (x : String × RuleOverride) => t.insert x.1 x.2) u).entries =
        u.entries ++ es := by
    intro es
    induction es with
    | nil => simp
    | cons e es ih =>
      intro u hascending
      have hinsert : (u.insert e.1 e.2).entries = u.entries ++ [e] :=
        insertAscending_of_lt fun e' he' =>
          (List.pairwise_append.1 hascending).2.2 e' he' e List.mem_cons_self
      rw [List.foldl_cons, ih, hinsert, List.append_assoc]
      · rfl
      · rw [hinsert, List.append_assoc]
        exact hascending
  have hentries : (ofList t.entries).entries = t.entries := hfold t.entries empty t.ascending
  rw [RuleTable.mk.injEq]
  exact hentries

theorem mapM_fields (es : List (String × RuleOverride)) :
    (es.map fun x => (x.1, Value.table x.2.fields.entries)).mapM entry? = some es := by
  induction es with
  | nil => rfl
  | cons e es ih =>
    have hentry : entry? (e.1, .table e.2.fields.entries) = some e := by
      unfold entry?
      rw [RuleOverride.ofValue?_fields]
      rfl
    rw [List.map_cons, List.mapM_cons, hentry, ih]
    rfl

end RuleTable

/-! ## Settings -/

namespace Settings

/-- The sheet of some settings. -/
def sheet (s : Settings) : Sheet where
  fields := [("generated_code", .text s.generatedCode.word), ("concurrent", .truth s.concurrent)]
  table := "rules"
  sections := s.rules.entries.map fun x => (x.1, x.2.fields)
  nodup_keys := by simp
  table_not_mem := by simp
  nodup_sections := by
    rw [List.map_map]
    exact (List.pairwise_map.2 s.rules.ascending).imp ne_of_lt
  nodup_section := by
    intro x hx
    obtain ⟨e, -, rfl⟩ := List.mem_map.1 hx
    exact e.2.nodup_fields

/-- Settings as they are written. -/
def text (s : Settings) : String := s.sheet.text

theorem ofTable?_sheet (s : Settings) : ofTable? s.sheet.entries = some s := by
  have hword : readOptional (readWord? · >>= GeneratedCode.ofWord?)
      (s.sheet.entries.lookup "generated_code") = some (some s.generatedCode) :=
    congrArg (Option.map some) s.generatedCode.ofWord?_word
  have hboolean : readOptional readBoolean? (s.sheet.entries.lookup "concurrent") =
      some (some s.concurrent) := rfl
  have hrules : readOptional RuleTable.ofValue? (s.sheet.entries.lookup "rules") =
      some (some s.rules) := by
    have hlookup : s.sheet.entries.lookup "rules" =
        some (.table (s.sheet.sections.map fun x => (x.1, .table x.2.entries))) := rfl
    have hsections : (s.sheet.sections.map fun x => (x.1, Value.table x.2.entries)) =
        s.rules.entries.map fun x => (x.1, .table x.2.fields.entries) := List.map_map
    rw [hlookup, hsections, readOptional, RuleTable.ofValue?, RuleTable.mapM_fields,
      Option.map_some, RuleTable.ofList_entries, Option.map_some]
  have hkeys : hasOnlyKeys ["generated_code", "concurrent", "rules"] s.sheet.entries = true :=
    rfl
  rw [ofTable?, hkeys, hword, hboolean, hrules]
  rfl

end Settings

/-- **Any settings can be written down.** What is written is read back where all the rules in it are
known, and only there. -/
theorem parse_text (s : Settings) (known : List String) :
    Settings.parse s.text known = .ok s ↔ ∀ id ∈ s.rules.ids, id ∈ known := by
  have hparse : Settings.parse s.text known = s.validate known := by
    rw [Settings.parse, Settings.parseWith, Settings.text, s.sheet.document?_text,
      Option.bind_eq_bind, Option.bind_some, s.ofTable?_sheet]
  rw [hparse, Settings.validate_eq_ok_iff]
  exact and_iff_left rfl

/-- A rule whose id has a quote, a dot, a backslash and a line end, with a message that is empty,
and one whose id is empty, with a message of control characters. -/
def awkward : Settings := ⟨.report, false, .ofList
  [("a\".\\\n", ⟨none, some (.level .info), some ""⟩),
    ("", ⟨some true, none, some "\x00\x7f\r\n\t"⟩)]⟩

/-- The settings are read back, unless one of the rules is unknown. -/
theorem parse_text_awkward :
    Settings.parse awkward.text ["", "SPR0004", "a\".\\\n"] = .ok awkward ∧
      Settings.parse awkward.text [""] ≠ .ok awkward :=
  ⟨(parse_text awkward _).2 (by decide), fun h => absurd ((parse_text awkward _).1 h) (by decide)⟩

end BoxLint
