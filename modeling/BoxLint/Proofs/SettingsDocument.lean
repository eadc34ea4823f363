import BoxLint.Proofs.ByteOrder
import BoxLint.Proofs.DistinctKeys
import BoxLint.Proofs.SettingsReach
import BoxLint.Settings.Reader
import Mathlib.Data.Option.Basic

/-!
# What settings a document describes

Which documents are accepted is said without the reader (`IsSettings`): by the keys of their tables
and the shape of the values under them. What an accepted document says is a relation between the
document and the settings (`SaysSettings`). Each reading function accepts exactly the values of its
shape and gives what they say; a value that may be missing is read by `readOptional`, and the two
sides of it are `Option.Rel` and a condition on the value if there is one (`exists_rel_iff`).

Rules are looked up by their ids. Where no table of a document has a key twice, the order in which
the rules are written does not matter, and the unknown id that is refused is the least one. That is
all that is asked of whoever reads the document from a text (`Settings.settles_parseWith`).
-/

namespace BoxLint

open Toml (Table Value)

/-! ## Words -/

/-- The value spells a word: it is the word, or a table with the word as its only key and nothing
under it. -/
inductive Spells : Value → String → Prop
  | word (w : String) : Spells (.string w) w
  | overTable (w : String) : Spells (.table [(w, .table [])]) w
  | overArray (w : String) : Spells (.table [(w, .array [])]) w

theorem readWord?_eq_some_iff {v : Value} {w : String} : readWord? v = some w ↔ Spells v w := by
  constructor
  · intro h
    unfold readWord? at h
    split at h
    · cases h
      exact .word _
    · cases h
      exact .overTable _
    · cases h
      exact .overArray _
    · exact absurd h (by simp)
  · rintro (_ | _ | _) <;> rfl

/-- The value spells a word that stands for `a`. -/
def SpellsOne {α : Type} (words : List (String × α)) (v : Value) (a : α) : Prop :=
  ∃ w, Spells v w ∧ (w, a) ∈ words

theorem exists_spellsOne_iff {α : Type} {words : List (String × α)} {v : Value} :
    (∃ a, SpellsOne words v a) ↔ ∃ w ∈ words.map Prod.fst, Spells v w := by
  simp only [SpellsOne, List.mem_map, Prod.exists, exists_and_right, exists_eq_right]
  exact ⟨fun ⟨a, w, hw, ha⟩ => ⟨w, ⟨a, ha⟩, hw⟩, fun ⟨w, ⟨a, ha⟩, hw⟩ => ⟨a, w, hw, ha⟩⟩

/-- The words for the treatments of generated code. -/
def GeneratedCode.words : List (String × GeneratedCode) :=
  [("skip", .skip), ("analyze", .analyze), ("report", .report)]

/-- The words for the choices of a severity. -/
def SeverityChoice.words : List (String × SeverityChoice) :=
  [("none", .off), ("hidden", .level .hidden), ("info", .level .info),
    ("suggestion", .level .info), ("warning", .level .warning), ("error", .level .error)]

theorem GeneratedCode.ofWord?_eq_some_iff {w : String} {g : GeneratedCode} :
    ofWord? w = some g ↔ (w, g) ∈ words := by
  unfold ofWord? words
  split_ifs <;> simp_all [eq_comm]

theorem SeverityChoice.ofWord?_eq_some_iff {w : String} {c : SeverityChoice} :
    ofWord? w = some c ↔ (w, c) ∈ words := by
  unfold ofWord? words
  split_ifs with hnone hhidden hinfo
  · simp [hnone, eq_comm]
  · simp [hhidden, eq_comm]
  · rcases hinfo with rfl | rfl <;> simp [eq_comm]
  all_goals simp_all [eq_comm]

theorem readWord?_bind_eq_some_iff {α : Type} {ofWord? : String → Option α}
    {words : List (String × α)} (h : ∀ w a, ofWord? w = some a ↔ (w, a) ∈ words) {v : Value}
    {a : α} : (readWord? v).bind ofWord? = some a ↔ SpellsOne words v a := by
  simp only [Option.bind_eq_some_iff, readWord?_eq_some_iff, h, SpellsOne]

/-! ## Values that may be missing -/

section Optional

variable {α β : Type} {r : α → β → Prop}

theorem exists_rel_iff {o : Option α} : (∃ p, Option.Rel r o p) ↔ ∀ a ∈ o, ∃ b, r a b := by
  cases o with
  | none => exact ⟨by simp, fun _ => ⟨none, .none⟩⟩
  | some a =>
    constructor
    · rintro ⟨_, ⟨hab⟩⟩ a' ha'
      obtain rfl := Option.some.inj ha'
      exact ⟨_, hab⟩
    · intro h
      obtain ⟨b, hab⟩ := h a rfl
      exact ⟨some b, .some hab⟩

theorem isSome_eq_of_rel {o : Option α} {p : Option β} (h : Option.Rel r o p) :
    o.isSome = p.isSome := by
  cases h <;> rfl

end Optional

theorem readOptional_eq_some_iff {α : Type} {read? : Value → Option α} {r : Value → α → Prop}
    (hread : ∀ v a, read? v = some a ↔ r v a) {o : Option Value} {p : Option α} :
    readOptional read? o = some p ↔ Option.Rel r o p := by
  cases o with
  | none =>
    constructor
    · intro h
      cases h
      exact .none
    · rintro ⟨⟩
      rfl
  | some v =>
    rw [readOptional, Option.map_eq_some_iff]
    constructor
    · rintro ⟨a, ha, rfl⟩
      exact .some ((hread v a).1 ha)
    · rintro ⟨ha⟩
      exact ⟨_, (hread v _).2 ha, rfl⟩

theorem readBoolean?_eq_some_iff {v : Value} {b : Bool} :
    readBoolean? v = some b ↔ v = .boolean b := by
  cases v <;> simp [readBoolean?]

theorem readText?_eq_some_iff {v : Value} {s : String} : readText? v = some s ↔ v = .string s := by
  cases v <;> simp [readText?]

theorem hasOnlyKeys_iff {keys : List String} {t : Table} :
    hasOnlyKeys keys t = true ↔ ∀ e ∈ t, e.1 ∈ keys := by
  simp [hasOnlyKeys]

/-! ## Rules -/

/-- The fields of a rule have the shape they should, as far as they are there. -/
structure AreFields (enabled severity message : Option Value) : Prop where
  enabled : ∀ v ∈ enabled, ∃ b, v = .boolean b
  severity : ∀ v ∈ severity, ∃ w ∈ SeverityChoice.words.map Prod.fst, Spells v w
  message : ∀ v ∈ message, ∃ s, v = .string s

/-- The fields of a rule say what the override has, and leave open what it leaves open. -/
structure SayFields (enabled severity message : Option Value) (o : RuleOverride) : Prop where
  enabled : Option.Rel (fun v b => v = .boolean b) enabled o.enabled
  severity : Option.Rel (SpellsOne SeverityChoice.words) severity o.severity
  message : Option.Rel (fun v s => v = .string s) message o.message

/-- The value has the shape of a rule: a table of fields by their names, or an array of fields in
their order, of which those after the third do not matter. -/
inductive IsRule : Value → Prop
  | table {t : Table} (hkeys : ∀ e ∈ t, e.1 ∈ ["enabled", "severity", "message"])
    (h : AreFields (t.lookup "enabled") (t.lookup "severity") (t.lookup "message")) :
    IsRule (.table t)
  | array {vs : List Value} (h : AreFields vs[0]? vs[1]? vs[2]?) : IsRule (.array vs)

/-- The value says what the override has. -/
inductive SaysRule : Value → RuleOverride → Prop
  | table {t : Table} {o : RuleOverride}
    (h : SayFields (t.lookup "enabled") (t.lookup "severity") (t.lookup "message") o) :
    SaysRule (.table t) o
  | array {vs : List Value} {o : RuleOverride} (h : SayFields vs[0]? vs[1]? vs[2]? o) :
    SaysRule (.array vs) o

theorem exists_sayFields_iff {enabled severity message : Option Value} :
    (∃ o, SayFields enabled severity message o) ↔ AreFields enabled severity message := by
  constructor
  · rintro ⟨o, h⟩
    refine ⟨exists_rel_iff.1 ⟨_, h.enabled⟩, fun v hv => ?_, exists_rel_iff.1 ⟨_, h.message⟩⟩
    exact exists_spellsOne_iff.1 (exists_rel_iff.1 ⟨_, h.severity⟩ v hv)
  · intro h
    obtain ⟨e, he⟩ := exists_rel_iff.2 h.enabled
    obtain ⟨s, hs⟩ := exists_rel_iff.2 fun v hv => exists_spellsOne_iff.2 (h.severity v hv)
    obtain ⟨m, hm⟩ := exists_rel_iff.2 h.message
    exact ⟨⟨e, s, m⟩, he, hs, hm⟩

namespace RuleOverride

theorem ofFields?_eq_some_iff {enabled severity message : Option Value} {o : RuleOverride} :
    ofFields? enabled severity message = some o ↔ SayFields enabled severity message o := by
  have hword : ∀ v c, (readWord? v).bind SeverityChoice.ofWord? = some c ↔
      SpellsOne SeverityChoice.words v c := fun v c =>
    readWord?_bind_eq_some_iff fun _ _ => SeverityChoice.ofWord?_eq_some_iff
  simp only [ofFields?, Option.bind_eq_bind, Option.bind_eq_some_iff,
    readOptional_eq_some_iff (fun _ _ => readBoolean?_eq_some_iff), readOptional_eq_some_iff hword,
    readOptional_eq_some_iff (fun _ _ => readText?_eq_some_iff)]
  constructor
  · rintro ⟨e, he, s, hs, m, hm, ho⟩
    obtain rfl := Option.some.inj ho
    exact ⟨he, hs, hm⟩
  · intro h
    exact ⟨_, h.enabled, _, h.severity, _, h.message, rfl⟩

theorem ofValue?_eq_some_iff {v : Value} {o : RuleOverride} :
    ofValue? v = some o ↔ IsRule v ∧ SaysRule v o := by
  constructor
  · intro h
    unfold ofValue? at h
    split at h
    · split at h
      · next hkeys =>
        have hsays := ofFields?_eq_some_iff.1 h
        exact ⟨.table (hasOnlyKeys_iff.1 hkeys) (exists_sayFields_iff.1 ⟨o, hsays⟩), .table hsays⟩
      · exact absurd h (by simp)
    · have hsays := ofFields?_eq_some_iff.1 h
      exact ⟨.array (exists_sayFields_iff.1 ⟨o, hsays⟩), .array hsays⟩
    · exact absurd h (by simp)
  · rintro ⟨_ | _, hsays⟩
    · next hkeys _ =>
      cases hsays with
      | table h => rw [ofValue?, if_pos (hasOnlyKeys_iff.2 hkeys), ofFields?_eq_some_iff.2 h]
    · cases hsays with
      | array h => rw [ofValue?, ofFields?_eq_some_iff.2 h]

theorem exists_saysRule {v : Value} (h : IsRule v) : ∃ o, SaysRule v o := by
  cases h with
  | table _ h =>
    obtain ⟨o, ho⟩ := exists_sayFields_iff.2 h
    exact ⟨o, .table ho⟩
  | array h =>
    obtain ⟨o, ho⟩ := exists_sayFields_iff.2 h
    exact ⟨o, .array ho⟩

end RuleOverride

/-! ## Tables of rules -/

theorem lookup_rel {α β : Type} {r : α → β → Prop} {es : List (String × α)}
    {fs : List (String × β)} (h : List.Forall₂ (fun e f => f.1 = e.1 ∧ r e.2 f.2) es fs)
    (k : String) : Option.Rel r (es.lookup k) (fs.lookup k) := by
  induction h with
  | nil => exact .none
  | @cons e f es fs hef _ ih =>
    obtain ⟨k₁, a⟩ := e
    obtain ⟨k₂, b⟩ := f
    obtain ⟨rfl, hab⟩ := hef
    rw [List.lookup_cons, List.lookup_cons]
    cases k == k₂ with
    | true => exact .some hab
    | false => exact ih

theorem isSome_lookup_iff {α : Type} {es : List (String × α)} {k : String} :
    (es.lookup k).isSome = true ↔ k ∈ es.map Prod.fst := by
  rw [List.lookup_isSome_iff, List.mem_map]
  exact exists_congr fun e => and_congr_right fun _ => beq_iff_eq.trans eq_comm

theorem Toml.Value.Distinct.nodup_of_lookup {t u : Table} {k : String}
    (h : (Value.table t).Distinct) (hk : t.lookup k = some (.table u)) :
    (u.map Prod.fst).Nodup := by
  obtain ⟨before, after, rfl, -⟩ := List.lookup_eq_some_iff.1 hk
  cases h with
  | table _ h =>
    cases h (k, .table u) (by simp) with
    | table hkeys _ => exact hkeys

namespace RuleTable

theorem forall₂_of_mapM_eq_some {t : Table} {es : List (String × RuleOverride)}
    (h : t.mapM entry? = some es) :
    List.Forall₂ (fun e f => f.1 = e.1 ∧ IsRule e.2 ∧ SaysRule e.2 f.2) t es := by
  induction t generalizing es with
  | nil =>
    obtain rfl := Option.some.inj h
    exact .nil
  | cons e t ih =>
    rw [List.mapM_cons] at h
    obtain ⟨f, hf, h⟩ := Option.bind_eq_some_iff.1 h
    obtain ⟨fs, hfs, h⟩ := Option.bind_eq_some_iff.1 h
    obtain rfl := Option.some.inj h
    obtain ⟨o, ho, rfl⟩ := Option.map_eq_some_iff.1 hf
    exact .cons ⟨rfl, RuleOverride.ofValue?_eq_some_iff.1 ho⟩ (ih hfs)

theorem map_fst_of_mapM_eq_some {t : Table} {es : List (String × RuleOverride)}
    (h : t.mapM entry? = some es) : es.map Prod.fst = t.map Prod.fst := by
  have hforall := forall₂_of_mapM_eq_some h
  clear h
  induction hforall with
  | nil => rfl
  | cons hef _ ih => rw [List.map_cons, List.map_cons, hef.1, ih]

theorem isRule_of_mapM_eq_some {t : Table} {es : List (String × RuleOverride)}
    (h : t.mapM entry? = some es) : ∀ e ∈ t, IsRule e.2 := by
  have hforall := forall₂_of_mapM_eq_some h
  clear h
  induction hforall with
  | nil => simp
  | cons hef _ ih => exact List.forall_mem_cons.2 ⟨hef.2.1, ih⟩

theorem exists_mapM_eq_some {t : Table} (h : ∀ e ∈ t, IsRule e.2) :
    ∃ es, t.mapM entry? = some es := by
  induction t with
  | nil => exact ⟨[], rfl⟩
  | cons e t ih =>
    obtain ⟨he, ht⟩ := List.forall_mem_cons.1 h
    obtain ⟨o, ho⟩ := RuleOverride.exists_saysRule he
    obtain ⟨es, hes⟩ := ih ht
    have hentry : entry? e = some (e.1, o) := by
      unfold entry?
      rw [RuleOverride.ofValue?_eq_some_iff.2 ⟨he, ho⟩]
      rfl
    exact ⟨(e.1, o) :: es, by rw [List.mapM_cons, hentry, hes]; rfl⟩

theorem get?_ofList {es : List (String × RuleOverride)} (h : (es.map Prod.fst).Nodup)
    (id : String) : (ofList es).get? id = es.lookup id := by
  have hfold : ∀ t : RuleTable, (es.foldl (fun t (x : String × RuleOverride) => t.insert x.1 x.2)
      t).get? id = (es.lookup id).or (t.get? id) := by
    induction es with
    | nil => exact fun t => rfl
    | cons e es ih =>
      obtain ⟨hnew, hes⟩ := List.nodup_cons.1 h
      intro t
      rw [List.foldl_cons, ih hes, get?_insert, lookup_cons]
      by_cases hid : id = e.1
      · have hnone : es.lookup id = none := by
          rw [← Option.not_isSome_iff_eq_none, isSome_lookup_iff, hid]
          exact hnew
        rw [if_pos hid, if_pos hid, hnone]
        rfl
      · rw [if_neg hid, if_neg hid]
  exact (hfold empty).trans Option.or_none

theorem mem_ids_iff {t : RuleTable} {id : String} : id ∈ t.ids ↔ (t.get? id).isSome = true :=
  isSome_lookup_iff.symm

end RuleTable

/-! ## Settings -/

/-- The rules that a table of settings has, by their ids. -/
def rulesOf (t : Table) : Table :=
  match t.lookup "rules" with
  | some (.table rules) => rules
  | _ => []

/-- The table has the shape of settings. -/
structure IsSettings (t : Table) : Prop where
  keys : ∀ e ∈ t, e.1 ∈ ["generated_code", "concurrent", "rules"]
  generatedCode : ∀ v ∈ t.lookup "generated_code",
    ∃ w ∈ GeneratedCode.words.map Prod.fst, Spells v w
  concurrent : ∀ v ∈ t.lookup "concurrent", ∃ b, v = .boolean b
  rules : ∀ v ∈ t.lookup "rules", ∃ rules, v = .table rules
  eachRule : ∀ e ∈ rulesOf t, IsRule e.2

/-- The table says what the settings have: what is not written is as by default, and there is an
override for each rule that is written and for no other. -/
structure SaysSettings (t : Table) (s : Settings) : Prop where
  generatedCode : ∃ g, Option.Rel (SpellsOne GeneratedCode.words) (t.lookup "generated_code") g ∧
    s.generatedCode = g.getD .skip
  concurrent : ∃ b, Option.Rel (fun v b => v = .boolean b) (t.lookup "concurrent") b ∧
    s.concurrent = b.getD true
  rules : ∀ id, Option.Rel SaysRule ((rulesOf t).lookup id) (s.rules.get? id)

namespace Settings

variable {t : Table} {s : Settings} {known : List String}

theorem ofTable?_eq_some_iff :
    ofTable? t = some s ↔ (∀ e ∈ t, e.1 ∈ ["generated_code", "concurrent", "rules"]) ∧
      ∃ g, Option.Rel (SpellsOne GeneratedCode.words) (t.lookup "generated_code") g ∧
      ∃ b, Option.Rel (fun v b => v = .boolean b) (t.lookup "concurrent") b ∧
      ∃ r, readOptional RuleTable.ofValue? (t.lookup "rules") = some r ∧
        s = ⟨g.getD .skip, b.getD true, r.getD .empty⟩ := by
  have hword : ∀ v c, (readWord? v).bind GeneratedCode.ofWord? = some c ↔
      SpellsOne GeneratedCode.words v c := fun v c =>
    readWord?_bind_eq_some_iff fun _ _ => GeneratedCode.ofWord?_eq_some_iff
  simp only [ofTable?, Option.bind_eq_bind, Option.bind_eq_some_iff, Option.guard_eq_some',
    hasOnlyKeys_iff, readOptional_eq_some_iff hword,
    readOptional_eq_some_iff (fun _ _ => readBoolean?_eq_some_iff), exists_const,
    Option.pure_def, Option.some.injEq, eq_comm (b := s)]
  rfl

theorem exists_readRules_iff :
    (∃ r, readOptional RuleTable.ofValue? (t.lookup "rules") = some r) ↔
      (∀ v ∈ t.lookup "rules", ∃ rules, v = .table rules) ∧ ∀ e ∈ rulesOf t, IsRule e.2 := by
  rw [rulesOf]
  cases t.lookup "rules" with
  | none => simp [readOptional]
  | some v =>
    cases v with
    | table rules =>
      simp only [readOptional, RuleTable.ofValue?]
      constructor
      · rintro ⟨r, hr⟩
        obtain ⟨_, hr, -⟩ := Option.map_eq_some_iff.1 hr
        obtain ⟨es, hes, -⟩ := Option.map_eq_some_iff.1 hr
        refine ⟨fun v hv => ⟨rules, (Option.some.inj hv).symm⟩, ?_⟩
        exact RuleTable.isRule_of_mapM_eq_some hes
      · rintro ⟨-, hrules⟩
        obtain ⟨es, hes⟩ := RuleTable.exists_mapM_eq_some hrules
        exact ⟨_, by rw [hes]; rfl⟩
    | _ => simp [readOptional, RuleTable.ofValue?]

theorem saysRules_of_readRules (ht : (Value.table t).Distinct) {r : Option RuleTable}
    (h : readOptional RuleTable.ofValue? (t.lookup "rules") = some r) (id : String) :
    Option.Rel SaysRule ((rulesOf t).lookup id) ((r.getD .empty).get? id) := by
  rw [rulesOf]
  cases hv : t.lookup "rules" with
  | none =>
    rw [hv] at h
    cases h
    exact .none
  | some v =>
    rw [hv] at h
    obtain ⟨rt, hrt, rfl⟩ := Option.map_eq_some_iff.1 h
    cases v with
    | table rules =>
      obtain ⟨es, hes, rfl⟩ := Option.map_eq_some_iff.1 hrt
      have hforall := RuleTable.forall₂_of_mapM_eq_some hes
      have hkeys := RuleTable.map_fst_of_mapM_eq_some hes
      have hnodup := ht.nodup_of_lookup hv
      rw [Option.getD_some, RuleTable.get?_ofList (hkeys ▸ hnodup)]
      exact lookup_rel (hforall.imp fun _ _ h => ⟨h.1, h.2.2⟩) id
    | _ => exact absurd hrt (by simp [RuleTable.ofValue?])

/-- The tables that are accepted are those of the shape of settings. -/
theorem exists_ofTable?_iff : (∃ s, ofTable? t = some s) ↔ IsSettings t := by
  simp only [ofTable?_eq_some_iff]
  constructor
  · rintro ⟨s, hkeys, g, hg, b, hb, r, hr, -⟩
    obtain ⟨hrules, heach⟩ := exists_readRules_iff.1 ⟨r, hr⟩
    exact ⟨hkeys, fun v hv => exists_spellsOne_iff.1 (exists_rel_iff.1 ⟨g, hg⟩ v hv),
      exists_rel_iff.1 ⟨b, hb⟩, hrules, heach⟩
  · intro h
    obtain ⟨g, hg⟩ := exists_rel_iff.2 fun v hv => exists_spellsOne_iff.2 (h.generatedCode v hv)
    obtain ⟨b, hb⟩ := exists_rel_iff.2 h.concurrent
    obtain ⟨r, hr⟩ := exists_readRules_iff.2 ⟨h.rules, h.eachRule⟩
    exact ⟨_, h.keys, g, hg, b, hb, r, hr, rfl⟩

theorem saysSettings_of_ofTable? (ht : (Value.table t).Distinct) (h : ofTable? t = some s) :
    SaysSettings t s := by
  obtain ⟨-, g, hg, b, hb, r, hr, rfl⟩ := ofTable?_eq_some_iff.1 h
  exact ⟨⟨g, hg, rfl⟩, ⟨b, hb, rfl⟩, saysRules_of_readRules ht hr⟩

/-! ## Known rules -/

theorem mem_ids_iff_of_saysSettings (h : SaysSettings t s) {id : String} :
    id ∈ s.rules.ids ↔ id ∈ (rulesOf t).map Prod.fst := by
  rw [RuleTable.mem_ids_iff, ← isSome_eq_of_rel (h.rules id), isSome_lookup_iff]

theorem validate_of_known (h : ∀ id ∈ s.rules.ids, id ∈ known) : s.validate known = .ok s := by
  have hnone : s.rules.ids.find? (!known.contains ·) = none := by
    rw [List.find?_eq_none]
    simpa using h
  rw [validate, hnone]

theorem validate_eq_ok_iff {s' : Settings} :
    s.validate known = .ok s' ↔ (∀ id ∈ s.rules.ids, id ∈ known) ∧ s' = s := by
  constructor
  · intro h
    unfold validate at h
    split at h
    · exact absurd h (by simp)
    · next hnone =>
      rw [List.find?_eq_none] at hnone
      exact ⟨by simpa using hnone, (Except.ok.inj h).symm⟩
  · rintro ⟨hknown, rfl⟩
    exact validate_of_known hknown

/-- The rule that is refused is the first unknown one in the order of bytes. -/
theorem exists_validate_eq_error (h : ∃ id ∈ s.rules.ids, id ∉ known) :
    ∃ id, s.validate known = .error (.unknownRule id) ∧ id ∈ s.rules.ids ∧ id ∉ known ∧
      ∀ id' ∈ s.rules.ids, id' ∉ known → Text.bytes id ≤ Text.bytes id' := by
  obtain ⟨id, hid⟩ : ∃ id, s.rules.ids.find? (!known.contains ·) = some id := by
    rw [← Option.isSome_iff_exists, List.find?_isSome]
    simpa using h
  obtain ⟨hunknown, before, after, heq, hbefore⟩ := List.find?_eq_some_iff_append.1 hid
  refine ⟨id, by rw [validate, hid], List.mem_of_find?_eq_some hid, by simpa using hunknown, ?_⟩
  intro id' hid' hunknown'
  have hascending : s.rules.ids.Pairwise (· < ·) := List.pairwise_map.2 s.rules.ascending
  rw [heq] at hid' hascending
  rcases List.mem_append.1 hid' with hmem | hmem
  · exact absurd (hbefore id' hmem) (by simpa using hunknown')
  · rcases List.mem_cons.1 hmem with rfl | hmem
    · exact List.le_refl _
    · have hlt := (List.pairwise_cons.1 (List.pairwise_append.1 hascending).2.1).1 id' hmem
      exact Text.bytes_le_of_le hlt.le

end Settings

/-- What becomes of a table from which settings are read: it is accepted exactly if it has the shape
of settings and all its rules are known. -/
structure Settles (known : List String) (t : Table) (r : Except SettingsError Settings) : Prop where
  accepted_iff : (∃ s, r = .ok s) ↔ IsSettings t ∧ ∀ id ∈ (rulesOf t).map Prod.fst, id ∈ known
  /-- The settings are what the table says. -/
  saysSettings : ∀ s, r = .ok s → SaysSettings t s
  /-- The least unknown rule is refused. -/
  refused : IsSettings t → ∀ unknown ∈ (rulesOf t).map Prod.fst, unknown ∉ known →
    ∃ id, r = .error (.unknownRule id) ∧ id ∈ (rulesOf t).map Prod.fst ∧ id ∉ known ∧
      ∀ id' ∈ (rulesOf t).map Prod.fst, id' ∉ known → Text.bytes id ≤ Text.bytes id'
  malformed : ¬ IsSettings t → r = .error .malformed

/-- Whoever reads the document, its table is settled if no table in it has a key twice. -/
theorem Settings.settles_parseWith {read? : String → Option Table} {text : String} {t : Table}
    (hread : read? text = some t) (ht : (Value.table t).Distinct) (known : List String) :
    Settles known t (parseWith read? text known) := by
  by_cases hsettings : IsSettings t
  · obtain ⟨s, hs⟩ := exists_ofTable?_iff.2 hsettings
    have hsays := saysSettings_of_ofTable? ht hs
    have hparse : parseWith read? text known = s.validate known := by
      rw [parseWith, hread, Option.bind_eq_bind, Option.bind_some, hs]
    have hids : ∀ id, id ∈ (rulesOf t).map Prod.fst ↔ id ∈ s.rules.ids :=
      fun _ => (mem_ids_iff_of_saysSettings hsays).symm
    rw [hparse]
    refine ⟨?_, ?_, ?_, fun hnot => absurd hsettings hnot⟩
    · simp only [validate_eq_ok_iff, hids]
      exact ⟨fun ⟨_, hknown, _⟩ => ⟨hsettings, hknown⟩, fun h => ⟨s, h.2, rfl⟩⟩
    · intro s' hs'
      obtain ⟨-, rfl⟩ := validate_eq_ok_iff.1 hs'
      exact hsays
    · intro _ unknown hmem hunknown
      simp only [hids] at hmem ⊢
      exact exists_validate_eq_error ⟨unknown, hmem, hunknown⟩
  · have hnone : ofTable? t = none := by
      rw [Option.eq_none_iff_forall_ne_some]
      exact fun s hs => hsettings (exists_ofTable?_iff.1 ⟨s, hs⟩)
    have hparse : parseWith read? text known = .error .malformed := by
      rw [parseWith, hread, Option.bind_eq_bind, Option.bind_some, hnone]
    rw [hparse]
    refine ⟨?_, ?_, fun h => absurd h hsettings, fun _ => rfl⟩
    · simp [hsettings]
    · simp

theorem Settings.parseWith_of_none {read? : String → Option Table} {text : String}
    (hread : read? text = none) (known : List String) :
    parseWith read? text known = .error .malformed := by
  rw [parseWith, hread]
  rfl

/-- **What becomes of a text.** A text that is no document, or whose table has not the shape of
settings, is malformed, whatever rules are known. A table of settings is accepted exactly if all
its rules are known; the settings then are what it says. Otherwise the least unknown rule is
refused. -/
theorem parse_document (text : String) (known : List String) :
    (Toml.document? text = none → Settings.parse text known = .error .malformed) ∧
    ∀ t, Toml.document? text = some t →
      ((∃ s, Settings.parse text known = .ok s) ↔
        IsSettings t ∧ ∀ id ∈ (rulesOf t).map Prod.fst, id ∈ known) ∧
      (∀ s, Settings.parse text known = .ok s → SaysSettings t s) ∧
      (IsSettings t → ∀ unknown ∈ (rulesOf t).map Prod.fst, unknown ∉ known →
        ∃ id, Settings.parse text known = .error (.unknownRule id) ∧
          id ∈ (rulesOf t).map Prod.fst ∧ id ∉ known ∧
          ∀ id' ∈ (rulesOf t).map Prod.fst, id' ∉ known → Text.bytes id ≤ Text.bytes id') ∧
      (¬ IsSettings t → Settings.parse text known = .error .malformed) := by
  refine ⟨fun hnone => Settings.parseWith_of_none hnone known, fun t ht => ?_⟩
  have hsettles := Settings.settles_parseWith ht (Toml.distinct_document ht) known
  exact ⟨hsettles.accepted_iff, hsettles.saysSettings, hsettles.refused, hsettles.malformed⟩

/-- A text with two rules, the lesser one last. -/
def twoRules : String := "[rules.SPR0004]\nenabled = false\n[rules.CA1000]\n"

/-- Both rules are read where they are known. Where neither is, the one that is refused is the
lesser. -/
theorem parse_document_twoRules : ∃ t, Toml.document? twoRules = some t ∧ IsSettings t ∧
    (∃ s, Settings.parse twoRules ["CA1000", "SPR0004"] = .ok s ∧ SaysSettings t s ∧
      s.rules.ids = ["CA1000", "SPR0004"]) ∧
    Settings.parse twoRules [] = .error (.unknownRule "CA1000") ∧
    ∀ id ∈ (rulesOf t).map Prod.fst, Text.bytes "CA1000" ≤ Text.bytes id := by
  have hok : Settings.parse twoRules ["CA1000", "SPR0004"] = .ok ⟨.skip, true, .ofList
      [("SPR0004", ⟨some false, none, none⟩), ("CA1000", ⟨none, none, none⟩)]⟩ := by
    decide +kernel
  have herror : Settings.parse twoRules [] = .error (.unknownRule "CA1000") := by decide +kernel
  obtain ⟨t, ht⟩ : ∃ t, Toml.document? twoRules = some t :=
    Option.isSome_iff_exists.1 (by decide +kernel)
  obtain ⟨haccepted, hsays, -⟩ := (parse_document twoRules ["CA1000", "SPR0004"]).2 t ht
  obtain ⟨hrefused, -, hleast, -⟩ := (parse_document twoRules []).2 t ht
  have hsettings := (haccepted.1 ⟨_, hok⟩).1
  have hunknown : ∃ id ∈ (rulesOf t).map Prod.fst, id ∉ [] := by
    by_contra hall
    obtain ⟨s, hs⟩ := hrefused.2 ⟨hsettings, fun id hid => absurd ⟨id, hid, by simp⟩ hall⟩
    exact absurd (hs.symm.trans herror) (by simp)
  obtain ⟨unknown, hmem, hnot⟩ := hunknown
  obtain ⟨id, hid, -, -, hle⟩ := hleast hsettings unknown hmem hnot
  obtain rfl : id = "CA1000" := by simpa using hid.symm.trans herror
  exact ⟨t, ht, hsettings, ⟨_, hok, hsays _ hok, by decide⟩, herror,
    fun id' hid' => hle id' hid' (by simp)⟩

end BoxLint
