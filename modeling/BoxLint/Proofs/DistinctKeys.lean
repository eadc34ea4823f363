import BoxLint.Toml.Document
import Mathlib.Data.List.Basic

/-!
# Keys of a document

A table that a TOML text describes has each of its keys once, at every depth
(`Toml.distinct_document`). While a text is read a key is added only where it is missing
(`Section.alter`), and whatever is put in place of something else keeps to this as well, so the
tables under construction have it after each line (`Section.Distinct`), and finishing them changes
no key.
-/

namespace BoxLint.Toml

/-- In the value, and in all values within it, no table has a key twice. -/
inductive Value.Distinct : Value → Prop
  | string (s : String) : Distinct (.string s)
  | boolean (b : Bool) : Distinct (.boolean b)
  | number (n : Number) : Distinct (.number n)
  | dateTime (d : DateTime) : Distinct (.dateTime d)
  | array {vs : List Value} (h : ∀ v ∈ vs, v.Distinct) : Distinct (.array vs)
  | table {t : Table} (hkeys : (t.map Prod.fst).Nodup) (h : ∀ e ∈ t, e.2.Distinct) :
    Distinct (.table t)

/-- The same of what a key stands for while a text is read. -/
inductive Item.Distinct : Item → Prop
  | value {v : Value} (h : v.Distinct) : Distinct (.value v)
  | table {origin : Origin} {es : List (String × Item)} (hkeys : (es.map Prod.fst).Nodup)
    (h : ∀ e ∈ es, e.2.Distinct) : Distinct (.table origin es)
  | tables {earlier : List (List (String × Item))} {last : List (String × Item)}
    (hkeys : ∀ es ∈ last :: earlier, (es.map Prod.fst).Nodup)
    (h : ∀ es ∈ last :: earlier, ∀ e ∈ es, e.2.Distinct) : Distinct (.tables earlier last)

/-! ## Tables under construction -/

namespace Section

/-- No table in the section has a key twice. -/
structure Distinct (s : Section) : Prop where
  keys : (s.entries.map Prod.fst).Nodup
  items : ∀ e ∈ s.entries, e.2.Distinct

variable {s s' : Section} {k : String}

theorem distinct_empty (origin : Origin) : (empty origin).Distinct :=
  ⟨List.nodup_nil, by simp [empty]⟩

theorem Distinct.item (h : s.Distinct) (origin : Origin) : (Item.table origin s.entries).Distinct :=
  .table h.keys h.items

theorem mem_of_alterEntries {f : Option Item → Option Item} {es es' : List (String × Item)}
    (h : alterEntries k f es = some es') {e : String × Item} (he : e ∈ es') : e ∈ es ∨ e.1 = k := by
  fun_induction alterEntries k f es generalizing es' with
  | case1 =>
    obtain ⟨i, -, rfl⟩ := Option.map_eq_some_iff.1 h
    exact Or.inr (by rw [List.mem_singleton.1 he])
  | case2 i es =>
    obtain ⟨j, -, rfl⟩ := Option.map_eq_some_iff.1 h
    rcases List.mem_cons.1 he with rfl | he
    · exact Or.inr rfl
    · exact Or.inl (List.mem_cons_of_mem _ he)
  | case3 k' i es hne ih =>
    obtain ⟨es'', hes, rfl⟩ := Option.map_eq_some_iff.1 h
    rcases List.mem_cons.1 he with rfl | he
    · exact Or.inl List.mem_cons_self
    · exact (ih hes he).imp_left (List.mem_cons_of_mem _)

/-- A change keeps the keys apart if what it makes of an item does. -/
def KeepsDistinct (f : Option Item → Option Item) : Prop :=
  ∀ i j, (∀ x ∈ i, Item.Distinct x) → f i = some j → j.Distinct

theorem distinct_alterEntries {f : Option Item → Option Item} (hf : KeepsDistinct f)
    {es es' : List (String × Item)} (hkeys : (es.map Prod.fst).Nodup)
    (hitems : ∀ e ∈ es, e.2.Distinct) (h : alterEntries k f es = some es') :
    (es'.map Prod.fst).Nodup ∧ ∀ e ∈ es', e.2.Distinct := by
  fun_induction alterEntries k f es generalizing es' with
  | case1 =>
    obtain ⟨i, hi, rfl⟩ := Option.map_eq_some_iff.1 h
    simpa using hf none i (by simp) hi
  | case2 i es =>
    obtain ⟨hi, hrest⟩ := List.forall_mem_cons.1 hitems
    obtain ⟨j, hj, rfl⟩ := Option.map_eq_some_iff.1 h
    exact ⟨hkeys, List.forall_mem_cons.2 ⟨hf (some i) j (by simpa using hi) hj, hrest⟩⟩
  | case3 k' i es hne ih =>
    obtain ⟨hi, hrest⟩ := List.forall_mem_cons.1 hitems
    obtain ⟨hnew, hkeys⟩ := List.nodup_cons.1 hkeys
    obtain ⟨es'', hes, rfl⟩ := Option.map_eq_some_iff.1 h
    obtain ⟨hkeys', hitems'⟩ := ih hkeys hrest hes
    refine ⟨List.nodup_cons.2 ⟨fun hmem => ?_, hkeys'⟩, List.forall_mem_cons.2 ⟨hi, hitems'⟩⟩
    obtain ⟨e, he, heq⟩ := List.mem_map.1 hmem
    rcases mem_of_alterEntries hes he with he | he
    · exact hnew (List.mem_map.2 ⟨e, he, heq⟩)
    · exact hne (heq.symm.trans he)

theorem Distinct.alter {f : Option Item → Option Item} (hf : KeepsDistinct f) (hs : s.Distinct)
    (h : s.alter k f = some s') : s'.Distinct := by
  obtain ⟨es, hes, rfl⟩ := Option.map_eq_some_iff.1 h
  obtain ⟨hkeys, hitems⟩ := distinct_alterEntries hf hs.keys hs.items hes
  exact ⟨hkeys, hitems⟩

theorem Distinct.descend {dotted : Bool} {f : Section → Option Section}
    (hf : ∀ s s', s.Distinct → f s = some s' → s'.Distinct) (path : List String)
    (hs : s.Distinct) (h : s.descend dotted f path = some s') : s'.Distinct := by
  induction path generalizing s s' with
  | nil => exact hf s s' hs h
  | cons k ks ih =>
    refine hs.alter (fun i j hi hj => ?_) h
    match i with
    | none =>
      obtain ⟨t, ht, rfl⟩ := Option.map_eq_some_iff.1 hj
      exact (ih (distinct_empty _) ht).item _
    | some (.table origin entries) =>
      cases hi _ rfl with
      | table hkeys hitems =>
        simp only at hj
        split at hj
        · exact absurd hj (by simp)
        · obtain ⟨t, ht, rfl⟩ := Option.map_eq_some_iff.1 hj
          exact (ih ⟨hkeys, hitems⟩ ht).item _
    | some (.tables earlier last) =>
      cases hi _ rfl with
      | tables hkeys hitems =>
        obtain ⟨hlast, hkeys⟩ := List.forall_mem_cons.1 hkeys
        obtain ⟨hlast', hitems⟩ := List.forall_mem_cons.1 hitems
        obtain ⟨t, ht, rfl⟩ := Option.map_eq_some_iff.1 hj
        have ht' := ih ⟨hlast, hlast'⟩ ht
        exact .tables (List.forall_mem_cons.2 ⟨ht'.keys, hkeys⟩)
          (List.forall_mem_cons.2 ⟨ht'.items, hitems⟩)
    | some (.value v) => exact absurd hj (by simp)

theorem Distinct.addPair {p : KeyPath} {v : Value} (hv : v.Distinct) (hs : s.Distinct)
    (h : s.addPair p v = some s') : s'.Distinct := by
  refine hs.descend (fun t t' ht ht' => ?_) p.parents h
  split at ht'
  · exact absurd ht' (by simp)
  · refine ht.alter (fun i j _ hj => ?_) ht'
    match i with
    | none =>
      obtain rfl := Option.some.inj hj
      exact .value hv
    | some _ => exact absurd hj (by simp)

theorem Distinct.openTable {p : KeyPath} (hs : s.Distinct) (h : s.openTable p = some s') :
    s'.Distinct := by
  refine hs.descend (fun t t' ht ht' => ht.alter (fun i j hi hj => ?_) ht') p.parents h
  split at hj
  · obtain rfl := Option.some.inj hj
    exact (distinct_empty .written).item _
  · obtain rfl := Option.some.inj hj
    cases hi _ rfl with
    | table hkeys hitems => exact .table hkeys hitems
  · exact absurd hj (by simp)

theorem Distinct.openArrayTable {p : KeyPath} (hs : s.Distinct)
    (h : s.openArrayTable p = some s') : s'.Distinct := by
  refine hs.descend (fun t t' ht ht' => ht.alter (fun i j hi hj => ?_) ht') p.parents h
  split at hj
  · obtain rfl := Option.some.inj hj
    exact .tables (by simp) (by simp)
  · next earlier last =>
    obtain rfl := Option.some.inj hj
    cases hi _ rfl with
    | tables hkeys hitems =>
      have hmem : ∀ es ∈ earlier ++ [last], es ∈ last :: earlier := by simp [or_comm]
      exact .tables (List.forall_mem_cons.2 ⟨List.nodup_nil, fun es hes => hkeys es (hmem es hes)⟩)
        (List.forall_mem_cons.2 ⟨by simp, fun es hes => hitems es (hmem es hes)⟩)
  · exact absurd hj (by simp)

theorem distinct_ofPairs {ps : List (KeyPath × Value)} (hps : ∀ x ∈ ps, x.2.Distinct)
    (h : ofPairs? ps = some s') : s'.Distinct := by
  have hfold : ∀ s : Section, s.Distinct →
      ps.foldlM (fun s (x : KeyPath × Value) => s.addPair x.1 x.2) s = some s' → s'.Distinct := by
    clear h
    induction ps with
    | nil =>
      intro s hs h
      exact Option.some.inj h ▸ hs
    | cons x ps ih =>
      obtain ⟨hx, hps⟩ := List.forall_mem_cons.1 hps
      intro s hs h
      rw [List.foldlM_cons] at h
      obtain ⟨t, ht, h⟩ := Option.bind_eq_some_iff.1 h
      exact ih hps t (hs.addPair hx ht) h
  exact hfold _ (distinct_empty _) h

end Section

/-! ## Finished tables -/

theorem finish_eq_map (es : List (String × Item)) :
    finish es = es.map fun e => (e.1, e.2.toValue) := by
  induction es with
  | nil => rfl
  | cons e es ih => rw [finish, ih, List.map_cons]

theorem finishAll_eq_map (tables : List (List (String × Item))) :
    finishAll tables = tables.map fun es => .table (finish es) := by
  induction tables with
  | nil => rfl
  | cons es tables ih => rw [finishAll, ih, List.map_cons]

theorem distinct_finish {es : List (String × Item)} (hkeys : (es.map Prod.fst).Nodup)
    (h : ∀ e ∈ es, e.2.toValue.Distinct) : (Value.table (finish es)).Distinct := by
  rw [finish_eq_map]
  refine .table ?_ (List.forall_mem_map.2 h)
  rw [List.map_map]
  exact hkeys

theorem Item.Distinct.toValue {i : Item} (h : i.Distinct) : i.toValue.Distinct := by
  induction h with
  | value h => exact h
  | table hkeys _ ih => exact distinct_finish hkeys ih
  | @tables earlier last hkeys _ ih =>
    obtain ⟨hlast, hkeys⟩ := List.forall_mem_cons.1 hkeys
    obtain ⟨ihlast, ih⟩ := List.forall_mem_cons.1 ih
    rw [Item.toValue, finishAll_eq_map]
    refine .array fun v hv => ?_
    rcases List.mem_append.1 hv with hv | hv
    · obtain ⟨es, hes, rfl⟩ := List.mem_map.1 hv
      exact distinct_finish (hkeys es hes) (ih es hes)
    · obtain rfl := List.mem_singleton.1 hv
      exact distinct_finish hlast ihlast

/-! ## Reading values -/

/-- What a reader reads has no key twice. -/
def ReadsDistinct (read? : List Char → Option (Value × List Char)) : Prop :=
  ∀ cs v rest, read? cs = some (v, rest) → v.Distinct

theorem readsDistinct_scalar : ReadsDistinct scalar? := by
  intro cs v rest h
  unfold scalar? at h
  split at h
  · obtain ⟨_, -, he⟩ := Option.map_eq_some_iff.1 h
    cases he
    exact .string _
  · obtain ⟨_, -, he⟩ := Option.map_eq_some_iff.1 h
    cases he
    exact .string _
  · cases h
    exact .boolean _
  · cases h
    exact .boolean _
  · split at h
    · cases h
      exact .dateTime _
    · obtain ⟨_, -, he⟩ := Option.map_eq_some_iff.1 h
      cases he
      exact .number _

theorem distinct_items {read? : List Char → Option (Value × List Char)}
    (hread : ReadsDistinct read?) {fuel : Nat} {cs rest : List Char} {vs : List Value}
    (h : items? read? fuel cs = some (vs, rest)) : ∀ v ∈ vs, v.Distinct := by
  induction fuel generalizing cs vs with
  | zero => exact absurd h (by simp [items?])
  | succ fuel ih =>
    rw [items?] at h
    split at h
    · cases h
      simp
    · obtain ⟨⟨v, after⟩, hv, h⟩ := Option.bind_eq_some_iff.1 h
      have hv := hread _ _ _ hv
      simp only at h
      split at h
      · obtain ⟨⟨vs', _⟩, hvs, he⟩ := Option.map_eq_some_iff.1 h
        cases he
        exact List.forall_mem_cons.2 ⟨hv, ih hvs⟩
      · cases h
        simpa using hv
      · exact absurd h (by simp)

theorem distinct_pair {read? : List Char → Option (Value × List Char)}
    (hread : ReadsDistinct read?) {cs rest : List Char} {p : KeyPath} {v : Value}
    (h : pair? read? cs = some ((p, v), rest)) : v.Distinct := by
  obtain ⟨⟨p', after⟩, -, h⟩ := Option.bind_eq_some_iff.1 h
  simp only at h
  split at h
  · obtain ⟨⟨v', after'⟩, hv, h⟩ := Option.bind_eq_some_iff.1 h
    cases h
    exact hread _ _ _ hv
  · exact absurd h (by simp)

theorem distinct_pairs {read? : List Char → Option (Value × List Char)}
    (hread : ReadsDistinct read?) {fuel : Nat} {cs rest : List Char} {ps : List (KeyPath × Value)}
    (h : pairs? read? fuel cs = some (ps, rest)) : ∀ x ∈ ps, x.2.Distinct := by
  induction fuel generalizing cs ps with
  | zero => exact absurd h (by simp [pairs?])
  | succ fuel ih =>
    rw [pairs?] at h
    obtain ⟨⟨⟨p, v⟩, after⟩, hv, h⟩ := Option.bind_eq_some_iff.1 h
    have hv := distinct_pair hread hv
    simp only at h
    split at h
    · obtain ⟨⟨ps', _⟩, hps, he⟩ := Option.map_eq_some_iff.1 h
      cases he
      exact List.forall_mem_cons.2 ⟨hv, ih hps⟩
    · cases h
      simpa using hv
    · exact absurd h (by simp)

theorem readsDistinct_value (depth : Nat) : ReadsDistinct (value? depth) := by
  induction depth with
  | zero => exact readsDistinct_scalar
  | succ depth ih =>
    intro cs v rest h
    rw [value?.eq_def] at h
    simp only at h
    split at h
    · obtain ⟨⟨vs, _⟩, hvs, he⟩ := Option.map_eq_some_iff.1 h
      cases he
      exact .array (distinct_items ih hvs)
    · rw [inlineTable?] at h
      split at h
      · cases h
        exact .table List.nodup_nil (by simp)
      · obtain ⟨⟨ps, after⟩, hps, h⟩ := Option.bind_eq_some_iff.1 h
        obtain ⟨s, hs, h⟩ := Option.bind_eq_some_iff.1 h
        cases h
        exact ((Section.distinct_ofPairs (distinct_pairs ih hps) hs).item .written).toValue
    · exact readsDistinct_scalar _ _ _ h

/-! ## Documents -/

/-- The values of a statement have no key twice. -/
def Statement.Distinct : Statement → Prop
  | .header _ => True
  | .arrayHeader _ => True
  | .pair _ v => v.Distinct

theorem distinct_statement {cs rest : List Char} {st : Statement}
    (h : statement? cs = some (st, rest)) : st.Distinct := by
  unfold statement? at h
  split at h
  · obtain ⟨⟨p, after⟩, -, h⟩ := Option.bind_eq_some_iff.1 h
    split at h
    · cases h
      trivial
    · exact absurd h (by simp)
  · obtain ⟨⟨p, after⟩, -, h⟩ := Option.bind_eq_some_iff.1 h
    split at h
    · cases h
      trivial
    · exact absurd h (by simp)
  · obtain ⟨⟨⟨p, v⟩, after⟩, hv, he⟩ := Option.map_eq_some_iff.1 h
    cases he
    exact distinct_pair (readsDistinct_value maxNesting) hv

theorem distinct_statements {fuel : Nat} {cs : List Char} {sts : List Statement}
    (h : statements? fuel cs = some sts) : ∀ st ∈ sts, st.Distinct := by
  induction fuel generalizing cs sts with
  | zero =>
    rw [statements?] at h
    split at h
    · cases h
      simp
    · exact absurd h (by simp)
  | succ fuel ih =>
    rw [statements?] at h
    split at h
    · cases h
      simp
    · split at h
      · exact ih h
      · obtain ⟨⟨st, after⟩, hst, h⟩ := Option.bind_eq_some_iff.1 h
        obtain ⟨after', -, h⟩ := Option.bind_eq_some_iff.1 h
        obtain ⟨sts', hsts, h⟩ := Option.bind_eq_some_iff.1 h
        cases h
        exact List.forall_mem_cons.2 ⟨distinct_statement hst, ih hsts⟩

theorem distinct_assembleFrom {header : List String} {root root' : Section}
    {sts : List Statement} (hroot : root.Distinct) (hsts : ∀ st ∈ sts, st.Distinct)
    (h : assembleFrom header root sts = some root') : root'.Distinct := by
  induction sts generalizing header root with
  | nil => exact Option.some.inj h ▸ hroot
  | cons st sts ih =>
    obtain ⟨hst, hrest⟩ := List.forall_mem_cons.1 hsts
    cases st with
    | header p =>
      obtain ⟨next, hnext, h⟩ := Option.bind_eq_some_iff.1 h
      exact ih (hroot.openTable hnext) hrest h
    | arrayHeader p =>
      obtain ⟨next, hnext, h⟩ := Option.bind_eq_some_iff.1 h
      exact ih (hroot.openArrayTable hnext) hrest h
    | pair p v =>
      obtain ⟨next, hnext, h⟩ := Option.bind_eq_some_iff.1 h
      exact ih (hroot.descend (fun _ _ hs hs' => hs.addPair hst hs') header hnext) hrest h

/-- The tables of a document have no key twice. -/
theorem distinct_document {text : String} {t : Table} (h : document? text = some t) :
    (Value.table t).Distinct := by
  obtain ⟨sts, hsts, h⟩ := Option.bind_eq_some_iff.1 h
  obtain ⟨root, hroot, rfl⟩ := Option.map_eq_some_iff.1 h
  have hdistinct : root.Distinct :=
    distinct_assembleFrom (Section.distinct_empty .written) (distinct_statements hsts) hroot
  exact (hdistinct.item .written).toValue

end BoxLint.Toml
