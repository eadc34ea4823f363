import BoxLint.Operation
import Mathlib.Data.List.Basic

/-!
# Paths in operations

A path leads from an operation to one below it, through the operands of conversions and through
children (`Operation.at?`). Paths are ordered step by step, the operand before the children.
`Operation.located` lists the operations of a tree with their paths:

* it lists them in the order of visits (`map_snd_located`);
* it has exactly the paths that lead somewhere, with what they lead to (`mem_located`);
* its paths ascend, so that none occurs twice (`pairwise_located`).
-/

namespace BoxLint

/-! ## Numbered lists -/

section Numbered

variable {α β γ : Type}

theorem map_flatMap_zipIdx {xs : List α} {f : α × Nat → List β} {g : β → γ} {k : α → List γ}
    (h : ∀ x ∈ xs.zipIdx, (f x).map g = k x.1) : (xs.zipIdx.flatMap f).map g = xs.flatMap k := by
  rw [List.map_flatMap, List.flatMap_congr h, ← List.flatMap_map, List.zipIdx_map_fst]

/-- What numbered entries give ascends if each gives an ascending list and a lower number gives
what comes before. -/
theorem pairwise_flatMap_zipIdx {xs : List α} {f : α × Nat → List β} {r : β → β → Prop}
    (hf : ∀ x ∈ xs.zipIdx, (f x).Pairwise r)
    (hr : ∀ x y : α × Nat, x.2 < y.2 → ∀ a ∈ f x, ∀ b ∈ f y, r a b) :
    (xs.zipIdx.flatMap f).Pairwise r := by
  have hnum : xs.zipIdx.Pairwise fun x y => x.2 < y.2 := by
    refine List.pairwise_map.1 ?_
    rw [List.zipIdx_map_snd]
    exact List.pairwise_lt_range'
  exact List.pairwise_flatMap.2 ⟨hf, hnum.imp fun hxy => hr _ _ hxy⟩

end Numbered

namespace Operation

/-- A statement about operations holds of all of them if it passes from the operand and the
children of an operation to the operation. -/
@[elab_as_elim]
theorem induction {motive : Operation → Prop}
    (plain : ∀ k b cs, (∀ c ∈ cs, motive c) → motive (.plain k b cs))
    (conversion : ∀ k o b cs, motive o → (∀ c ∈ cs, motive c) → motive (.conversion k o b cs))
    (op : Operation) : motive op :=
  @Operation.rec motive (fun cs => ∀ c ∈ cs, motive c) plain conversion (by simp)
    (fun c cs hc hcs => by simpa using ⟨hc, hcs⟩) op

/-- A step from an operation to one right below it. -/
inductive Step where
  | operand
  | child (i : Nat)
  deriving DecidableEq, Repr

/-- The place of a step among those of its operation. -/
def Step.rank : Step → Nat
  | .operand => 0
  | .child i => i + 1

instance : LT Step := ⟨fun s t => s.rank < t.rank⟩

instance : Std.Irrefl (fun s t : Step => s < t) := ⟨fun s => Nat.lt_irrefl s.rank⟩

instance : Std.Asymm (fun s t : Step => s < t) := ⟨fun _ _ h => Nat.lt_asymm h⟩

/-- A path down from an operation. -/
abbrev Path := List Step

/-- The operation right below another. -/
def below? (op : Operation) : Step → Option Operation
  | .operand => op.operand?
  | .child i => op.children[i]?

/-- The operation at the end of a path. -/
def at? : Operation → Path → Option Operation
  | op, [] => some op
  | op, s :: p => (op.below? s).bind (·.at? p)

/-! ## Operations with their paths -/

/-- Puts a step before each path. -/
def under (s : Step) (xs : List (Path × Operation)) : List (Path × Operation) :=
  xs.map fun x => (s :: x.1, x.2)

theorem mem_under {s : Step} {xs : List (Path × Operation)} {p : Path} {o : Operation} :
    (p, o) ∈ under s xs ↔ ∃ q, (q, o) ∈ xs ∧ p = s :: q := by
  simp only [under, List.mem_map, Prod.exists, Prod.mk.injEq]
  constructor
  · rintro ⟨q, o', h, rfl, rfl⟩
    exact ⟨q, h, rfl⟩
  · rintro ⟨q, h, rfl⟩
    exact ⟨q, o, h, rfl, rfl⟩

theorem map_snd_under (s : Step) (xs : List (Path × Operation)) :
    (under s xs).map Prod.snd = xs.map Prod.snd := by
  simp [under]

theorem pairwise_under {s : Step} {xs : List (Path × Operation)}
    (h : xs.Pairwise (·.1 < ·.1)) : (under s xs).Pairwise (·.1 < ·.1) := by
  refine List.pairwise_map.2 (h.imp fun hxy => ?_)
  exact List.cons_lt_cons_iff.2 (Or.inr ⟨rfl, hxy⟩)

mutual

/-- The operations of a tree with their paths, in the order they are visited. -/
def located : Operation → List (Path × Operation)
  | .plain k b cs => ([], .plain k b cs) :: locatedFrom 0 cs
  | .conversion k o b cs =>
    ([], .conversion k o b cs) :: (under .operand (located o) ++ locatedFrom 0 cs)

/-- The operations below children that are numbered from `n` on. -/
def locatedFrom (n : Nat) : List Operation → List (Path × Operation)
  | [] => []
  | op :: ops => under (.child n) (located op) ++ locatedFrom (n + 1) ops

end

/-- The operations below children, with their paths. -/
def locatedBelow (cs : List Operation) : List (Path × Operation) :=
  cs.zipIdx.flatMap fun (c, i) => under (.child i) c.located

theorem locatedFrom_eq (n : Nat) (cs : List Operation) :
    locatedFrom n cs = (cs.zipIdx n).flatMap fun (c, i) => under (.child i) c.located := by
  induction cs generalizing n with
  | nil => rfl
  | cons c cs ih => rw [locatedFrom, ih, List.zipIdx_cons, List.flatMap_cons]

theorem located_plain (k : PlainKind) (b : Binding) (cs : List Operation) :
    (plain k b cs).located = ([], plain k b cs) :: locatedBelow cs := by
  rw [located, locatedFrom_eq, locatedBelow]

theorem located_conversion (k : Option ConversionClass) (o : Operation) (b : Binding)
    (cs : List Operation) :
    (conversion k o b cs).located =
      ([], conversion k o b cs) :: (under .operand o.located ++ locatedBelow cs) := by
  rw [located, locatedFrom_eq, locatedBelow]

/-! ## The order of visits -/

theorem map_snd_locatedBelow {cs : List Operation}
    (h : ∀ c ∈ cs, c.located.map Prod.snd = c.visits) :
    (locatedBelow cs).map Prod.snd = cs.flatMap visits := by
  refine map_flatMap_zipIdx fun x hx => ?_
  rw [map_snd_under, h x.1 (List.fst_mem_of_mem_zipIdx hx)]

theorem map_snd_located (op : Operation) : op.located.map Prod.snd = op.visits := by
  induction op using induction with
  | plain k b cs ih =>
    rw [located_plain, visits_plain, List.map_cons, map_snd_locatedBelow ih]
  | conversion k o b cs iho ih =>
    rw [located_conversion, visits_conversion, List.map_cons, List.map_append, map_snd_under, iho,
      map_snd_locatedBelow ih]

/-! ## The paths that lead somewhere -/

theorem mem_locatedBelow {cs : List Operation} {p : Path} {o : Operation}
    (h : ∀ c ∈ cs, ∀ q, (q, o) ∈ c.located ↔ c.at? q = some o) :
    (p, o) ∈ locatedBelow cs ↔ ∃ i q, p = .child i :: q ∧ (cs[i]?.bind (·.at? q)) = some o := by
  simp only [locatedBelow, List.mem_flatMap, Prod.exists, List.mem_zipIdx_iff_getElem?, mem_under]
  constructor
  · rintro ⟨c, i, hc, q, hq, rfl⟩
    refine ⟨i, q, rfl, ?_⟩
    rw [hc, Option.bind_some]
    exact (h c (List.mem_of_getElem? hc) q).1 hq
  · rintro ⟨i, q, rfl, hq⟩
    obtain ⟨c, hc, hq⟩ := Option.bind_eq_some_iff.1 hq
    exact ⟨c, i, hc, q, (h c (List.mem_of_getElem? hc) q).2 hq, rfl⟩

theorem mem_located (op : Operation) (p : Path) (o : Operation) :
    (p, o) ∈ op.located ↔ op.at? p = some o := by
  induction op using induction generalizing p with
  | plain k b cs ih =>
    rw [located_plain, List.mem_cons, mem_locatedBelow fun c hc q => ih c hc q]
    rcases p with _ | ⟨_ | i, p⟩ <;> simp [at?, below?, operand?, children, @eq_comm _ o]
  | conversion k o' b cs iho ih =>
    rw [located_conversion, List.mem_cons, List.mem_append, mem_under,
      mem_locatedBelow fun c hc q => ih c hc q]
    rcases p with _ | ⟨_ | i, p⟩ <;> simp [at?, below?, operand?, children, iho, @eq_comm _ o]

/-! ## Ascending paths -/

theorem pairwise_locatedBelow {cs : List Operation}
    (h : ∀ c ∈ cs, c.located.Pairwise (·.1 < ·.1)) : (locatedBelow cs).Pairwise (·.1 < ·.1) := by
  refine pairwise_flatMap_zipIdx (fun x hx => ?_) ?_
  · exact pairwise_under (h x.1 (List.fst_mem_of_mem_zipIdx hx))
  · rintro ⟨c, i⟩ ⟨c', j⟩ hij ⟨p, o⟩ hp ⟨p', o'⟩ hp'
    obtain ⟨q, -, rfl⟩ := mem_under.1 hp
    obtain ⟨q', -, rfl⟩ := mem_under.1 hp'
    exact List.cons_lt_cons_iff.2 (Or.inl (Nat.succ_lt_succ hij))

theorem pairwise_located (op : Operation) : op.located.Pairwise (·.1 < ·.1) := by
  induction op using induction with
  | plain k b cs ih =>
    rw [located_plain, List.pairwise_cons]
    refine ⟨?_, pairwise_locatedBelow ih⟩
    rintro ⟨p, o⟩ hp
    obtain ⟨i, q, rfl, -⟩ := (mem_locatedBelow fun c _ q => mem_located c q o).1 hp
    exact List.nil_lt_cons _ _
  | conversion k o b cs iho ih =>
    rw [located_conversion, List.pairwise_cons, List.pairwise_append]
    refine ⟨?_, pairwise_under iho, pairwise_locatedBelow ih, ?_⟩
    · rintro ⟨p, o'⟩ hp
      rcases List.mem_append.1 hp with hp | hp
      · obtain ⟨q, -, rfl⟩ := mem_under.1 hp
        exact List.nil_lt_cons _ _
      · obtain ⟨i, q, rfl, -⟩ := (mem_locatedBelow fun c _ q => mem_located c q o').1 hp
        exact List.nil_lt_cons _ _
    · rintro ⟨p, o₁⟩ hp ⟨p', o₂⟩ hp'
      obtain ⟨q, -, rfl⟩ := mem_under.1 hp
      obtain ⟨i, q', rfl, -⟩ := (mem_locatedBelow fun c _ q => mem_located c q o₂).1 hp'
      exact List.cons_lt_cons_iff.2 (Or.inl (Nat.succ_pos i))

end Operation

end BoxLint
