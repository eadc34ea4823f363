import BoxLint.Proofs.Paths
import Mathlib.Data.List.Infix
import Mathlib.Data.List.Nodup
import Mathlib.Logic.Equiv.Defs

/-!
# The order of visits

The same operation may stand at several places of a tree, so what a walk visits are occurrences: a
path together with the operation it leads to (`Operation.Occurrence`). The visits match the
occurrences one to one, in the order of their paths (`Operation.IsWalk`):

* each visit is at an occurrence (`visited`), no two are at the same one (`visited_injective`), and
  none is left out (`visited_surjective`);
* what lies below an occurrence is visited in one go (`visits_prefix_drop`), because its paths stand
  next to each other among all the paths of the tree (`infix_located`).
-/

namespace BoxLint.Operation

variable {op o c : Operation} {p : Path} {s : Step}

/-- A place in a tree, with the operation that stands there. -/
structure Occurrence (op : Operation) where
  path : Path
  operation : Operation
  at_path : op.at? path = some operation

namespace Occurrence

theorem ext_path {x y : op.Occurrence} (h : x.path = y.path) : x = y := by
  obtain ⟨p, o, ho⟩ := x
  obtain ⟨q, o', ho'⟩ := y
  obtain rfl : p = q := h
  obtain rfl : o = o' := Option.some.inj (ho.symm.trans ho')
  rfl

theorem mem_located (x : op.Occurrence) : (x.path, x.operation) ∈ op.located :=
  (Operation.mem_located op _ _).2 x.at_path

end Occurrence

/-! ## Visits and occurrences -/

theorem length_located (op : Operation) : op.located.length = op.visits.length := by
  rw [← map_snd_located, List.length_map]

theorem nodup_located (op : Operation) : op.located.Nodup := by
  refine op.pairwise_located.imp ?_
  rintro x _ hlt rfl
  exact List.lt_irrefl _ hlt

/-- The occurrence at which a visit is. -/
def visited (op : Operation) (i : Fin op.visits.length) : op.Occurrence where
  path := (op.located.get (i.cast op.length_located.symm)).1
  operation := (op.located.get (i.cast op.length_located.symm)).2
  at_path := (mem_located op _ _).1 (List.get_mem _ _)

theorem getElem?_located (i : Fin op.visits.length) :
    op.located[i.val]? = some ((op.visited i).path, (op.visited i).operation) :=
  List.getElem?_eq_getElem (i.cast op.length_located.symm).isLt

theorem eq_of_getElem?_located {i : Fin op.visits.length} {n : Nat}
    (h : op.located[n]? = some ((op.visited i).path, (op.visited i).operation)) : i.val = n :=
  (List.getElem?_inj (i.cast op.length_located.symm).isLt op.nodup_located).1
    ((getElem?_located i).trans h.symm)

theorem get_visits (i : Fin op.visits.length) : op.visits.get i = (op.visited i).operation := by
  have hvisits : ∀ n : Nat, op.visits[n]? = op.located[n]?.map Prod.snd := by
    intro n
    rw [← map_snd_located, List.getElem?_map]
  have hget := hvisits i
  rw [getElem?_located, Option.map_some] at hget
  exact (List.getElem?_eq_some_iff.1 hget).2

theorem visited_injective (op : Operation) : Function.Injective op.visited := by
  intro i j h
  refine Fin.ext (eq_of_getElem?_located ?_)
  rw [h]
  exact getElem?_located j

theorem visited_surjective (op : Operation) : Function.Surjective op.visited := by
  intro x
  obtain ⟨i, hi, hx⟩ := List.getElem_of_mem x.mem_located
  refine ⟨⟨i, op.length_located ▸ hi⟩, Occurrence.ext_path ?_⟩
  exact congrArg Prod.fst hx

theorem visited_lt_of_lt {i j : Fin op.visits.length} (h : i < j) :
    (op.visited i).path < (op.visited j).path :=
  List.pairwise_iff_getElem.1 op.pairwise_located i j _ _ h

/-- Visits come in the order of paths. -/
theorem visited_lt_iff {i j : Fin op.visits.length} :
    (op.visited i).path < (op.visited j).path ↔ i < j := by
  refine ⟨fun hlt => ?_, visited_lt_of_lt⟩
  rcases Nat.lt_trichotomy i j with hij | hij | hij
  · exact hij
  · obtain rfl : i = j := Fin.ext hij
    exact absurd hlt (List.lt_irrefl _)
  · exact absurd hlt (List.lt_asymm (visited_lt_of_lt hij))

/-! ## What lies below an occurrence -/

theorem infix_locatedBelow {cs : List Operation} {i : Nat} (h : cs[i]? = some c) :
    under (.child i) c.located <:+: locatedBelow cs := by
  refine List.infix_of_mem_flatten (List.mem_map.2 ⟨(c, i), ?_, rfl⟩)
  exact List.mem_zipIdx_iff_getElem?.2 h

/-- What lies below the operand or a child is listed in one piece. -/
theorem infix_located_of_below? (h : op.below? s = some c) : under s c.located <:+: op.located := by
  cases op with
  | plain k b cs =>
    rw [located_plain]
    cases s with
    | operand => cases h
    | child i => exact List.infix_cons (infix_locatedBelow h)
  | conversion k o b cs =>
    rw [located_conversion]
    refine List.infix_cons ?_
    cases s with
    | operand =>
      obtain rfl : o = c := Option.some.inj h
      exact (List.prefix_append _ _).isInfix
    | child i => exact (infix_locatedBelow h).trans (List.suffix_append _ _).isInfix

/-- What lies below the end of a path is listed in one piece. -/
theorem infix_located (h : op.at? p = some o) : p.foldr under o.located <:+: op.located := by
  induction p generalizing op with
  | nil =>
    obtain rfl : op = o := Option.some.inj h
    exact List.infix_rfl
  | cons s p ih =>
    obtain ⟨c, hc, hp⟩ := Option.bind_eq_some_iff.1 h
    exact ((ih hp).map _).trans (infix_located_of_below? hc)

theorem map_snd_foldr_under (p : Path) (xs : List (Path × Operation)) :
    (p.foldr under xs).map Prod.snd = xs.map Prod.snd := by
  induction p with
  | nil => rfl
  | cons s p ih => rw [List.foldr_cons, map_snd_under, ih]

/-- The piece below the end of a path begins there. -/
theorem head?_foldr_under (p : Path) (o : Operation) :
    (p.foldr under o.located).head? = some (p, o) := by
  induction p with
  | nil =>
    cases o with
    | plain k b cs => rw [List.foldr_nil, located_plain, List.head?_cons]
    | conversion k o b cs => rw [List.foldr_nil, located_conversion, List.head?_cons]
  | cons s p ih => rw [List.foldr_cons, under, List.head?_map, ih, Option.map_some]

theorem exists_prefix_drop (x : op.Occurrence) :
    ∃ n : Nat, op.located[n]? = some (x.path, x.operation) ∧
      x.operation.visits <+: op.visits.drop n := by
  obtain ⟨before, after, hlocated⟩ := infix_located x.at_path
  refine ⟨before.length, ?_, after.map Prod.snd, ?_⟩
  · rw [← hlocated, List.append_assoc, List.getElem?_append_right (Nat.le_refl _), Nat.sub_self,
      ← List.head?_eq_getElem?, List.head?_append, head?_foldr_under, Option.some_or]
  · rw [← map_snd_located op, ← hlocated, ← List.map_drop, List.append_assoc, List.drop_left,
      List.map_append, map_snd_foldr_under, map_snd_located]

/-- From the visit at an occurrence on, all that lies below it is visited. -/
theorem visits_prefix_drop (i : Fin op.visits.length) :
    (op.visited i).operation.visits <+: op.visits.drop i := by
  obtain ⟨n, hn, hprefix⟩ := exists_prefix_drop (op.visited i)
  rwa [eq_of_getElem?_located hn]

/-! ## The walk -/

/-- Operations that were seen one after the other are a walk over a tree if each was seen at an
occurrence of its own and none was left out. -/
structure IsWalk (op : Operation) (seen : List Operation)
    (occurrence : Fin seen.length ≃ op.Occurrence) : Prop where
  /-- What was seen is what stands at the occurrence. -/
  sees : ∀ i, seen.get i = (occurrence i).operation
  /-- The occurrences come in the order of their paths. -/
  ascending : ∀ i j, (occurrence i).path < (occurrence j).path ↔ i < j
  /-- After a conversion come all the operations of its operand and then those of its children. -/
  conversion : ∀ i k o b cs, (occurrence i).operation = .conversion k o b cs →
    .conversion k o b cs :: (o.visits ++ cs.flatMap visits) <+: seen.drop i

/-- **A walk visits every operation once, in the order of paths.** The visits to a tree match its
occurrences one to one. Each sees the operation at its occurrence, and they come in the
lexicographic order of paths: an operation before its operand, and the operand before the children
from the first to the last. A conversion is followed by all that lies below its operand and by all
that lies below its children. -/
theorem visits_isWalk (op : Operation) :
    ∃ occurrence : Fin op.visits.length ≃ op.Occurrence, op.IsWalk op.visits occurrence := by
  refine ⟨.ofBijective op.visited ⟨op.visited_injective, op.visited_surjective⟩, get_visits,
    fun i j => visited_lt_iff, ?_⟩
  intro i k o b cs h
  rw [← visits_conversion, ← h]
  exact visits_prefix_drop i

-- both conversions have an operand and children of their own
example (k : PlainKind) (b : Binding) (cl : Option ConversionClass) :
    (conversion cl (conversion cl (plain k b []) b [plain k b [], plain k b []]) b
      [plain k b []]).located.map Prod.fst =
      [[], [.operand], [.operand, .operand], [.operand, .child 0], [.operand, .child 1],
        [.child 0]] :=
  rfl

end BoxLint.Operation
