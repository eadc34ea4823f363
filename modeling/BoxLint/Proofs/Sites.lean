import BoxLint.Model.Compilation
import BoxLint.Proofs.Paths

/-!
# Sites

A site says where an operation stands among the listed files of a compilation: in which of them,
under which root, and on which path from there (`Compilation.at?`). `Compilation.located` lists
every site in ascending order (`pairwise_located`, `mem_located`), which is the order in which an
analysis meets the operations (`map_snd_located`).

Files are told apart by their place in the list and not by their numbers, so a file that is listed
twice has its sites twice, and two files whose trees carry the same number keep theirs apart.
-/

namespace BoxLint

/-- A place for an operation. -/
structure Site where
  file : Nat
  root : Nat
  path : Operation.Path
  deriving DecidableEq, Repr

namespace Site

/-- Sites are ordered by file, then by root, then by path. -/
instance : LT Site :=
  ⟨fun a b => a.file < b.file ∨
    a.file = b.file ∧ (a.root < b.root ∨ a.root = b.root ∧ a.path < b.path)⟩

theorem lt_def {a b : Site} : a < b ↔ a.file < b.file ∨
    a.file = b.file ∧ (a.root < b.root ∨ a.root = b.root ∧ a.path < b.path) :=
  Iff.rfl

theorem lt_irrefl (a : Site) : ¬ a < a := by
  rintro (h | ⟨-, h | ⟨-, h⟩⟩)
  · exact Nat.lt_irrefl _ h
  · exact Nat.lt_irrefl _ h
  · exact List.lt_irrefl _ h

theorem nodup_of_pairwise_lt {sites : List Site} (h : sites.Pairwise (· < ·)) : sites.Nodup := by
  refine h.imp ?_
  rintro a b hab rfl
  exact lt_irrefl a hab

end Site

namespace FileModel

/-- The operation on a path from a root. -/
def at? (m : FileModel) (root : Nat) (path : Operation.Path) : Option Operation :=
  m.roots[root]?.bind (·.at? path)

/-- The operations of a file with the sites they have if the file is the `k`-th. -/
def locatedIn (m : FileModel) (k : Nat) : List (Site × FileModel × Operation) :=
  m.roots.zipIdx.flatMap fun (op, r) => op.located.map fun (p, o) => (⟨k, r, p⟩, m, o)

theorem map_snd_locatedIn (m : FileModel) (k : Nat) :
    (m.locatedIn k).map Prod.snd = m.operations.map (m, ·) := by
  rw [operations, Operation.visitsAll_eq_flatMap, List.map_flatMap]
  refine map_flatMap_zipIdx fun x _ => ?_
  rw [← Operation.map_snd_located]
  simp only [List.map_map]
  rfl

theorem mem_locatedIn {m m' : FileModel} {k : Nat} {site : Site} {o : Operation} :
    (site, m', o) ∈ m.locatedIn k ↔
      site.file = k ∧ m' = m ∧ m.at? site.root site.path = some o := by
  simp only [locatedIn, List.mem_flatMap, List.mem_map, Prod.exists, List.mem_zipIdx_iff_getElem?,
    Operation.mem_located, Prod.mk.injEq, at?]
  constructor
  · rintro ⟨op, r, hop, p, o', hp, rfl, rfl, rfl⟩
    exact ⟨rfl, rfl, by rw [hop, Option.bind_some, hp]⟩
  · rintro ⟨rfl, rfl, h⟩
    obtain ⟨op, hop, hp⟩ := Option.bind_eq_some_iff.1 h
    exact ⟨op, site.root, hop, site.path, o, hp, rfl, rfl, rfl⟩

theorem pairwise_locatedIn (m : FileModel) (k : Nat) : (m.locatedIn k).Pairwise (·.1 < ·.1) := by
  refine pairwise_flatMap_zipIdx (fun x _ => ?_) ?_
  · refine List.pairwise_map.2 (x.1.pairwise_located.imp fun hxy => ?_)
    exact Or.inr ⟨rfl, Or.inr ⟨rfl, hxy⟩⟩
  · intro x y hxy a ha b hb
    obtain ⟨u, -, rfl⟩ := List.mem_map.1 ha
    obtain ⟨v, -, rfl⟩ := List.mem_map.1 hb
    exact Or.inr ⟨rfl, Or.inl hxy⟩

end FileModel

namespace Compilation

/-- The operation at a site of the listed files, with its file. -/
def at? (c : Compilation) (listed : List TreeId) (site : Site) : Option (FileModel × Operation) :=
  (listed[site.file]?.bind c.model?).bind fun m => (m.at? site.root site.path).map (m, ·)

/-- Every operation of the listed files with its site. -/
def located (c : Compilation) (listed : List TreeId) : List (Site × FileModel × Operation) :=
  listed.zipIdx.flatMap fun (id, k) => (c.model? id).toList.flatMap (·.locatedIn k)

theorem map_snd_located (c : Compilation) (listed : List TreeId) :
    (c.located listed).map Prod.snd =
      listed.flatMap fun id => (c.model? id).toList.flatMap fun m => m.operations.map (m, ·) := by
  refine map_flatMap_zipIdx fun x _ => ?_
  simp only [List.map_flatMap, FileModel.map_snd_locatedIn]

theorem mem_located {c : Compilation} {listed : List TreeId} {site : Site} {m : FileModel}
    {o : Operation} :
    (site, m, o) ∈ c.located listed ↔ c.at? listed site = some (m, o) := by
  simp only [located, List.mem_flatMap, Prod.exists, List.mem_zipIdx_iff_getElem?,
    Option.mem_toList, FileModel.mem_locatedIn, at?, Option.bind_eq_some_iff,
    Option.map_eq_some_iff, Prod.mk.injEq]
  constructor
  · rintro ⟨id, k, hid, m', hm, rfl, rfl, ho⟩
    exact ⟨m, ⟨id, hid, hm⟩, o, ho, rfl, rfl⟩
  · rintro ⟨m', ⟨id, hid, hm⟩, o', ho, rfl, rfl⟩
    exact ⟨id, site.file, hid, m', hm, rfl, rfl, ho⟩

theorem pairwise_located (c : Compilation) (listed : List TreeId) :
    (c.located listed).Pairwise (·.1 < ·.1) := by
  refine pairwise_flatMap_zipIdx (fun x _ => ?_) ?_
  · cases hm : c.model? x.1 with
    | none => simp [hm]
    | some m => simpa [hm] using m.pairwise_locatedIn x.2
  · rintro x y hxy ⟨s, m, o⟩ ha ⟨s', m', o'⟩ hb
    obtain ⟨_, -, ha⟩ := List.mem_flatMap.1 ha
    obtain ⟨_, -, hb⟩ := List.mem_flatMap.1 hb
    refine Or.inl ?_
    rw [(FileModel.mem_locatedIn.1 ha).1, (FileModel.mem_locatedIn.1 hb).1]
    exact hxy

end Compilation

end BoxLint
