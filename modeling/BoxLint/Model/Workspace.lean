import BoxLint.Model.Compilation

/-!
# Workspaces

A host builds a compilation in a workspace. A workspace keeps the models of the files in a map,
under numbers that a counter hands out (`Workspace.addTree`), and a call that adds something tells
the number or the place that it got. The map lists its entries in no particular order, so the
numbers are sorted before anyone sees them (`Workspace.treeIds`). An analysis sees the files as a
compilation (`Workspace.compilation`).
-/

namespace BoxLint

/-- Models of files under numbers, each number once. -/
structure ModelMap where
  entries : List (TreeId × FileModel)
  nodup : (entries.map Prod.fst).Nodup

namespace ModelMap

/-- The map without models. -/
def empty : ModelMap := ⟨[], .nil⟩

/-- The numbers that have a model, in the order of the entries. -/
def keys (t : ModelMap) : List TreeId := t.entries.map Prod.fst

/-- The model under a number. -/
def get? (t : ModelMap) (id : TreeId) : Option FileModel := t.entries.lookup id

/-- Puts a model under a number that has none. -/
def insertIfNew (t : ModelMap) (id : TreeId) (m : FileModel) : ModelMap :=
  if h : id ∈ t.keys then t else ⟨(id, m) :: t.entries, List.nodup_cons.2 ⟨h, t.nodup⟩⟩

/-- Changes the model under a number. -/
def modify (t : ModelMap) (id : TreeId) (f : FileModel → FileModel) : ModelMap where
  entries := t.entries.map fun e => (e.1, if id = e.1 then f e.2 else e.2)
  nodup := by
    rw [List.map_map]
    exact t.nodup

theorem mem_keys_iff {t : ModelMap} {id : TreeId} :
    id ∈ t.keys ↔ (t.get? id).isSome = true := by
  simp [keys, get?, List.lookup_isSome_iff]

theorem get?_insertIfNew (t : ModelMap) (id id' : TreeId) (m : FileModel) :
    (t.insertIfNew id m).get? id' =
      if id' = id ∧ t.get? id = none then some m else t.get? id' := by
  rw [insertIfNew]
  split
  · next h =>
    obtain ⟨m', hm'⟩ := Option.isSome_iff_exists.1 (mem_keys_iff.1 h)
    simp [hm']
  · next h =>
    have hnone : t.get? id = none := by
      rwa [mem_keys_iff, Option.not_isSome_iff_eq_none] at h
    by_cases hid : id' = id
    · rw [hid, if_pos ⟨rfl, hnone⟩]
      exact List.lookup_cons_self
    · rw [if_neg fun hnew => hid hnew.1, get?, get?, List.lookup_cons, beq_false_of_ne hid]

theorem get?_modify (t : ModelMap) (id id' : TreeId) (f : FileModel → FileModel) :
    (t.modify id f).get? id' = if id = id' then (t.get? id').map f else t.get? id' := by
  change List.lookup id' (t.entries.map fun e => (e.1, if id = e.1 then f e.2 else e.2)) =
    if id = id' then (t.entries.lookup id').map f else t.entries.lookup id'
  induction t.entries with
  | nil => simp
  | cons e es ih =>
    rw [List.map_cons, List.lookup_cons, List.lookup_cons, ih]
    by_cases he : id' = e.1
    · by_cases hid : id = e.1 <;> simp [he, hid]
    · simp only [beq_false_of_ne he]

end ModelMap

/-- The models of a host's files, and the number that the next file gets. -/
structure Workspace where
  models : ModelMap
  nextTree : TreeId

namespace Workspace

/-- A workspace without files. -/
def empty : Workspace := ⟨.empty, 0⟩

/-- The numbers of the files, in order. -/
def treeIds (w : Workspace) : List TreeId := w.models.keys.mergeSort

/-- The model of a file. -/
def model? (w : Workspace) (id : TreeId) : Option FileModel := w.models.get? id

/-- Whether there are no files. -/
def isEmpty (w : Workspace) : Bool := w.models.entries.isEmpty

/-- Adds a file under the next number, and tells the number. -/
def addTree (w : Workspace) (path : String) (dialect : Dialect) : TreeId × Workspace :=
  let id := w.nextTree
  (id, ⟨w.models.insertIfNew id (.ofTree (.empty id path dialect)), id + 1⟩)

/-- Changes the model of a file, and tells what the change tells if there is such a file. -/
def edit {α : Type} (w : Workspace) (id : TreeId) (f : FileModel → α × FileModel) :
    Option α × Workspace :=
  ((w.model? id).map fun m => (f m).1, { w with models := w.models.modify id fun m => (f m).2 })

/-- What an analysis sees of the files. -/
def compilation (w : Workspace) : Compilation := ⟨w.treeIds.filterMap w.model?⟩

end Workspace

end BoxLint
