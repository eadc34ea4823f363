import BoxLint.Model.Workspace
import BoxLint.Proofs.Building
import Mathlib.Data.List.Nodup

/-!
# Workspaces stand for compilations

The steps that build a compilation are calls on a workspace, and some of them hand something back:
the number of a new file, or the place of a new node (`Workspace.step`). A workspace stands for a
compilation if it has the same model under each number and the counter has counted the files
(`Workspace.Represents`). Then the next number is free, so a file that is added gets it and
displaces none, and every step leaves a workspace that stands for what the step makes of the
compilation (`Represents.step`). What can be seen of a workspace is then the compilation: the
numbers in the map, once sorted, are those from zero up (`Represents.treeIds_eq`), and the files
under them in this order are the files of the compilation (`Represents.compilation_eq`).
-/

namespace BoxLint

/-- The model after an edit, and the place of the node if the edit adds one. -/
def FileEdit.perform : FileEdit → FileModel → Option NodeId × FileModel
  | .node k s p, m =>
    let (id, m) := m.pushNode k s p
    (some id, m)
  | e, m => (none, e.apply m)

theorem FileEdit.snd_perform (e : FileEdit) (m : FileModel) : (e.perform m).2 = e.apply m := by
  cases e <;> rfl

/-- What a step hands back: the number of a new file, or a file and the place of a new node in
it. -/
inductive Handle where
  | file (id : TreeId)
  | node (file : TreeId) (id : NodeId)
  deriving DecidableEq, Repr

namespace Workspace

/-- The workspace after a step, and what the step hands back. -/
def step (w : Workspace) : BuildStep → Option Handle × Workspace
  | .addTree path dialect =>
    let (id, w) := w.addTree path dialect
    (some (.file id), w)
  | .edit id e =>
    let (place, w) := w.edit id e.perform
    (place.join.map (.node id), w)

/-- The workspace that some steps leave. -/
def build (steps : List BuildStep) : Workspace := steps.foldl (fun w s => (w.step s).2) empty

/-- The workspace has the files of the compilation under their numbers, and its counter has counted
them. -/
structure Represents (w : Workspace) (c : Compilation) : Prop where
  nextTree_eq : w.nextTree = c.files.length
  model?_eq : ∀ id, w.model? id = c.model? id

/-! ## Steps -/

section Steps

variable {w : Workspace} {c : Compilation}

theorem represents_empty : empty.Represents .empty where
  nextTree_eq := rfl
  model?_eq _ := rfl

namespace Represents

theorem model?_nextTree (h : w.Represents c) : w.model? w.nextTree = none := by
  rw [h.model?_eq, h.nextTree_eq, Compilation.model?]
  exact List.getElem?_eq_none (Nat.le_refl _)

theorem addTree (h : w.Represents c) (path : String) (dialect : Dialect) :
    (w.addTree path dialect).2.Represents (c.addTree path dialect) where
  nextTree_eq := by
    simp [Workspace.addTree, Compilation.addTree, h.nextTree_eq]
  model?_eq id := by
    have hfree : w.models.get? w.nextTree = none := h.model?_nextTree
    have hnew : (w.addTree path dialect).2.model? id =
        if id = w.nextTree then some (.ofTree (.empty w.nextTree path dialect))
        else w.model? id := by
      refine (ModelMap.get?_insertIfNew ..).trans ?_
      simp only [hfree, and_true]
      rfl
    rw [hnew, h.model?_eq, h.nextTree_eq]
    exact (Compilation.model?_append c _ id).symm

theorem edit {α : Type} (h : w.Represents c) (id : TreeId) (f : FileModel → α × FileModel) :
    (w.edit id f).2.Represents (c.modify id fun m => (f m).2) where
  nextTree_eq := h.nextTree_eq.trans (List.length_modify ..).symm
  model?_eq id' := by
    rw [Compilation.model?_modify, ← h.model?_eq]
    exact ModelMap.get?_modify ..

/-- Each step leaves a workspace that stands for what the step makes of the compilation. -/
theorem step (h : w.Represents c) (s : BuildStep) : (w.step s).2.Represents (c.step s) := by
  cases s with
  | addTree path dialect => exact h.addTree path dialect
  | edit id e =>
    have hedit := h.edit id e.perform
    rwa [funext e.snd_perform] at hedit

end Represents

theorem represents_build (steps : List BuildStep) :
    (build steps).Represents (.build steps) := by
  have hrun : ∀ w c, Represents w c →
      (steps.foldl (fun w s => (w.step s).2) w).Represents (steps.foldl Compilation.step c) := by
    induction steps with
    | nil => exact fun w c h => h
    | cons s steps ih => exact fun w c h => ih _ _ (h.step s)
  exact hrun empty .empty represents_empty

end Steps

/-! ## What can be seen -/

theorem pairwise_treeIds (w : Workspace) : w.treeIds.Pairwise (· ≤ ·) := by
  have hsorted := @List.pairwise_mergeSort TreeId (fun a b => decide (a ≤ b))
    (fun a b c hab hbc => decide_eq_true
      (Nat.le_trans (of_decide_eq_true hab) (of_decide_eq_true hbc)))
    (fun a b => by simpa using Nat.le_total a b) w.models.keys
  exact hsorted.imp fun h => of_decide_eq_true h

theorem mem_treeIds_iff {w : Workspace} {id : TreeId} :
    id ∈ w.treeIds ↔ (w.model? id).isSome = true :=
  (List.mergeSort_perm _ _).mem_iff.trans ModelMap.mem_keys_iff

theorem nodup_treeIds (w : Workspace) : w.treeIds.Nodup :=
  (List.mergeSort_perm _ _).nodup_iff.2 w.models.nodup

namespace Represents

variable {w : Workspace} {c : Compilation}

/-- Whatever the order of the entries, the sorted numbers are those from zero up. -/
theorem treeIds_eq (h : w.Represents c) : w.treeIds = c.treeIds := by
  refine List.Perm.eq_of_pairwise (fun a b _ _ => Nat.le_antisymm) w.pairwise_treeIds
    List.pairwise_le_range ?_
  refine (List.perm_ext_iff_of_nodup w.nodup_treeIds List.nodup_range).2 fun id => ?_
  rw [mem_treeIds_iff, h.model?_eq, Compilation.model?, List.mem_range]
  simp

theorem compilation_eq (h : w.Represents c) : w.compilation = c := by
  have hfiles : c.treeIds.map c.model? = c.files.map some :=
    List.ext_getElem (by simp [Compilation.treeIds]) fun i _ _ => by
      simp [Compilation.treeIds, Compilation.model?]
  have hseen : w.treeIds.filterMap w.model? = c.files := by
    rw [h.treeIds_eq, funext h.model?_eq]
    calc c.treeIds.filterMap c.model? = (c.treeIds.map c.model?).filterMap id := by
          rw [List.filterMap_map]
          rfl
      _ = (c.files.map some).filterMap id := by rw [hfiles]
      _ = c.files := by
          rw [List.filterMap_map]
          exact List.filterMap_some
  rw [compilation, hseen]

end Represents

end Workspace

end BoxLint
