import BoxLint.Model.Compilation

/-!
# Building a compilation

A host builds a compilation in steps (`BuildStep`): it adds files, and it edits the files that are
there, by adding nodes, operations and imports and by overwriting what the tree says of its file
(`FileEdit`). No edit touches the number of a tree, so after any steps each file's tree carries the
number of the file (`Compilation.numbered_build`), and edits do the same whatever that number is
(`FileModel.edited_renumbered`). A file that is added last and edited then stands behind the others,
which stay as they are (`Compilation.withFile_eq`).
-/

namespace BoxLint

/-- A change to the model of a file. -/
inductive FileEdit where
  | node (rawKind : Nat) (span : Span) (parent : Option NodeId)
  | root (op : Operation)
  | importing (i : Import)
  | path (path : String)
  | header (header : String)
  | dialect (dialect : Dialect)
  | marked (generated : Bool)
  /-- Another tree takes the place of the file's tree and its number. -/
  | tree (tree : Tree)

namespace FileEdit

/-- The model after an edit. -/
def apply : FileEdit → FileModel → FileModel
  | .node k s p, m => m.addNode k s p
  | .root op, m => m.addRoot op
  | .importing i, m => m.addImport i
  | .path p, m => { m with tree := { m.tree with path := p } }
  | .header h, m => { m with tree := { m.tree with header := h } }
  | .dialect d, m => { m with tree := { m.tree with dialect := d } }
  | .marked g, m => { m with tree := { m.tree with markedGenerated := g } }
  | .tree t, m => { m with tree := { t with id := m.tree.id } }

@[simp] theorem id_apply (e : FileEdit) (m : FileModel) : (e.apply m).tree.id = m.tree.id := by
  cases e <;> rfl

end FileEdit

namespace FileModel

/-- The model after some edits. -/
def edited (m : FileModel) (edits : List FileEdit) : FileModel :=
  edits.foldl (fun m e => e.apply m) m

theorem edited_cons (m : FileModel) (e : FileEdit) (edits : List FileEdit) :
    m.edited (e :: edits) = (e.apply m).edited edits := rfl

@[simp] theorem id_edited (m : FileModel) (edits : List FileEdit) :
    (m.edited edits).tree.id = m.tree.id := by
  induction edits generalizing m with
  | nil => rfl
  | cons e edits ih => exact (ih _).trans (e.id_apply m)

/-- The model with another number for its tree. -/
def renumbered (m : FileModel) (id : TreeId) : FileModel :=
  { m with tree := { m.tree with id := id } }

theorem apply_renumbered (e : FileEdit) (m : FileModel) (id : TreeId) :
    e.apply (m.renumbered id) = (e.apply m).renumbered id := by
  cases e <;> rfl

theorem edited_renumbered (m : FileModel) (id : TreeId) (edits : List FileEdit) :
    (m.renumbered id).edited edits = (m.edited edits).renumbered id := by
  induction edits generalizing m with
  | nil => rfl
  | cons e edits ih => rw [edited_cons, edited_cons, apply_renumbered, ih]

end FileModel

/-- A step in building a compilation. -/
inductive BuildStep where
  | addTree (path : String) (dialect : Dialect)
  | edit (id : TreeId) (e : FileEdit)

namespace Compilation

/-- The compilation after a step. An edit of a file that is not there does nothing. -/
def step (c : Compilation) : BuildStep → Compilation
  | .addTree path dialect => c.addTree path dialect
  | .edit id e => c.modify id e.apply

/-- The compilation that some steps build. -/
def build (steps : List BuildStep) : Compilation := steps.foldl step empty

/-- The compilation with one more file. -/
def append (c : Compilation) (m : FileModel) : Compilation := ⟨c.files ++ [m]⟩

theorem treeIds_append (c : Compilation) (m : FileModel) :
    (c.append m).treeIds = c.treeIds ++ [c.files.length] := by
  simp [treeIds, append, List.range_succ]

theorem model?_append (c : Compilation) (m : FileModel) (k : TreeId) :
    (c.append m).model? k = if k = c.files.length then some m else c.model? k := by
  simp only [model?, append, List.getElem?_append]
  grind

/-! ## Numbers -/

/-- Each file's tree carries the number of the file. -/
def Numbered (c : Compilation) : Prop := ∀ k m, c.model? k = some m → m.tree.id = k

theorem numbered_empty : empty.Numbered := by
  intro k m h
  simp [model?, empty] at h

theorem Numbered.append {c : Compilation} (hc : c.Numbered) {m : FileModel}
    (hm : m.tree.id = c.files.length) : (c.append m).Numbered := by
  intro k m' h
  rw [model?_append] at h
  split at h
  · next hk =>
    obtain rfl := Option.some.inj h
    rw [hm, hk]
  · exact hc k m' h

theorem Numbered.step {c : Compilation} (hc : c.Numbered) (s : BuildStep) :
    (c.step s).Numbered := by
  cases s with
  | addTree path dialect => exact hc.append rfl
  | edit id e =>
    intro k m h
    simp only [Compilation.step, model?_modify] at h
    split at h
    · obtain ⟨m', hm', rfl⟩ := Option.map_eq_some_iff.1 h
      rw [FileEdit.id_apply, hc k m' hm']
    · exact hc k m h

theorem numbered_build (steps : List BuildStep) : (build steps).Numbered := by
  have hrun : ∀ c : Compilation, c.Numbered → (steps.foldl step c).Numbered := by
    induction steps with
    | nil => exact fun c hc => hc
    | cons s steps ih => exact fun c hc => ih _ (hc.step s)
  exact hrun empty numbered_empty

/-! ## A file added last -/

theorem foldl_step_edit (c : Compilation) (id : TreeId) (edits : List FileEdit) :
    (edits.map (.edit id)).foldl step c = c.modify id (·.edited edits) := by
  induction edits generalizing c with
  | nil => exact congrArg Compilation.mk (List.modify_id id c.files).symm
  | cons e edits ih =>
    rw [List.map_cons, List.foldl_cons, ih]
    exact congrArg Compilation.mk (List.modify_modify_eq e.apply _ id c.files)

theorem modify_append (c : Compilation) (m : FileModel) (f : FileModel → FileModel) :
    (c.append m).modify c.files.length f = c.append (f m) := by
  simp [append, modify, List.modify_eq_take_drop]

/-- The compilation that some steps build, with a file that is added last and edited then. -/
def withFile (steps : List BuildStep) (path : String) (dialect : Dialect)
    (edits : List FileEdit) : Compilation :=
  build (steps ++ .addTree path dialect :: edits.map (.edit (build steps).files.length))

/-- The new file stands behind the others, which stay as they are. -/
theorem withFile_eq (steps : List BuildStep) (path : String) (dialect : Dialect)
    (edits : List FileEdit) :
    withFile steps path dialect edits = (build steps).append ((FileModel.ofTree
      (Tree.empty (build steps).files.length path dialect)).edited edits) := by
  rw [withFile, build, List.foldl_append, List.foldl_cons, foldl_step_edit]
  exact modify_append (build steps) _ _

end Compilation

end BoxLint
