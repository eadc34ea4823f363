import BoxLint.Model.FileModel

/-!
# Compilations

A compilation is what an analysis sees of the files that are compiled together: their models, in the
order of their numbers. A file is known by its place in the list, whatever number its tree carries.
-/

namespace BoxLint

/-- The files that are compiled together. -/
structure Compilation where
  files : List FileModel

namespace Compilation

/-- A compilation without files. -/
def empty : Compilation := ⟨[]⟩

/-- The numbers of the files, in order. -/
def treeIds (c : Compilation) : List TreeId := List.range c.files.length

/-- The model of a file. -/
def model? (c : Compilation) (id : TreeId) : Option FileModel := c.files[id]?

/-- Adds a file, which gets the next number. -/
def addTree (c : Compilation) (path : String) (dialect : Dialect) : Compilation :=
  ⟨c.files ++ [FileModel.ofTree (Tree.empty c.files.length path dialect)]⟩

/-- Changes the model of a file. -/
def modify (c : Compilation) (id : TreeId) (f : FileModel → FileModel) : Compilation :=
  ⟨c.files.modify id f⟩

theorem treeIds_addTree (c : Compilation) (path : String) (dialect : Dialect) :
    (c.addTree path dialect).treeIds = c.treeIds ++ [c.files.length] := by
  simp [treeIds, addTree, List.range_succ]

theorem treeIds_modify (c : Compilation) (id : TreeId) (f : FileModel → FileModel) :
    (c.modify id f).treeIds = c.treeIds := by
  simp [treeIds, modify]

theorem model?_modify (c : Compilation) (id id' : TreeId) (f : FileModel → FileModel) :
    (c.modify id f).model? id' = if id = id' then (c.model? id').map f else c.model? id' := by
  simp only [model?, modify, List.getElem?_modify]
  split <;> simp

end Compilation

end BoxLint
