import BoxLint.Proofs.Workspaces
import Mathlib.Data.List.Basic

/-!
# The history of a compilation

A compilation is the outcome of the steps that built it. Files are numbered in the order in which
they were added, and what stands under a number is the file that was added there, changed by the
edits that name it and by nothing else (`Compilation.model?_foldl_step`). Unless an edit replaces
the tree the nodes of a file only grow (`FileModel.nodes_prefix_edited`), and each carries its
place. A workspace stands for the compilation at every step. So the numbers and places that building
hands back, of files and of nodes, mean the same ever after (`Workspace.Faithful`), even where the
dialect of a tree is overwritten between two nodes.
-/

namespace BoxLint

/-! ## Edits of one file -/

/-- Each node carries its place. -/
def Tree.Numbered (t : Tree) : Prop := ∀ i n, t.node? i = some n → n.id = i

theorem Tree.numbered_empty (id : TreeId) (path : String) (dialect : Dialect) :
    (Tree.empty id path dialect).Numbered := by
  intro i n h
  simp [node?, empty] at h

theorem Tree.Numbered.push {t : Tree} (ht : t.Numbered) (rawKind : Nat) (span : Span)
    (parent : Option NodeId) : (t.push rawKind span parent).Numbered := by
  intro i n h
  have hi : i < t.nodes.length + 1 := by
    obtain ⟨hi, -⟩ := List.getElem?_eq_some_iff.1 h
    simpa [Tree.push, Tree.pushNode] using hi
  rcases Nat.lt_succ_iff_lt_or_eq.1 hi with hi | rfl
  · rw [node?_push_of_lt hi] at h
    exact ht i n h
  · rw [node?_push_length] at h
    obtain rfl := Option.some.inj h
    rfl

/-- A node keeps its place in a tree that grew. -/
theorem Tree.node?_of_prefix {t t' : Tree} (h : t.nodes <+: t'.nodes) {i : NodeId} {n : Node}
    (hn : t.node? i = some n) : t'.node? i = some n := by
  obtain ⟨rest, hrest⟩ := h
  obtain ⟨hi, -⟩ := List.getElem?_eq_some_iff.1 hn
  rw [node?, ← hrest, List.getElem?_append_left hi]
  exact hn

namespace FileEdit

variable {e : FileEdit}

/-- Whether the tree stays in its place. -/
def keepsTree : FileEdit → Bool
  | .tree _ => false
  | _ => true

theorem keywords_apply (e : FileEdit) (m : FileModel) : (e.apply m).keywords = m.keywords := by
  cases e <;> rfl

theorem nodes_prefix_apply (he : e.keepsTree = true) (m : FileModel) :
    m.tree.nodes <+: (e.apply m).tree.nodes := by
  cases e with
  | node k s p => exact List.prefix_append _ _
  | tree t => exact Bool.noConfusion he
  | _ => exact List.prefix_refl _

theorem numbered_apply (he : e.keepsTree = true) {m : FileModel} (hm : m.tree.Numbered) :
    (e.apply m).tree.Numbered := by
  cases e with
  | node k s p => exact hm.push k s p
  | tree t => exact Bool.noConfusion he
  | _ => exact hm

end FileEdit

namespace FileModel

variable {m : FileModel} {edits : List FileEdit}

/-- What each edit keeps is kept by all of them. -/
theorem edited_induction {P : FileModel → Prop} (h0 : P m)
    (h : ∀ e ∈ edits, ∀ m, P m → P (e.apply m)) : P (m.edited edits) := by
  induction edits generalizing m with
  | nil => exact h0
  | cons e edits ih =>
    exact ih (h e List.mem_cons_self m h0) fun e he => h e (List.mem_cons_of_mem _ he)

theorem keywords_edited (m : FileModel) (edits : List FileEdit) :
    (m.edited edits).keywords = m.keywords :=
  edited_induction (P := fun m' => m'.keywords = m.keywords) rfl fun e _ m' hm' =>
    (e.keywords_apply m').trans hm'

theorem nodes_prefix_edited (h : ∀ e ∈ edits, e.keepsTree = true) :
    m.tree.nodes <+: (m.edited edits).tree.nodes :=
  edited_induction (P := fun m' => m.tree.nodes <+: m'.tree.nodes) (List.prefix_refl _)
    fun e he m' hm' => hm'.trans (FileEdit.nodes_prefix_apply (h e he) m')

theorem numbered_edited (h : ∀ e ∈ edits, e.keepsTree = true) (hm : m.tree.Numbered) :
    (m.edited edits).tree.Numbered :=
  edited_induction (P := fun m' => m'.tree.Numbered) hm fun e he _ hm' =>
    FileEdit.numbered_apply (h e he) hm'

end FileModel

/-! ## Steps -/

namespace BuildStep

/-- Whether the step adds a file. -/
def isAddTree : BuildStep → Bool
  | .addTree _ _ => true
  | .edit _ _ => false

/-- Whether every tree stays in its place. -/
def keepsTree : BuildStep → Bool
  | .addTree _ _ => true
  | .edit _ e => e.keepsTree

/-- What the step does to the file with a given number. -/
def editOf? (k : TreeId) : BuildStep → Option FileEdit
  | .addTree _ _ => none
  | .edit id e => if id = k then some e else none

theorem keepsTree_of_editOf? {s : BuildStep} (hs : s.keepsTree = true) {k : TreeId} {e : FileEdit}
    (he : s.editOf? k = some e) : e.keepsTree = true := by
  cases s with
  | addTree path dialect => exact absurd he (Option.some_ne_none e).symm
  | edit id e' =>
    obtain ⟨-, he⟩ := Option.ite_none_right_eq_some.1 he
    obtain rfl := Option.some.inj he
    exact hs

end BuildStep

namespace Compilation

variable {c : Compilation} {steps : List BuildStep} {k : TreeId}

/-- The number of files that are added. -/
def added (steps : List BuildStep) : Nat := steps.countP (·.isAddTree)

@[simp] theorem added_addTree (path : String) (dialect : Dialect) (steps : List BuildStep) :
    added (.addTree path dialect :: steps) = added steps + 1 :=
  List.countP_cons_of_pos rfl

@[simp] theorem added_edit (id : TreeId) (e : FileEdit) (steps : List BuildStep) :
    added (.edit id e :: steps) = added steps :=
  List.countP_cons_of_neg Bool.false_ne_true

/-- The edits of the file with a given number. -/
def editsOf (k : TreeId) (steps : List BuildStep) : List FileEdit := steps.filterMap (·.editOf? k)

theorem editsOf_cons (k : TreeId) (s : BuildStep) (steps : List BuildStep) :
    editsOf k (s :: steps) = (s.editOf? k).toList ++ editsOf k steps := by
  rw [editsOf, editsOf, List.filterMap_cons]
  cases s.editOf? k <;> rfl

theorem keepsTree_of_mem_editsOf (hs : ∀ s ∈ steps, s.keepsTree = true) {e : FileEdit}
    (he : e ∈ editsOf k steps) : e.keepsTree = true := by
  obtain ⟨s, hmem, hedit⟩ := List.mem_filterMap.1 he
  exact BuildStep.keepsTree_of_editOf? (hs s hmem) hedit

theorem length_foldl_step (c : Compilation) (steps : List BuildStep) :
    (steps.foldl step c).files.length = c.files.length + added steps := by
  induction steps generalizing c with
  | nil => rfl
  | cons s steps ih =>
    rw [List.foldl_cons, ih]
    cases s with
    | addTree path dialect =>
      simp only [step, addTree, List.length_append, List.length_singleton, added_addTree]
      omega
    | edit id e => simp only [step, modify, List.length_modify, added_edit]

theorem length_build (steps : List BuildStep) : (build steps).files.length = added steps := by
  rw [build, length_foldl_step]
  simp [empty]

theorem model?_step (hk : k < c.files.length) (s : BuildStep) :
    (c.step s).model? k = (c.model? k).map (·.edited (s.editOf? k).toList) := by
  cases s with
  | addTree path dialect =>
    have hnew : (c.addTree path dialect).model? k = c.model? k :=
      (model?_append c _ k).trans (if_neg (Nat.ne_of_lt hk))
    simpa [step, BuildStep.editOf?, FileModel.edited] using hnew
  | edit id e =>
    rw [step, model?_modify]
    by_cases hid : id = k <;> simp [hid, BuildStep.editOf?, FileModel.edited]

/-- A file that is there is changed by the edits that name it and by nothing else. -/
theorem model?_foldl_step (hk : k < c.files.length) (steps : List BuildStep) :
    (steps.foldl step c).model? k = (c.model? k).map (·.edited (editsOf k steps)) := by
  induction steps generalizing c with
  | nil => simp [editsOf, FileModel.edited]
  | cons s steps ih =>
    have hlen : (c.step s).files.length = c.files.length + added [s] := length_foldl_step c [s]
    have hk' : k < (c.step s).files.length := by
      rw [hlen]
      exact Nat.lt_add_right _ hk
    have hjoin : ∀ m : FileModel, (m.edited (s.editOf? k).toList).edited (editsOf k steps) =
        m.edited (editsOf k (s :: steps)) := by
      intro m
      rw [editsOf_cons, FileModel.edited, FileModel.edited, FileModel.edited, List.foldl_append]
    rw [List.foldl_cons, ih hk', model?_step hk, Option.map_map]
    exact Option.map_congr fun m _ => hjoin m

theorem build_append (before after : List BuildStep) :
    build (before ++ after) = after.foldl step (build before) :=
  List.foldl_append

theorem isSome_model?_build (steps : List BuildStep) (k : TreeId) :
    ((build steps).model? k).isSome = true ↔ k < added steps := by
  rw [model?, ← length_build]
  simp

/-- What stands under the number of a file that was added: that file with its edits. -/
theorem model?_build_addTree (before after : List BuildStep) (path : String) (dialect : Dialect) :
    (build (before ++ .addTree path dialect :: after)).model? (added before) =
      some ((FileModel.ofTree (Tree.empty (added before) path dialect)).edited
        (editsOf (added before) after)) := by
  have hlen := length_build before
  have hnew : ((build before).step (.addTree path dialect)).model? (added before) =
      some (FileModel.ofTree (Tree.empty (added before) path dialect)) := by
    rw [← hlen]
    exact (model?_append _ _ _).trans (if_pos rfl)
  have hk : added before < ((build before).step (.addTree path dialect)).files.length := by
    simp [step, addTree, hlen]
  rw [build_append, List.foldl_cons, model?_foldl_step hk, hnew, Option.map_some]

/-- Each number below the count was given to a file, when so many had been added before it. -/
theorem exists_addTree_of_lt (hk : k < added steps) :
    ∃ before path dialect after, steps = before ++ .addTree path dialect :: after ∧
      added before = k := by
  induction steps generalizing k with
  | nil => exact absurd hk (Nat.not_lt_zero k)
  | cons s steps ih =>
    cases s with
    | addTree path dialect =>
      rw [added_addTree] at hk
      cases k with
      | zero => exact ⟨[], path, dialect, steps, rfl, rfl⟩
      | succ k =>
        obtain ⟨before, path', dialect', after, rfl, rfl⟩ := ih (Nat.lt_of_succ_lt_succ hk)
        exact ⟨.addTree path dialect :: before, path', dialect', after, rfl, added_addTree _ _ _⟩
    | edit id e =>
      rw [added_edit] at hk
      obtain ⟨before, path', dialect', after, rfl, rfl⟩ := ih hk
      exact ⟨.edit id e :: before, path', dialect', after, rfl, added_edit _ _ _⟩

/-- A node that is added to a file stays in its place with what it was added with. -/
theorem node?_build_node {before after : List BuildStep} {rawKind : Nat} {span : Span}
    {parent : Option NodeId} (hafter : ∀ s ∈ after, s.keepsTree = true) {m : FileModel}
    (hm : (build before).model? k = some m) :
    ∃ m', (build (before ++ .edit k (.node rawKind span parent) :: after)).model? k = some m' ∧
      m'.tree.node? m.tree.nodes.length =
        some ⟨m.tree.nodes.length, rawKind, m.tree.dialect, span, parent⟩ := by
  have hk : k < (build before).files.length := by
    rw [length_build, ← isSome_model?_build, hm]
    rfl
  have hedits : editsOf k (.edit k (.node rawKind span parent) :: after) =
      .node rawKind span parent :: editsOf k after := by
    rw [editsOf_cons, BuildStep.editOf?, if_pos rfl]
    rfl
  have hmodel : (build (before ++ .edit k (.node rawKind span parent) :: after)).model? k =
      some ((m.addNode rawKind span parent).edited (editsOf k after)) := by
    rw [build_append, model?_foldl_step hk, hm, hedits]
    rfl
  have hprefix : (m.addNode rawKind span parent).tree.nodes <+:
      ((m.addNode rawKind span parent).edited (editsOf k after)).tree.nodes :=
    FileModel.nodes_prefix_edited fun e he => keepsTree_of_mem_editsOf hafter he
  exact ⟨_, hmodel, Tree.node?_of_prefix hprefix (Tree.node?_push_length m.tree _ _ _)⟩

end Compilation

/-! ## What the numbers mean -/

namespace Workspace

open Compilation (added editsOf)

/-- What a workspace keeps of the steps that built it. -/
structure Faithful (steps : List BuildStep) : Prop where
  /-- An analysis sees the compilation that the steps build. -/
  compilation_eq : (build steps).compilation = .build steps
  treeIds_eq : (build steps).treeIds = List.range (added steps)
  isSome_model?_iff : ∀ k, ((build steps).model? k).isSome = true ↔ k < added steps
  tree_id_eq : ∀ k m, (build steps).model? k = some m → m.tree.id = k
  isSome_node?_iff : ∀ k m, (build steps).model? k = some m →
    ∀ i, (m.tree.node? i).isSome = true ↔ i < m.tree.nodes.length
  node_id_eq : ∀ k m, (build steps).model? k = some m → ∀ i n, m.tree.node? i = some n → n.id = i
  /-- Each file was added by a step, as many files after the first as its number says. -/
  exists_addTree : ∀ k < added steps, ∃ before path dialect after,
    steps = before ++ .addTree path dialect :: after ∧ added before = k
  /-- Of what was handed back each piece came from adding a file, or a node to a file that was
  there. -/
  of_handed : ∀ before s after handle, steps = before ++ s :: after →
    ((build before).step s).1 = some handle →
    (∃ path dialect, s = .addTree path dialect) ∨
      ∃ k rawKind span parent, s = .edit k (.node rawKind span parent) ∧ k < added before
  /-- A number was handed back when a file was added, and the file is there under that number, with
  the edits that named it since, and with the keywords of the dialect it had at first. -/
  file_kept : ∀ before path dialect after, steps = before ++ .addTree path dialect :: after →
    ∃ id m, ((build before).step (.addTree path dialect)).1 = some (.file id) ∧
      id = added before ∧ (build steps).model? id = some m ∧
      m = (FileModel.ofTree (Tree.empty id path dialect)).edited (editsOf id after) ∧
      m.keywords = dialect
  /-- A place was handed back when a node was added to a file, and the node is there in that place,
  with what it was added with and with the dialect that the tree had then. -/
  node_kept : ∀ before k rawKind span parent after,
    steps = before ++ .edit k (.node rawKind span parent) :: after →
    ∀ m, (build before).model? k = some m → ∃ id m',
      ((build before).step (.edit k (.node rawKind span parent))).1 = some (.node k id) ∧
      id = m.tree.nodes.length ∧ (build steps).model? k = some m' ∧
      m'.tree.node? id = some ⟨id, rawKind, m.tree.dialect, span, parent⟩

section Steps

variable {steps : List BuildStep} {k : TreeId} {m : FileModel}

theorem model?_build (steps : List BuildStep) (k : TreeId) :
    (build steps).model? k = (Compilation.build steps).model? k :=
  (represents_build steps).model?_eq k

theorem nextTree_build (steps : List BuildStep) : (build steps).nextTree = added steps :=
  (represents_build steps).nextTree_eq.trans (Compilation.length_build steps)

theorem isSome_model?_build (steps : List BuildStep) (k : TreeId) :
    ((build steps).model? k).isSome = true ↔ k < added steps := by
  rw [model?_build, Compilation.isSome_model?_build]

/-- A file that is there was added by a step. -/
theorem exists_addTree_of_model? (hm : (build steps).model? k = some m) :
    ∃ before path dialect after, steps = before ++ .addTree path dialect :: after ∧
      added before = k :=
  Compilation.exists_addTree_of_lt
    ((isSome_model?_build steps k).1 (Option.isSome_iff_exists.2 ⟨m, hm⟩))

/-- An edit hands back a place exactly if it adds a node to a file that is there. -/
theorem handed_edit {w : Workspace} {e : FileEdit} {handle : Handle}
    (h : (w.step (.edit k e)).1 = some handle) :
    ∃ m rawKind span parent, w.model? k = some m ∧ e = .node rawKind span parent ∧
      handle = .node k m.tree.nodes.length := by
  obtain ⟨place, hplace, rfl⟩ := Option.map_eq_some_iff.1 h
  obtain ⟨m, hm, hedit⟩ := Option.map_eq_some_iff.1 (Option.join_eq_some_iff.1 hplace)
  cases e with
  | node rawKind span parent =>
    obtain rfl : m.tree.nodes.length = place := Option.some.inj hedit
    exact ⟨m, rawKind, span, parent, hm, rfl, rfl⟩
  | _ => exact absurd hedit.symm (Option.some_ne_none place)

theorem handed_node {w : Workspace} (hm : w.model? k = some m) (rawKind : Nat) (span : Span)
    (parent : Option NodeId) :
    (w.step (.edit k (.node rawKind span parent))).1 = some (.node k m.tree.nodes.length) := by
  simp only [step, edit, hm]
  rfl

end Steps

/-- **Numbers mean what they were given for.** Build a compilation in a workspace by any steps that
add files and edit them, short of replacing a tree. Then the files are numbered from zero in the
order in which they were added and the nodes of each file likewise; what a number or a place was
handed back for stays there, and what comes later changes it only by edits that name it. -/
theorem faithful_build {steps : List BuildStep} (hsteps : ∀ s ∈ steps, s.keepsTree = true) :
    Faithful steps where
  compilation_eq := (represents_build steps).compilation_eq
  treeIds_eq := by
    rw [(represents_build steps).treeIds_eq, Compilation.treeIds, Compilation.length_build]
  isSome_model?_iff := isSome_model?_build steps
  tree_id_eq k m hm := Compilation.numbered_build steps k m (model?_build steps k ▸ hm)
  isSome_node?_iff := by
    intro k m _ i
    simp [Tree.node?]
  node_id_eq := by
    intro k m hm
    obtain ⟨before, path, dialect, after, rfl, rfl⟩ := exists_addTree_of_model? hm
    rw [model?_build, Compilation.model?_build_addTree] at hm
    obtain rfl := Option.some.inj hm
    have hafter : ∀ s ∈ after, s.keepsTree = true :=
      fun s hs => hsteps s (List.mem_append_right _ (List.mem_cons_of_mem _ hs))
    exact FileModel.numbered_edited
      (fun e he => Compilation.keepsTree_of_mem_editsOf hafter he) (Tree.numbered_empty _ _ _)
  exists_addTree := fun k hk => Compilation.exists_addTree_of_lt hk
  of_handed := by
    intro before s after handle _ hhanded
    cases s with
    | addTree path dialect => exact .inl ⟨path, dialect, rfl⟩
    | edit k e =>
      obtain ⟨m, rawKind, span, parent, hm, rfl, -⟩ := handed_edit hhanded
      exact .inr ⟨k, rawKind, span, parent, rfl,
        (isSome_model?_build before k).1 (Option.isSome_iff_exists.2 ⟨m, hm⟩)⟩
  file_kept := by
    rintro before path dialect after rfl
    refine ⟨added before, _, ?_, rfl, ?_, rfl, FileModel.keywords_edited _ _⟩
    · exact congrArg (fun id => some (Handle.file id)) (nextTree_build before)
    · rw [model?_build, Compilation.model?_build_addTree]
  node_kept := by
    rintro before k rawKind span parent after rfl m hm
    have hafter : ∀ s ∈ after, s.keepsTree = true :=
      fun s hs => hsteps s (List.mem_append_right _ (List.mem_cons_of_mem _ hs))
    obtain ⟨m', hm', hnode⟩ :=
      Compilation.node?_build_node hafter ((model?_build before k).symm.trans hm)
    exact ⟨_, m', handed_node hm rawKind span parent, rfl, (model?_build _ k).trans hm', hnode⟩

/-- A file and a node in it, after which the file changes its dialect. -/
def firstSteps : List BuildStep :=
  [.addTree "Test0.cs" .csharp, .edit 0 (.node 100 (Span.ofLength 6 20 9) none),
    .edit 0 (.dialect .visualBasic)]

/-- Another file, and one more node in the first. -/
def lastSteps : List BuildStep :=
  [.addTree "Test1.vb" .visualBasic, .edit 0 (.node 201 (Span.ofLength 7 20 9) (some 0)),
    .edit 0 (.path "Test0.g.cs")]

/-- The two nodes of the first file keep the dialects that the tree had when they were added, in the
places that were handed back for them, and the file keeps its keywords. The second file was handed
back as number one. -/
theorem faithful_build_firstSteps :
    (∀ s ∈ firstSteps ++ lastSteps, s.keepsTree = true) ∧
      (build (firstSteps ++ lastSteps)).treeIds = [0, 1] ∧
      ((build firstSteps).step (.addTree "Test1.vb" .visualBasic)).1 = some (.file 1) ∧
      ∃ m, (build (firstSteps ++ lastSteps)).model? 0 = some m ∧ m.keywords = .csharp ∧
        m.tree.dialect = .visualBasic ∧
        m.tree.node? 0 = some ⟨0, 100, .csharp, Span.ofLength 6 20 9, none⟩ ∧
        m.tree.node? 1 = some ⟨1, 201, .visualBasic, Span.ofLength 7 20 9, some 0⟩ := by
  have hsteps : ∀ s ∈ firstSteps ++ lastSteps, s.keepsTree = true := by decide
  have hfaithful := faithful_build hsteps
  obtain ⟨_, m, -, rfl, hm, hedited, hkeywords⟩ :=
    hfaithful.file_kept [] "Test0.cs" .csharp _ rfl
  obtain ⟨_, -, hsecond, rfl, -⟩ := hfaithful.file_kept firstSteps "Test1.vb" .visualBasic _ rfl
  obtain ⟨_, m₀, -, rfl, hm₀, hfirst⟩ :=
    hfaithful.node_kept (firstSteps.take 1) 0 _ _ _ _ rfl _ rfl
  obtain ⟨_, m₁, -, rfl, hm₁, hlast⟩ :=
    hfaithful.node_kept (firstSteps ++ lastSteps.take 1) 0 _ _ _ _ rfl _ rfl
  obtain rfl : m = m₀ := Option.some.inj (hm.symm.trans hm₀)
  obtain rfl : m = m₁ := Option.some.inj (hm.symm.trans hm₁)
  refine ⟨hsteps, hfaithful.treeIds_eq, hsecond, m, hm, hkeywords, ?_, hfirst, hlast⟩
  rw [hedited]
  rfl

end Workspace

end BoxLint
