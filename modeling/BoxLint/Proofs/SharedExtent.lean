import BoxLint.Proofs.NodeSearch
import BoxLint.Proofs.Suppression

/-!
# Casts that share their extent

A diagnostic on the extent of a node is traced back to the outermost node of that extent, and that
node alone decides (`onBoxingCast_iff_outermost`). So a diagnostic on a boxing cast is suppressed
whatever else the tree holds, as long as the cast is the outermost node of its extent. An argument
that consists of nothing but the cast has the same extent and is further out: there the diagnostic
stays (`ObjectCast.suppress_in_argument`).
-/

namespace BoxLint

/-- The node is a cast that the user wrote, bound to a conversion that boxes. -/
def FileModel.IsBoxingCast (m : FileModel) (n : Node) : Prop :=
  n.isExplicitCast = true ∧ ∃ op, m.operation? n = some op ∧ op.isBoxing = true

section Extent

variable {s : Settings} {c : Compilation} {t : TreeId} {m : FileModel} {n : Node} {d : Diagnostic}

theorem onBoxingCast_iff_find? (hm : c.model? t = some m) (hloc : d.location = .inTree t n.span) :
    OnBoxingCast c d ↔ ∃ r, m.tree.find? n.span = some r ∧ m.IsBoxingCast r := by
  simp only [OnBoxingCast, FileModel.IsBoxingCast, hloc, Location.inTree]
  constructor
  · rintro ⟨t', m', r, op, ht, hm', hr, hcast, hop, hbox⟩
    obtain rfl := Option.some.inj ht
    obtain rfl := Option.some.inj (hm.symm.trans hm')
    exact ⟨r, hr, hcast, op, hop, hbox⟩
  · rintro ⟨r, hr, hcast, op, hop, hbox⟩
    exact ⟨t, m, r, op, rfl, hm, hr, hcast, hop, hbox⟩

/-- On the extent of a node the outermost node of that extent decides. -/
theorem onBoxingCast_iff_outermost (hm : c.model? t = some m) (hn : n ∈ m.tree.nodes)
    (hloc : d.location = .inTree t n.span) :
    OnBoxingCast c d ↔ ∃ r, r.span = n.span ∧ m.tree.Outermost r ∧ m.IsBoxingCast r := by
  simp only [onBoxingCast_iff_find? hm hloc, Tree.find?_span_eq_some_iff hn, and_assoc]

theorem mem_suppressionsOf {ds : List Diagnostic} :
    ⟨Rule.boxingCast, d⟩ ∈ suppressionsOf s c ds ↔ d ∈ ds ∧ Suppressible s c d := by
  simp [suppressionsOf]

end Extent

/-- **A boxing cast that is the outermost node of its extent keeps its diagnostic suppressed.**
Suppress a batch in a compilation without cycles while the signal stays down, and take from it a
diagnostic that calls a cast redundant, on the extent of a node `n`. If `n` is a boxing cast and the
outermost node of its extent, the diagnostic is suppressed, whatever other nodes the tree holds. In
general it is suppressed exactly if the outermost node of that extent is a boxing cast. -/
theorem suppress_at_extent {σ : Type} {h : Host σ} {st : σ} (hd : h.StaysDown st) {s : Settings}
    (hs : s.isEnabled "SPR0004" true = true) {c : Compilation} (hc : c.Acyclic) {t : TreeId}
    {m : FileModel} (hm : c.model? t = some m) {n : Node} (hn : n ∈ m.tree.nodes) {d : Diagnostic}
    (hid : d.id = "IDE0004") (hloc : d.location = .inTree t n.span) {reported : List Diagnostic}
    (hr : d ∈ reported) :
    ∃ xs, ((Linter.ofSettings s).suppress h st c reported).result = .ok xs ∧
      (m.tree.Outermost n → m.IsBoxingCast n → ⟨Rule.boxingCast, d⟩ ∈ xs) ∧
      (⟨Rule.boxingCast, d⟩ ∈ xs ↔
        ∃ r, r.span = n.span ∧ m.tree.Outermost r ∧ m.IsBoxingCast r) := by
  have hiff : ⟨Rule.boxingCast, d⟩ ∈ suppressionsOf s c reported ↔
      ∃ r, r.span = n.span ∧ m.tree.Outermost r ∧ m.IsBoxingCast r := by
    rw [mem_suppressionsOf, ← onBoxingCast_iff_outermost hm hn hloc]
    simp [Suppressible, hr, hs, hid]
  exact ⟨_, Linter.suppress_of_staysDown hc hd reported,
    fun hout hcast => hiff.2 ⟨n, rfl, hout, hcast⟩, hiff⟩

namespace ObjectCast

/-- The extent of the cast taken by two nodes, one within the other, with the conversion bound to
one of them. -/
def nested (outer inner : NodeKind) (bound : NodeId) : FileModel :=
  (((FileModel.ofTree (Tree.empty 0 "Test0.cs" .csharp)).addNode outer.code node.span
    none).addNode inner.code node.span (some 0)).addRoot
      (.conversion (some .boxing)
        (.plain .literal ⟨some (.value "System.Int32"), 2, Span.ofLength 6 28 1, .csharp, false⟩ [])
        ⟨some (.reference "System.Object"), bound, node.span, .csharp, false⟩ [])

/-- The cast as the inner one of the two nodes. -/
def innerNode : Node := { node with id := 1, parent := some 0 }

/-- A node within the cast that takes all of its extent leaves the diagnostic suppressed. -/
theorem suppress_at_extent_outer :
    Host.quiet.StaysDown () ∧ Settings.default.isEnabled "SPR0004" true = true ∧
      (⟨[nested .castExpression .parenthesized 0]⟩ : Compilation).Acyclic ∧
      node ∈ (nested .castExpression .parenthesized 0).tree.nodes ∧
      (nested .castExpression .parenthesized 0).tree.Outermost node ∧
      (nested .castExpression .parenthesized 0).IsBoxingCast node ∧
      ∃ xs, ((Linter.ofSettings Settings.default).suppress Host.quiet ()
        ⟨[nested .castExpression .parenthesized 0]⟩ [redundant 0]).result = .ok xs ∧
        ⟨Rule.boxingCast, redundant 0⟩ ∈ xs := by
  have hacyclic : (⟨[nested .castExpression .parenthesized 0]⟩ : Compilation).Acyclic := by decide
  have hmem : node ∈ (nested .castExpression .parenthesized 0).tree.nodes := by decide
  have hout : (nested .castExpression .parenthesized 0).tree.Outermost node :=
    Tree.outermost_iff.2 (by decide)
  have hcast : (nested .castExpression .parenthesized 0).IsBoxingCast node :=
    ⟨by decide, _, rfl, by decide⟩
  obtain ⟨xs, hxs, hsuppressed, -⟩ := suppress_at_extent Host.staysDown_quiet
    (show Settings.default.isEnabled "SPR0004" true = true from rfl) hacyclic
    (show (⟨[nested .castExpression .parenthesized 0]⟩ : Compilation).model? 0 = some _ from rfl)
    hmem (show (redundant 0).id = "IDE0004" from rfl) rfl (List.mem_singleton.2 rfl)
  exact ⟨Host.staysDown_quiet, rfl, hacyclic, hmem, hout, hcast, xs, hxs, hsuppressed hout hcast⟩

/-- In an argument that consists of the cast, the cast boxes and the diagnostic lies on its extent,
and yet nothing is suppressed. -/
theorem suppress_in_argument :
    Host.quiet.StaysDown () ∧ Settings.default.isEnabled "SPR0004" true = true ∧
      (⟨[nested .argument .castExpression 1]⟩ : Compilation).Acyclic ∧
      innerNode ∈ (nested .argument .castExpression 1).tree.nodes ∧
      (nested .argument .castExpression 1).IsBoxingCast innerNode ∧
      (redundant 0).id = "IDE0004" ∧ (redundant 0).location = .inTree 0 innerNode.span ∧
      ((Linter.ofSettings Settings.default).suppress Host.quiet ()
        ⟨[nested .argument .castExpression 1]⟩ [redundant 0]).result = .ok [] :=
  ⟨Host.staysDown_quiet, rfl, by decide, by decide, ⟨by decide, _, rfl, by decide⟩, rfl, rfl, rfl⟩

end ObjectCast

end BoxLint
