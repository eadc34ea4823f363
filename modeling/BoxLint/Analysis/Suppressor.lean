import BoxLint.Analysis.Pass
import BoxLint.Boxing
import BoxLint.Model.Compilation
import BoxLint.Rule

/-!
# The suppressor

The suppressor judges one diagnostic at a time. A diagnostic on a cast that the user wrote is
suppressed when the cast boxes: without the cast the compiler would box by itself. Where the search
for the diagnostic's node runs for ever, so does the suppressor.
-/

namespace BoxLint.Suppressor

/-- What comes of a diagnostic in a file once its node is searched for: the reason to leave it
alone, or whether its cast boxes. -/
def verdict (m : FileModel) (d : Diagnostic) : Except Event Bool :=
  match m.tree.find? d.location.span with
  | none => .error (.noNode d.location)
  | some n =>
    if n.isExplicitCast then
      match m.operation? n with
      | none => .error (.unboundCast d.location)
      | some op => .ok op.isBoxing
    else .error (.notACast n.rawKind n.dialect)

/-- What the suppressor does once it has the model of a diagnostic's file. It comes to a verdict if
the search for the diagnostic's node ends. -/
def actionsIn (m : FileModel) (d : Diagnostic) : Pass Suppression :=
  if m.tree.searchEnds d.location.span then
    match verdict m d with
    | .error reason => [.log reason]
    | .ok true => [.log (.suppressing d.id d.location), .deliver ⟨Rule.boxingCast, d⟩]
    | .ok false => []
  else [.fail .endless]

/-- What the suppressor does with a diagnostic. -/
def actions (c : Compilation) (d : Diagnostic) : Pass Suppression :=
  .look (some .suppressionStopped) ::
    match d.location.tree with
    | none => [.log (.noTree d.id)]
    | some t =>
      .ask .model ::
        match c.model? t with
        | none => [.log (.unknownTree d.id t)]
        | some m => actionsIn m d

/-- The pass over a batch of diagnostics. -/
def pass (c : Compilation) (ds : List Diagnostic) : Pass Suppression := ds.flatMap (actions c)

/-- Goes through a batch of diagnostics. Suppressions that were collected before stay in front of
the new ones. -/
def collect {σ : Type} (h : Host σ) (s : σ) (c : Compilation) (before : List Suppression)
    (ds : List Diagnostic) : Outcome σ Suppression :=
  Outcome.andThen ⟨none, before, [], s⟩ fun s => (pass c ds).run h s

end BoxLint.Suppressor
