/-!
# Positions and spans

A position is a line and a column. A span runs from one position to another; nothing asks the
second to come after the first, so a span may be empty or run backwards. Two orders matter:
spans are sorted by where they start and then by where they stop, and they are ranked by nesting
(`NestingKey`), where a span that lies strictly inside another comes first.
-/

namespace BoxLint

/-- A line and a column of a source file. -/
structure Position where
  line : Nat
  col : Nat
  deriving DecidableEq, Repr, Inhabited

namespace Position

/-- Positions are ordered by line, then by column. -/
instance : LT Position :=
  ⟨fun p q => p.line < q.line ∨ p.line = q.line ∧ p.col < q.col⟩

instance : LE Position :=
  ⟨fun p q => p.line < q.line ∨ p.line = q.line ∧ p.col ≤ q.col⟩

instance (p q : Position) : Decidable (p < q) :=
  inferInstanceAs (Decidable (p.line < q.line ∨ p.line = q.line ∧ p.col < q.col))

instance (p q : Position) : Decidable (p ≤ q) :=
  inferInstanceAs (Decidable (p.line < q.line ∨ p.line = q.line ∧ p.col ≤ q.col))

theorem lt_def {p q : Position} : p < q ↔ p.line < q.line ∨ p.line = q.line ∧ p.col < q.col :=
  Iff.rfl

theorem le_def {p q : Position} : p ≤ q ↔ p.line < q.line ∨ p.line = q.line ∧ p.col ≤ q.col :=
  Iff.rfl

/-- The text of a position, `line:col`. -/
def text (p : Position) : String := toString p.line ++ ":" ++ toString p.col

end Position

/-- A stretch of source text, from `start` up to `stop`. -/
structure Span where
  start : Position
  stop : Position
  deriving DecidableEq, Repr, Inhabited

namespace Span

/-- The span from one line and column to another. -/
def between (line col endLine endCol : Nat) : Span := ⟨⟨line, col⟩, ⟨endLine, endCol⟩⟩

/-- A span of `length` columns on one line. -/
def ofLength (line col length : Nat) : Span := between line col line (col + length)

/-- The empty span at a position. -/
def atPosition (p : Position) : Span := ⟨p, p⟩

/-- Whether the span ends where it starts. -/
def isEmpty (s : Span) : Bool := s.start == s.stop

/-- Whether `inner` lies within `outer`, ends included. -/
def contains (outer inner : Span) : Bool := outer.start ≤ inner.start && inner.stop ≤ outer.stop

/-- Spans are ordered by start, then by stop. -/
instance : LT Span := ⟨fun s t => s.start < t.start ∨ s.start = t.start ∧ s.stop < t.stop⟩

instance : LE Span := ⟨fun s t => s.start < t.start ∨ s.start = t.start ∧ s.stop ≤ t.stop⟩

instance (s t : Span) : Decidable (s < t) :=
  inferInstanceAs (Decidable (s.start < t.start ∨ s.start = t.start ∧ s.stop < t.stop))

instance (s t : Span) : Decidable (s ≤ t) :=
  inferInstanceAs (Decidable (s.start < t.start ∨ s.start = t.start ∧ s.stop ≤ t.stop))

theorem lt_def {s t : Span} : s < t ↔ s.start < t.start ∨ s.start = t.start ∧ s.stop < t.stop :=
  Iff.rfl

theorem le_def {s t : Span} : s ≤ t ↔ s.start < t.start ∨ s.start = t.start ∧ s.stop ≤ t.stop :=
  Iff.rfl

/-- How a span compares with another in the order of spans. -/
def order (s t : Span) : Ordering := compareOfLessAndEq s t

/-- The text of a span names where it starts. -/
def text (s : Span) : String := s.start.text

/-- The full text of a span, `line:col-endLine:endCol`. -/
def fullText (s : Span) : String := s.start.text ++ "-" ++ s.stop.text

end Span

/-- The rank of a span by nesting: a later start comes first, and of two spans with one start
the one that stops earlier. A span strictly inside another has the smaller key. -/
structure NestingKey where
  start : Position
  stop : Position
  deriving DecidableEq, Repr

namespace NestingKey

instance : LT NestingKey := ⟨fun a b => b.start < a.start ∨ a.start = b.start ∧ a.stop < b.stop⟩

instance : LE NestingKey := ⟨fun a b => b.start < a.start ∨ a.start = b.start ∧ a.stop ≤ b.stop⟩

instance (a b : NestingKey) : Decidable (a < b) :=
  inferInstanceAs (Decidable (b.start < a.start ∨ a.start = b.start ∧ a.stop < b.stop))

instance (a b : NestingKey) : Decidable (a ≤ b) :=
  inferInstanceAs (Decidable (b.start < a.start ∨ a.start = b.start ∧ a.stop ≤ b.stop))

theorem lt_def {a b : NestingKey} :
    a < b ↔ b.start < a.start ∨ a.start = b.start ∧ a.stop < b.stop :=
  Iff.rfl

theorem le_def {a b : NestingKey} :
    a ≤ b ↔ b.start < a.start ∨ a.start = b.start ∧ a.stop ≤ b.stop :=
  Iff.rfl

end NestingKey

/-- The nesting key of a span. -/
def Span.nestingKey (s : Span) : NestingKey := ⟨s.start, s.stop⟩

end BoxLint
