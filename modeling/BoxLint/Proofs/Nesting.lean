import BoxLint.Source.Span
import Mathlib.Order.Defs.Unbundled

/-!
# Nesting

Positions and nesting keys are in linear orders. Spans are only partially ordered by containment
(`Span.isPartialOrder_contains`), and one that lies strictly inside another has the smaller nesting
key (`Span.nestingKey_lt_of_contains`). So of all the spans that contain a given one, that span
itself has the least key. Nothing of this asks a span to stop after its start.
-/

namespace BoxLint

namespace Position

instance : Std.IsLinearOrder Position where
  le_refl p := by
    rw [le_def]
    omega
  le_trans p q r hpq hqr := by
    rw [le_def] at *
    omega
  le_antisymm p q hpq hqp := by
    obtain ⟨l, c⟩ := p
    obtain ⟨l', c'⟩ := q
    simp only [le_def, mk.injEq] at *
    omega
  le_total p q := by
    rw [le_def, le_def]
    omega

instance : Std.LawfulOrderLT Position where
  lt_iff p q := by
    rw [lt_def, le_def, le_def]
    omega

end Position

namespace NestingKey

instance : Std.IsLinearOrder NestingKey where
  le_refl a := Or.inr ⟨rfl, Std.le_refl a.stop⟩
  le_trans a b c hab hbc := by
    rw [le_def] at *
    grind
  le_antisymm a b hab hba := by
    obtain ⟨s, t⟩ := a
    obtain ⟨s', t'⟩ := b
    simp only [le_def, mk.injEq] at *
    grind
  le_total a b := by
    rw [le_def, le_def]
    grind

instance : Std.LawfulOrderLT NestingKey where
  lt_iff a b := by
    rw [lt_def, le_def, le_def]
    grind

theorem isStrictTotalOrder_lt : IsStrictTotalOrder NestingKey (· < ·) where
  trichotomous _ _ hab hba := Std.le_antisymm (Std.not_lt.1 hba) (Std.not_lt.1 hab)
  irrefl _ := Std.lt_irrefl
  trans _ _ _ := Std.lt_trans

end NestingKey

namespace Span

theorem contains_iff {outer inner : Span} :
    outer.contains inner = true ↔ outer.start ≤ inner.start ∧ inner.stop ≤ outer.stop := by
  rw [contains, Bool.and_eq_true, decide_eq_true_eq, decide_eq_true_eq]

theorem contains_refl (s : Span) : s.contains s = true :=
  contains_iff.2 ⟨Std.le_refl _, Std.le_refl _⟩

theorem contains_trans {a b c : Span} (hab : a.contains b = true) (hbc : b.contains c = true) :
    a.contains c = true := by
  rw [contains_iff] at *
  exact ⟨Std.le_trans hab.1 hbc.1, Std.le_trans hbc.2 hab.2⟩

theorem contains_antisymm {a b : Span} (hab : a.contains b = true) (hba : b.contains a = true) :
    a = b := by
  rw [contains_iff] at *
  obtain ⟨s, t⟩ := a
  obtain ⟨s', t'⟩ := b
  obtain rfl : s = s' := Std.le_antisymm hab.1 hba.1
  obtain rfl : t = t' := Std.le_antisymm hba.2 hab.2
  rfl

theorem isPartialOrder_contains :
    IsPartialOrder Span fun outer inner => outer.contains inner = true where
  refl := contains_refl
  trans _ _ _ := contains_trans
  antisymm _ _ := contains_antisymm

theorem nestingKey_inj {s t : Span} : s.nestingKey = t.nestingKey ↔ s = t := by
  obtain ⟨a, b⟩ := s
  obtain ⟨c, d⟩ := t
  simp [nestingKey]

/-- A span strictly inside another comes first in the order of nesting keys. -/
theorem nestingKey_lt_of_contains {outer inner : Span} (h : outer.contains inner = true)
    (hne : inner ≠ outer) : inner.nestingKey < outer.nestingKey := by
  obtain ⟨hstart, hstop⟩ := contains_iff.1 h
  rw [Ne, ← nestingKey_inj] at hne
  refine Std.lt_of_le_of_ne ?_ hne
  rw [NestingKey.le_def]
  change outer.start < inner.start ∨ inner.start = outer.start ∧ inner.stop ≤ outer.stop
  grind

/-- **Nesting keys extend containment to a linear order.** Containment is a partial order of all
spans, those over several lines, the empty ones and those that run backwards among them. Keys are
in a strict linear order, different spans have different keys, and a span that lies inside another
one has the smaller key. -/
theorem nestingKey_extends_contains :
    IsPartialOrder Span (fun outer inner => outer.contains inner = true) ∧
      IsStrictTotalOrder NestingKey (· < ·) ∧ Function.Injective nestingKey ∧
      ∀ outer inner : Span, outer.contains inner = true → outer ≠ inner →
        inner.nestingKey < outer.nestingKey := by
  refine ⟨isPartialOrder_contains, NestingKey.isStrictTotalOrder_lt, ?_, ?_⟩
  · intro s t h
    exact nestingKey_inj.1 h
  · intro outer inner h hne
    exact nestingKey_lt_of_contains h hne.symm

/-- A span over two lines, an empty one inside it, and one inside both that runs backwards. -/
theorem nestingKey_extends_contains_backwards :
    (between 6 20 7 14).contains (between 6 40 6 40) = true ∧
      (between 6 40 6 40).contains (between 7 13 6 2) = true ∧
      (between 6 20 7 14).contains (between 7 13 6 2) = true ∧
      (between 7 13 6 2).nestingKey < (between 6 40 6 40).nestingKey ∧
      (between 6 40 6 40).nestingKey < (between 6 20 7 14).nestingKey := by
  obtain ⟨hcontains, -, -, hkey⟩ := nestingKey_extends_contains
  have hempty : (between 6 20 7 14).contains (between 6 40 6 40) = true := by decide
  have hback : (between 6 40 6 40).contains (between 7 13 6 2) = true := by decide
  exact ⟨hempty, hback, hcontains.trans _ _ _ hempty hback, hkey _ _ hback (by decide),
    hkey _ _ hempty (by decide)⟩

end Span

end BoxLint
