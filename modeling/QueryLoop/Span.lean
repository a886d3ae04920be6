namespace QueryLoop

/-- The bytes from `start` up to, not including, `stop`.  The ends are not
ordered: the place of a token that is missing starts at the next token and
stops at the previous one. -/
structure Span where
  start : Nat
  stop : Nat
deriving DecidableEq, Repr, Inhabited

namespace Span

def contains (outer inner : Span) : Bool :=
  decide (outer.start ≤ inner.start) && decide (inner.stop ≤ outer.stop)

def through (first last : Span) : Span :=
  ⟨first.start, last.stop⟩

theorem contains_iff {outer inner : Span} :
    outer.contains inner = true ↔ outer.start ≤ inner.start ∧ inner.stop ≤ outer.stop := by
  simp [contains]

theorem contains_refl (span : Span) : span.contains span = true := by
  simp [contains]

theorem contains_trans {outer middle inner : Span}
    (first : outer.contains middle = true) (second : middle.contains inner = true) :
    outer.contains inner = true := by
  rw [contains_iff] at *
  omega

end Span

end QueryLoop
