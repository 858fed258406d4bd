/-! # Spans of text

Positions count the bytes of the UTF-8 encoding. A span is kept as its start
and its length, so its end never lies before its start. -/

namespace CSharpKit.Text

/-- A stretch of text. -/
structure Span where
  start : Nat
  length : Nat
  deriving DecidableEq, Hashable, Inhabited

namespace Span

/-- The position just past the span. -/
def stop (s : Span) : Nat := s.start + s.length

/-- The span between two positions, if the first does not lie behind the second. -/
def ofBounds? (start stop : Nat) : Option Span :=
  if start ≤ stop then some ⟨start, stop - start⟩ else none

def isEmpty (s : Span) : Bool := s.length == 0

/-- Whether `inner` lies within `s`, touching ends included. -/
def containsSpan (s inner : Span) : Bool := s.start ≤ inner.start && inner.stop ≤ s.stop

/-- The positions of a span as they are written, `3..9`. -/
def render (s : Span) : String := s!"{s.start}..{s.stop}"

theorem start_le_stop (s : Span) : s.start ≤ s.stop := Nat.le_add_right _ _

theorem stop_ofBounds? {a b : Nat} {s : Span} (h : ofBounds? a b = some s) :
    s.start = a ∧ s.stop = b := by
  unfold ofBounds? at h
  split at h
  · cases h
    exact ⟨rfl, show a + (b - a) = b by omega⟩
  · cases h

end Span

end CSharpKit.Text
