/-!
Half-open ranges of byte offsets into a source text.
-/

namespace WriteGuard

/-- The bytes from `start` up to, and not including, `stop`. -/
structure Span where
  start : Nat
  stop : Nat
  deriving DecidableEq, Repr, Inhabited

namespace Span

/-- The range of no bytes at `offset`. -/
def empty (offset : Nat) : Span := ⟨offset, offset⟩

/-- How many bytes a range holds; a reversed range holds none. -/
def length (s : Span) : Nat := s.stop - s.start

/-- Whether a range holds no byte. -/
def isEmpty (s : Span) : Bool := s.length == 0

/-- Whether `t` lies entirely within `s`. -/
def contains (s t : Span) : Bool := s.start ≤ t.start && t.stop ≤ s.stop

end Span

end WriteGuard
