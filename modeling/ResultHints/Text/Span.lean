/-!
# Spans

A *span* is a half-open range of byte offsets into a source text. Every token
and every node of a syntax tree has one.

* `Span.contains` and `Span.overlaps`: how two spans lie to each other. Spans
  that merely touch do not overlap, and an empty span overlaps those that hold
  its offset strictly inside.
* `Span.cover`: the least span around two.
-/

namespace ResultHints

/-- A half-open range of byte offsets: from `start`, up to but not including
    `stop`. -/
structure Span where
  start : Nat
  stop : Nat
  deriving DecidableEq, Inhabited

namespace Span

/-- The empty span at an offset. -/
def point (offset : Nat) : Span := ⟨offset, offset⟩

/-- The number of bytes in the span. -/
def length (s : Span) : Nat := s.stop - s.start

/-- Whether the span holds no byte. -/
def isEmpty (s : Span) : Bool := s.start == s.stop

/-- Whether `t` lies entirely inside `s`. -/
def contains (s t : Span) : Bool := s.start ≤ t.start && t.stop ≤ s.stop

/-- Whether neither span ends before the other one begins. -/
def overlaps (s t : Span) : Bool := t.start < s.stop && s.start < t.stop

/-- The least span around both. -/
def cover (s t : Span) : Span := ⟨min s.start t.start, max s.stop t.stop⟩

/-- The span moved `n` bytes further into a text. -/
def shift (n : Nat) (s : Span) : Span := ⟨s.start + n, s.stop + n⟩

/-- The two offsets with two dots between them, as in `4..9`. -/
def render (s : Span) : String := toString s.start ++ ".." ++ toString s.stop

theorem overlaps_comm (s t : Span) : s.overlaps t = t.overlaps s := by
  simp only [overlaps, Bool.and_comm]

/-- A span that overlaps what another one contains overlaps the other one too. -/
theorem overlaps_of_contains {s t r : Span} (h : s.contains t) (ht : t.overlaps r) :
    s.overlaps r := by
  simp only [contains, overlaps, Bool.and_eq_true, decide_eq_true_eq] at *
  omega

end Span

end ResultHints
