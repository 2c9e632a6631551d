import CirText.Text.Utf8

/-!
# Spans

A span is a piece of a source unit, given by the byte offsets of its start and of the place just
past its end. A span is allowed to be reversed, in which case it is empty and cuts nothing out.
-/

namespace CirText

/-- A range of byte offsets. -/
structure Span where
  /-- The offset of the first byte. -/
  start : Nat
  /-- The offset just past the last byte. -/
  stop : Nat
deriving DecidableEq, Repr

namespace Span

/-- The empty span at an offset: a place where text could be inserted. -/
def emptyAt (offset : Nat) : Span :=
  ⟨offset, offset⟩

/-- The least span that covers both. -/
def cover (first last : Span) : Span :=
  ⟨min first.start last.start, max first.stop last.stop⟩

/-- The number of bytes covered. -/
def length (span : Span) : Nat :=
  span.stop - span.start

/-- Whether no byte is covered. -/
def isEmpty (span : Span) : Bool :=
  span.length == 0

/-- Whether a span ends where another one starts, or before that. -/
def Before (first second : Span) : Prop :=
  first.stop ≤ second.start

instance (first second : Span) : Decidable (first.Before second) :=
  inferInstanceAs (Decidable (first.stop ≤ second.start))

/-- The piece of text that the span covers. -/
def slice (span : Span) (text : List Char) : List Char :=
  Text.slice text span.start span.stop

/-- Whether a span comes before another in the order by start, then by end. -/
def precedes (a b : Span) : Bool :=
  a.start < b.start || (a.start == b.start && a.stop < b.stop)

/-- Whether a span comes before another or equals it in the order by start, then by end. -/
def notAfter (a b : Span) : Bool :=
  !b.precedes a

/-- The span with its end moved past its start, so that there is something to underline. -/
def visible (span : Span) : Span :=
  ⟨span.start, max span.stop (span.start + 1)⟩

end Span

end CirText
