namespace RandomTables

structure Span where
  start : Nat
  stop : Nat
  start_le_stop : start ≤ stop := by omega
  deriving DecidableEq, Repr

inductive SpanFault where
  | negative
  | reversed
  deriving DecidableEq, Repr

def SpanFault.message : SpanFault → String
  | negative => "Span positions cannot be negative"
  | reversed => "Span invariant violated: start > end"

namespace Span

def ofOffsets (start stop : Int) : Except SpanFault Span :=
  if start < 0 ∨ stop < 0 then .error .negative
  else if h : start.toNat ≤ stop.toNat then .ok ⟨start.toNat, stop.toNat, h⟩
  else .error .reversed

def ofLength (start length : Int) : Except SpanFault Span :=
  ofOffsets start (start + length)

def empty (offset : Nat) : Span :=
  ⟨offset, offset, Nat.le_refl offset⟩

def length (s : Span) : Nat :=
  s.stop - s.start

def isEmpty (s : Span) : Bool :=
  s.start == s.stop

def contains (s : Span) (offset : Int) : Bool :=
  s.start ≤ offset && offset < s.stop

def cover (s t : Span) : Span where
  start := min s.start t.start
  stop := max s.stop t.stop
  start_le_stop := by
    have := s.start_le_stop
    omega

/-- Where a span lies relative to another: before it, after it, or neither, when they overlap.
Spans that only touch do not overlap. -/
def position (s t : Span) : Ordering :=
  if s.stop ≤ t.start then .lt
  else if t.stop ≤ s.start then .gt
  else .eq

instance : Ord Span where
  compare s t := (compare s.start t.start).then (compare s.stop t.stop)

def sort (spans : List Span) : List Span :=
  spans.mergeSort fun s t => (compare s t).isLE

def slice (s : Span) (text : List Char) : List Char :=
  (text.drop s.start).take (s.stop - s.start)

def pairText (s : Span) : String :=
  s!"({s.start}, {s.stop})"

def describe (s : Span) : String :=
  "Span" ++ s.pairText

/-- A word is cut out of its source by the span from where it begins to where it ends. -/
theorem slice_append (before lexeme after : List Char) :
    slice ⟨before.length, before.length + lexeme.length, by omega⟩ (before ++ lexeme ++ after) =
      lexeme := by
  simp [slice]

end Span

end RandomTables
