import Bindery.Fault

/-!
# Spans

A span is a start position and a length. Positions are 32-bit numbers, so an end past the range is a
fault: the operations with a question mark check it. Trees never come near the limit, and use the
unchecked ones.
-/

namespace Bindery

structure Span where
  start : Nat
  length : Nat
deriving DecidableEq, Repr

namespace Span

/-- Number of positions. -/
def limit : Nat := UInt32.size

/-- The half-open span from `start` to `stop`. -/
def ofBounds (start stop : Nat) : Span := ⟨start, stop - start⟩

/-- The position after the last one. -/
def stop (s : Span) : Nat := s.start + s.length

def isEmpty (s : Span) : Bool := s.length == 0

/-- Whether every position of `inner` lies in `outer`. -/
def covers (outer inner : Span) : Bool := outer.start ≤ inner.start && inner.stop ≤ outer.stop

/-! ### Checked operations -/

def stop? (s : Span) : Except Fault Nat :=
  if s.stop < limit then .ok s.stop else .error .overflow

/-- The end is looked at only for positions from the start on. -/
def contains? (s : Span) (position : Nat) : Except Fault Bool :=
  if s.start ≤ position then s.stop?.map (fun stop => decide (position < stop)) else .ok false

/-- The ends are looked at only when the starts are in order. -/
def covers? (outer inner : Span) : Except Fault Bool := do
  if outer.start ≤ inner.start then
    let innerStop ← inner.stop?
    let outerStop ← outer.stop?
    return decide (innerStop ≤ outerStop)
  else
    return false

/-- The least span that covers both. -/
def union? (a b : Span) : Except Fault Span := do
  let aStop ← a.stop?
  let bStop ← b.stop?
  return ofBounds (min a.start b.start) (max aStop bStop)

/-- The span as an interval, `[0, 10)`. -/
def interval? (s : Span) : Except Fault String :=
  s.stop?.map fun stop => "[" ++ toString s.start ++ ", " ++ toString stop ++ ")"

/-- The span as a range, `0..10`. -/
def range? (s : Span) : Except Fault String :=
  s.stop?.map fun stop => toString s.start ++ ".." ++ toString stop

end Span
end Bindery
