/-!
# Spans

Byte ranges of a type description.  Every node, label and declaration carries one; the dummy span
`0..0` stands for "no place in the source".
-/

namespace WireTypes

/-- The bytes `start ≤ i < stop` of a description. -/
structure Span where
  start : UInt32
  stop : UInt32
  deriving DecidableEq, Repr

namespace Span

/-- The span of what no source spells. -/
def dummy : Span := ⟨0, 0⟩

instance : Inhabited Span := ⟨dummy⟩

/-- Number of bytes; a span that ends before it starts has none. -/
def length (s : Span) : UInt32 := if s.start < s.stop then s.stop - s.start else 0

def isEmpty (s : Span) : Bool := s.stop ≤ s.start

/-- `start..stop` -/
def display (s : Span) : String := s!"{s.start}..{s.stop}"

end Span

end WireTypes
