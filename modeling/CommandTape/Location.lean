/-!
# Segments' identifiers and records' locations

A `SegmentId` is a number that a counter gives out, and an `ItemLocation` is where a record starts.
-/

namespace CommandTape

/-- The identifier of a segment. -/
structure SegmentId where
  raw : UInt64
deriving DecidableEq, Repr

namespace SegmentId

/-- The identifier that is given out after so many others. The first is one; the counter comes round
behind the last. -/
def ofCount (count : Nat) : SegmentId := ⟨UInt64.ofNat (count + 1)⟩

/-- The identifier as messages show it. -/
def text (id : SegmentId) : String := s!"segment#{id.raw.toNat}"

/-- The identifier as a constructed value. -/
def summary (id : SegmentId) : String := s!"SegmentId({id.raw.toNat})"

/-- Identifiers are ordered by their numbers. -/
def order (a b : SegmentId) : Ordering := compare a.raw b.raw

end SegmentId

/-- Where a record starts: its segment, and its distance from the segment's start. -/
structure Location where
  segment : SegmentId
  offset : Nat
deriving DecidableEq, Repr

/-- The location as a constructed value. -/
def Location.summary (location : Location) : String :=
  "ItemLocation \x7b segment: " ++ location.segment.summary ++ ", offset: " ++
    toString location.offset ++ " \x7d"

end CommandTape
