import CommandTape.Memory

/-!
# Segments

A `Segment` is the front of a mapped block that records are written to, one after the other. Once no
more records go into it, it is cut down to what was written. A `SegmentView` is what of it is shown.
-/

namespace CommandTape

/-- Who made the memory of a segment. -/
inductive Origin where
  /-- The tape itself. -/
  | tape
  /-- A writing client, or another program. -/
  | client
deriving DecidableEq, Repr

/-- The word for an origin. -/
def Origin.label : Origin → String
  | tape => "Buffer"
  | client => "Client"

/-- The front of a mapped block. -/
structure Segment where
  id : SegmentId
  mapping : Mapping
  /-- The count of bytes that may be used. -/
  capacity : Nat
  origin : Origin
  capacity_le : capacity ≤ mapping.length

namespace Segment

/-- The segment of all bytes of a mapping that came from a client. -/
def ofMapping (id : SegmentId) (m : Mapping) : Segment :=
  ⟨id, m, m.length, .client, Nat.le_refl _⟩

/-- The bytes of the segment. -/
def data (segment : Segment) (store : Store) : Extent :=
  .ofBlock (store.block segment.mapping.block) segment.capacity

/-- The count of bytes of segments together. -/
def total : List Segment → Nat
  | [] => 0
  | segment :: rest => segment.capacity + total rest

theorem total_append (a b : List Segment) : total (a ++ b) = total a + total b := by
  induction a with
  | nil => exact (Nat.zero_add _).symm
  | cons segment a ih => rw [List.cons_append, total, total, ih, Nat.add_assoc]

/-- Whether the segment starts at a multiple of eight. -/
def isAligned (segment : Segment) : Bool := segment.mapping.isAligned

/-- Cuts the segment down to its first `length` bytes. -/
def truncate (segment : Segment) (length : Nat) : Except Fault Segment :=
  if h : length ≤ segment.capacity then
    .ok { segment with
      capacity := length
      capacity_le := Nat.le_trans h segment.capacity_le }
  else .error (.cannotGrow segment.id segment.capacity length)

/-- The segment as a constructed value. -/
def summary (segment : Segment) : String :=
  s!"Segment \x7b identifier: {segment.id.summary}, capacity: {segment.capacity}, " ++
    s!"origin: {segment.origin.label} \x7d"

end Segment

end CommandTape
