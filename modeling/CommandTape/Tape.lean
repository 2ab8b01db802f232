import CommandTape.Session

/-!
# Tapes

A tape models `ItemBuffer`, a sequence of items in segments. Records are written to one segment
until the next does not fit; then it joins the segments that are only read, and another takes its
place. Inline items that have to be destroyed are remembered by the place of their record
(`PendingDestruction`).
-/

namespace CommandTape

/-- A recorded item that is to be destroyed. -/
structure Pending where
  location : Location
  /-- The place that the item's segment has, or will have, among those that are only read. -/
  segmentIndex : Nat
  kind : Kind

/-- A sequence of recorded items. -/
structure Tape (σ : Type) where
  reader : Option (ReadingClient σ)
  writer : Option (WritingClient σ)
  /-- The items to destroy, in the order in which they were recorded. -/
  pending : Journal Pending
  /-- The segments that are only read, oldest first. -/
  frozen : List Segment
  /-- The segment that records are written to. -/
  writable : Option Segment
  /-- The count of bytes written to it. -/
  written : Nat
  /-- The least capacity of a segment that the tape allocates for itself. -/
  segmentCapacity : Nat

/-- What was written to a segment. -/
structure SegmentView where
  id : SegmentId
  data : Extent
  /-- The name under which the segment's memory can be shared. -/
  descriptor : Option Descriptor

namespace Tape

variable {σ : Type}

/-- A tape without items, whose segments have at least the given capacity, rounded up. -/
def withCapacity (capacity : Nat) : Except Fault (Tape σ) := do
  let capacity ← Word.alignUp (max capacity Layout.headerSize)
  return ⟨none, none, .empty, [], none, 0, capacity⟩

/-- A tape without items. -/
def empty : Tape σ := ⟨none, none, .empty, [], none, 0, Layout.defaultCapacity⟩

/-- A tape over segments that were recorded elsewhere. -/
def ofSegments (segments : List Segment) : Tape σ := { empty with frozen := segments }

/-- Sets the client that supplies memory and encodes items. -/
def setWriter (tape : Tape σ) (client : Option (WritingClient σ)) : Tape σ :=
  { tape with writer := client }

/-- Sets the client that decodes items. -/
def setReader (tape : Tape σ) (client : Option (ReadingClient σ)) : Tape σ :=
  { tape with reader := client }

/-- The count of bytes that the records take. -/
def size (tape : Tape σ) : Nat := Segment.total tape.frozen + tape.written

/-- Whether nothing was recorded. -/
def isEmpty (tape : Tape σ) : Bool := tape.written = 0 && tape.frozen.isEmpty

/-- The count of segments that something was written to. -/
def segmentCount (tape : Tape σ) : Nat :=
  tape.frozen.length + if 0 < tape.written then 1 else 0

/-- What was written to each segment, in the order in which it is to be read. -/
def views (tape : Tape σ) (store : Store) : List SegmentView :=
  tape.frozen.map (fun segment =>
    ⟨segment.id, segment.data store, segment.mapping.descriptor⟩) ++
  match tape.writable with
  | some segment =>
    if 0 < tape.written then
      [⟨segment.id, (segment.data store).take tape.written, segment.mapping.descriptor⟩]
    else []
  | none => []

/-- The tape as a constructed value. -/
def summary (tape : Tape σ) : String :=
  let segments := "[" ++ ", ".intercalate (tape.frozen.map Segment.summary) ++ "]"
  let writable := match tape.writable with
    | some segment => "Some(" ++ segment.summary ++ ")"
    | none => "None"
  s!"ItemBuffer \x7b read_only_segments: {segments}, writable_segment: {writable}, " ++
    s!"written_bytes: {tape.written}, items_to_destroy: {tape.pending.length} \x7d"

end Tape

end CommandTape
