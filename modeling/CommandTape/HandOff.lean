import CommandTape.SharedMemory
import CommandTape.Tape

/-!
# Handing tapes off

A message (`WireMessage`) describes the segments of a tape that lies in shared memory, and carries a
descriptor for each. Its data are a header of sixteen bytes, and sixteen bytes for each segment: the
header names the sender, counts the segments and holds the checksum of what follows, and for each
segment stand its identifier and the count of bytes written to it. `Tape.handOff` is `to_wire`.
`Tape.receive` is `from_wire`: a program that takes a message maps the segments for reading only.
-/

namespace CommandTape

/-- A tape on its way to another program. -/
structure Message where
  data : Bytes
  /-- A descriptor for each segment, in their order. -/
  descriptors : List Descriptor
deriving DecidableEq

namespace Message

/-- The size of the header. -/
def headerSize : Nat := 16

/-- The size of what stands for one segment. -/
def entrySize : Nat := 16

/-- Where the header names the sender. -/
def senderOffset : Nat := 0

/-- Where the header counts the segments. -/
def countOffset : Nat := 8

/-- Where the header has the checksum of what follows. -/
def checksumOffset : Nat := 12

/-- One message carries no more descriptors than this. -/
def segmentLimit : Nat := 64

/-- The message as a constructed value. -/
def summary (m : Message) : String :=
  s!"WireMessage \x7b data: {m.data.length}, fds: {m.descriptors.length} \x7d"

/-! ## Writing -/

/-- What stands for one segment. -/
def entry (id : SegmentId) (length : Nat) : Bytes :=
  LittleEndian.encode 8 id.raw.toNat ++ LittleEndian.encode 8 length

/-- The header before a table of segments. -/
def header (sender : UInt64) (count : Nat) (table : Bytes) : Bytes :=
  LittleEndian.encode 8 sender.toNat ++ LittleEndian.encode 4 count ++
    LittleEndian.encode 4 (Checksum.crc32 table).toNat

/-- The table of segments, and their descriptors, after `count` segments before them. -/
def describe : List SegmentView → (count : Nat) → Except Failure (Bytes × List Descriptor)
  | [], _ => .ok ([], [])
  | view :: rest, count => do
    if count = segmentLimit then throw (.tooManySegments segmentLimit)
    let descriptor ← match view.descriptor with
      | none => throw (.notShared view.id)
      | some .closed => throw (.system .badDescriptor)
      | some descriptor => pure descriptor
    let (table, descriptors) ← describe rest (count + 1)
    return (entry view.id view.data.length ++ table, descriptor :: descriptors)

/-- The message that describes segments. -/
def ofViews (sender : UInt64) (views : List SegmentView) : Except Failure Message := do
  let (table, descriptors) ← describe views 0
  return ⟨header sender descriptors.length table ++ table, descriptors⟩

/-! ## Reading -/

/-- The segments that a table describes from the entry with the given number on, one for each
descriptor. -/
def readEntries (store : Store) (table : Bytes) :
    List Descriptor → (index : Nat) → Outcome Failure (List Segment)
  | [], _ => .ok []
  | descriptor :: rest, index => do
    let start := index * entrySize
    let id ← Outcome.ofFaulty (Word.read 8 table start)
    let length ← Outcome.ofFaulty (Word.read 8 table (start + 8))
    let mapping ← match SharedMemory.map store descriptor with
      | .ok mapping => pure mapping
      | .error reason => throw (.failed reason)
    let id : SegmentId := ⟨UInt64.ofNat id⟩
    if mapping.length < length ∨ length % Layout.alignment ≠ 0 then
      throw (.failed (.lengthClaimed id length mapping.length))
    let segment ← Outcome.ofFaulty ((Segment.ofMapping id mapping).truncate length)
    let segments ← readEntries store table rest (index + 1)
    return segment :: segments

/-- The sender of a message, and the segments that it describes. -/
def read (store : Store) (m : Message) : Outcome Failure (UInt64 × List Segment) := do
  if m.data.length < headerSize then throw (.failed (.messageTooShort m.data.length))
  let sender ← Outcome.ofFaulty (Word.read 8 m.data senderOffset)
  let count ← Outcome.ofFaulty (Word.read 4 m.data countOffset)
  let checksum ← Outcome.ofFaulty (Word.read 4 m.data checksumOffset)
  if segmentLimit < count ∨ m.data.length ≠ headerSize + count * entrySize then
    throw (.failed (.messageMisshapen m.data.length count))
  if m.descriptors.length ≠ count then
    throw (.failed (.descriptorCount count m.descriptors.length))
  let table ← Outcome.ofFaulty (Word.suffix m.data headerSize)
  if (Checksum.crc32 table).toNat ≠ checksum then throw (.failed (.tableCorrupt sender))
  let segments ← readEntries store table m.descriptors 0
  return (UInt64.ofNat sender, segments)

end Message

namespace Tape

variable {σ : Type}

/-- The message that hands a tape off. -/
def handOff (tape : Tape σ) (sender : UInt64) (s : Session σ) :
    Except Failure Message × Session σ :=
  match Message.ofViews sender (tape.views s.store) with
  | .error reason => (.error reason, s)
  | .ok message => (.ok message, s.note (.sending message.descriptors.length tape.size))

/-- The tape that a message hands off, and its sender. -/
def receive (message : Message) (s : Session σ) :
    Outcome Failure (UInt64 × Tape σ) × Session σ :=
  match message.read s.store with
  | .error h => (.error h, s)
  | .ok (sender, segments) =>
    (.ok (sender, ofSegments segments), s.note (.received segments.length sender.toNat))

end Tape

end CommandTape
