import CommandTape.Canvas.Codec
import CommandTape.Samples.Items
import CommandTape.SharedMemory

/-!
# Sample clients

Clients that behave well, and clients that misbehave in every way that a tape has to cope with:
memory that is too small, too far off a multiple of eight, or not writable, identifiers of their own
choice, and encoders and decoders that give up.
-/

namespace CommandTape

/-- How often a client was asked. -/
structure Tally where
  /-- The count of segments that were asked for, except those refused for good. -/
  segments : Nat
  /-- The count of items that were to be encoded. -/
  encodes : Nat
deriving DecidableEq, Repr

/-- The tallies of all clients, each under the client's number. -/
abbrev Tallies := List Tally

namespace Tallies

/-- The tally of a client. -/
def of (tallies : Tallies) (client : Nat) : Tally := tallies.getD client ⟨0, 0⟩

/-- Counts a segment. -/
def countSegment (tallies : Tallies) (client : Nat) : Tallies :=
  tallies.modify client fun t => { t with segments := t.segments + 1 }

/-- Counts an item. -/
def countEncode (tallies : Tallies) (client : Nat) : Tallies :=
  tallies.modify client fun t => { t with encodes := t.encodes + 1 }

end Tallies

/-! ## Encoding -/

/-- How items are encoded. -/
inductive Encoder where
  /-- Texts and bytes as they are. -/
  | core
  /-- Drawing commands. -/
  | canvas
  /-- Not at all. -/
  | refusing
  /-- By a fault. -/
  | faulty
  /-- By the place of the record that is shown. -/
  | locating
deriving DecidableEq, Repr

namespace Encoder

/-- The blobs of the sample items. -/
def encodeCore (view : View) : Except Fault (Option Bytes) := do
  if view.hasKind Sample.textKind then
    return some (← view.get Sample.textKind).owned
  else if view.hasKind Sample.trackedTextKind then
    let item ← view.get Sample.trackedTextKind
    return some (item.image.take 8 ++ item.owned)
  else if view.hasKind Sample.blobKind then
    return some (← view.get Sample.blobKind).owned
  else if view.hasKind Sample.saveEncodedKind then
    return some (← view.get Sample.saveEncodedKind).image
  else return none

/-- The blob for an item. -/
def encode : Encoder → View → Except Fault (Option Bytes)
  | core, view => encodeCore view
  | canvas, view => Canvas.encode view
  | refusing, _ => .ok none
  | faulty, _ => .error (.raised "encoder panic")
  | locating, view =>
    let place := s!"{view.location.segment.raw.toNat} {view.location.offset} {view.length}"
    .ok (some (Utf8.encode place))

/-- Encodes and counts. -/
def counted (e : Encoder) (client : Nat) (view : View) (tallies : Tallies) :
    Except Fault (Option Bytes) × Tallies :=
  (e.encode view, tallies.countEncode client)

end Encoder

/-! ## Supplying memory -/

namespace Sample

theorem heapLimit_le : 0x1000000000 + Layout.pageSize ≤ Layout.memoryLimit := by decide

theorem mapLimit_le : 0x400000000000 + Layout.pageSize ≤ Layout.memoryLimit := by decide

/-- A machine of our days. -/
def machine : Machine := ⟨0x1000000000, 0x400000000000, heapLimit_le, mapLimit_le⟩

end Sample

/-- The memory that a client supplies. -/
inductive MemoryChoice where
  /-- Its own, so many bytes off a multiple of eight. -/
  | own (skew : Nat)
  /-- Its own, with a descriptor that stands for nothing. -/
  | broken
  /-- Shared memory. -/
  | shared
  /-- Shared memory that is mapped for reading only. -/
  | readOnly
deriving DecidableEq, Repr

/-- How a client supplies memory. -/
structure Supplier where
  /-- The least size of a segment. -/
  least : Nat
  /-- How many bytes each segment is short of what it should have. -/
  short : Nat
  /-- The byte that the client's own memory is full of. -/
  fill : UInt8
  /-- The count of segments after which there are no more. -/
  limit : Option Nat
  /-- The identifier of the first segment, and the distance to the next; none takes the next
  identifier of the session. -/
  ids : Option (UInt64 × UInt64)
  memory : MemoryChoice

namespace Supplier

/-- The memory for a segment. -/
def offer? (c : Supplier) (size : Nat) (id : Option SegmentId) : Option Offer :=
  match c.memory with
  | .own skew =>
    if h : size < Layout.memoryLimit then
      some { block := .uniform size c.fill h, address := skew, id := id }
    else none
  | .broken =>
    if h : size < Layout.memoryLimit then
      some { block := .uniform size c.fill h, sharing := .broken, id := id }
    else none
  | .shared =>
    match SharedMemory.create Sample.machine "driver" size with
    | .ok block => some { block := block, sharing := .shared, id := id }
    | .error _ => none
  | .readOnly =>
    match SharedMemory.create Sample.machine "driver" size with
    | .ok block => some { block := block, sharing := .shared, writable := false, id := id }
    | .error _ => none

/-- Whether no more segments are supplied after so many. -/
def isExhausted (c : Supplier) (count : Nat) : Bool :=
  match c.limit with
  | some limit => limit ≤ count
  | none => false

/-- The identifier of the segment after so many. -/
def id? (c : Supplier) (count : Nat) : Option SegmentId :=
  c.ids.map fun (first, step) => ⟨first + step * UInt64.ofNat count⟩

/-- The client with the given number. -/
def client (c : Supplier) (e : Encoder) (number : Nat) : WritingClient Tallies where
  supply minimum _ tallies :=
    let count := (tallies.of number).segments
    if c.isExhausted count then (.ok { offer := none }, tallies)
    else
      let size := max minimum c.least - c.short
      (.ok { offer := c.offer? size (c.id? count) }, tallies.countSegment number)
  encode := e.counted number

end Supplier

/-! ## Decoding -/

namespace Decoding

/-- Decodes the blobs of the sample items. -/
def core (blob : Bytes) (tag : Tag) : Decoding :=
  if tag = Sample.textKind.tag then
    match Utf8.decode blob with
    | .ok text => .ofItem (Sample.text text)
    | .error e => .failed (.malformed e.message)
  else if tag = Sample.trackedTextKind.tag then
    if blob.length < 8 then .failed .unexpectedEnd
    else
      match Utf8.decode (blob.drop 8) with
      | .ok text =>
        .ofItem (Sample.trackedText (UInt64.ofNat (LittleEndian.decode (blob.take 8))) text)
      | .error e => .failed (.malformed e.message)
  else if tag = Sample.blobKind.tag then .ofItem (Sample.blob blob)
  else if tag = Sample.saveEncodedKind.tag then
    match blob with
    | [] => .failed .unexpectedEnd
    | b :: _ => .ofItem (Sample.plain Sample.saveEncodedKind [b])
  else .failed (.unknownTag tag)

theorem keepsSlot_ofItem (item : Item) : (ofItem item).KeepsSlot := by
  simp [KeepsSlot, ofItem, SlotStep.keepsSlot]

theorem keepsSlot_failed (reason : DecodeError) : (failed reason).KeepsSlot := by
  simp [KeepsSlot, failed]

theorem keepsSlot_core (blob : Bytes) (tag : Tag) : (core blob tag).KeepsSlot := by
  unfold core
  repeat' split
  all_goals first | exact keepsSlot_ofItem _ | exact keepsSlot_failed _

/-- Puts the text that the blob spells into the slot, and takes it out again. -/
def emplaceAndReset (blob : Bytes) : Decoding :=
  match Utf8.decode blob with
  | .ok text => ⟨[.emplace (Sample.text text), .reset], .ok ()⟩
  | .error e => .failed (.malformed e.message)

/-- Puts items into the slot, one in the place of the other, and ends as told. -/
def emplaceAll (items : List Item) (ending : Outcome DecodeError Unit) : Decoding :=
  ⟨items.map .emplace, ending⟩

/-- Gives up. -/
def faulty : Decoding := ⟨[], .error (.fault (.raised "reader panic"))⟩

end Decoding

end CommandTape
