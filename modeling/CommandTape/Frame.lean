import CommandTape.Memory.Extent
import CommandTape.Vocabulary

/-!
# Frames

How the bytes of a segment divide into records, which `for_each_item_in_segment` reads one after the
other. The length of a record comes from the vocabulary if its item is inline, and from the record
itself if it is encoded; every length is compared with what is left of the segment before it is
believed. `Frame.split` cuts bytes into frames up to the end, or up to the first record that cannot
be read.
-/

namespace CommandTape

/-- What stands in a record. -/
inductive FrameBody where
  /-- An item that lies in the record, which the view shows. -/
  | inline (view : View)
  /-- A blob, and the tag that it was recorded with. -/
  | encoded (tag : Tag) (blob : Bytes)

/-- A record found in a segment. -/
structure Frame where
  location : Location
  body : FrameBody

namespace Frame

variable {C : Type}

/-- The size of the record. -/
def size (frame : Frame) : Nat :=
  match frame.body with
  | .inline view => view.length
  | .encoded _ blob => Layout.encodedSize blob.length

theorem size_pos (frame : Frame) : 0 < frame.size := by
  obtain ⟨_, body⟩ := frame
  cases body with
  | inline view => exact Nat.lt_of_lt_of_le (by decide) view.header_le
  | encoded _ blob => exact Nat.lt_of_lt_of_le (by decide) (Nat.le_add_right Layout.blobOffset _)

/-- The view of an inline record of `size` bytes at the front of `rest`. -/
def readInline (location : Location) (size : Nat) (rest : Extent) : Outcome DecodeError View := do
  if rest.length < size then throw (.failed .unexpectedEnd)
  let record ← Outcome.ofFaulty (rest.slice 0 size)
  Outcome.ofFaulty (View.ofRecord record [] location)

/-- The blob of the encoded record at the front of `rest`. -/
def readBlob (rest : Extent) : Outcome DecodeError Bytes := do
  if rest.length < Layout.blobOffset then throw (.failed .unexpectedEnd)
  let length ← Outcome.ofFaulty (rest.number 4 Layout.lengthOffset)
  let checksum ← Outcome.ofFaulty (rest.number 4 Layout.checksumOffset)
  let size ← Outcome.ofFaulty (Word.encodedSize length)
  if rest.length < size then throw (.failed .unexpectedEnd)
  let blob ← Outcome.ofFaulty (rest.slice Layout.blobOffset (Layout.blobOffset + length))
  if (Checksum.crc32 blob).toNat ≠ checksum then throw (.failed .checksumMismatch)
  return blob

/-- What stands in the record at the front of `rest`. An encoded record is only read if there is a
client to decode it. -/
def readBody (v : Vocabulary C) (hasClient : Bool) (location : Location) (rest : Extent) :
    Outcome DecodeError FrameBody :=
  if rest.length < Layout.headerSize then .error (.failed .unexpectedEnd)
  else
    match rest.read 0 1 with
    | [] => .error (.failed .unexpectedEnd)
    | tag :: _ =>
      match v.kind? tag with
      | none => .error (.failed (.unknownTag tag))
      | some kind =>
        if kind.isInline then (readInline location kind.recordSize rest).map .inline
        else if hasClient then (readBlob rest).map (.encoded tag)
        else .error (.failed .missingReadingClient)

/-- The record at the front of `rest`. -/
def read (v : Vocabulary C) (hasClient : Bool) (location : Location) (rest : Extent) :
    Outcome DecodeError Frame :=
  (readBody v hasClient location rest).map fun body => ⟨location, body⟩

/-- The frames of what is left of a segment from `offset` on, and what stops the reading, if
anything does. -/
def split (v : Vocabulary C) (hasClient : Bool) (segment : SegmentId) (offset : Nat)
    (rest : Extent) : List Frame × Option (Halt DecodeError) :=
  if rest.length = 0 then ([], none)
  else
    match read v hasClient ⟨segment, offset⟩ rest with
    | .error halt => ([], some halt)
    | .ok frame =>
      match Word.add offset frame.size with
      | .error f => ([frame], some (.fault f))
      | .ok next =>
        let (frames, halt) := split v hasClient segment next (rest.drop frame.size)
        (frame :: frames, halt)
termination_by rest.length
decreasing_by
  have := size_pos frame
  rw [Extent.length_drop]
  omega

end Frame

end CommandTape
