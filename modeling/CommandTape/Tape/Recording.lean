import CommandTape.Tape

/-!
# Recording

How items get onto a tape (`try_append` and `append`), and how the tape is cleared (`clear`). An
item that does not get onto the tape is destroyed. A tape that no segment can be had for stays as it
was.
-/

namespace CommandTape.Tape

variable {σ : Type}

/-! ## Segments -/

/-- A segment of at least `size` bytes from a writing client. -/
def supplied (client : WritingClient σ) (size : Nat) (s : Session σ) :
    Outcome Failure Segment × Session σ :=
  match client.supply size s.nextId s.clients with
  | (.error f, clients) => (.error (.fault f), { s with clients := clients })
  | (.ok supply, clients) =>
    let s := s.asked supply clients
    match supply.offer with
    | none => (.error (.failed (.clientRefused size)), s.answered supply)
    | some offer =>
      let (segment, s) := s.adopt offer
      let s := s.answered supply
      if segment.capacity < size then
        (.error (.failed (.supplyTooSmall segment.id segment.capacity size)), s)
      else if segment.isAligned then
        (.ok segment, s.note (.supplied segment.id segment.capacity))
      else (.error (.failed (.supplyMisaligned segment.id)), s)

/-- A segment of `capacity` bytes in the tape's own memory. -/
def allocated (capacity : Nat) (s : Session σ) : Outcome Failure Segment × Session σ :=
  match s.allocate capacity with
  | (.error h, s) => (.error h, s)
  | (.ok segment, s) => (.ok segment, s.note (.allocated segment.id capacity))

/-- A segment of at least `minimum` bytes, from the writing client if there is one. -/
def createSegment (tape : Tape σ) (minimum : Nat) (s : Session σ) :
    Outcome Failure Segment × Session σ :=
  match Word.alignUp minimum with
  | .error f => (.error (.fault f), s)
  | .ok size =>
    match tape.writer with
    | some client => supplied client size s
    | none => allocated (max size tape.segmentCapacity) s

/-- Makes a segment the one to write to. The one before it is kept if something was written to
it. -/
def install (tape : Tape σ) (segment : Segment) (s : Session σ) :
    Except Fault Unit × Tape σ × Session σ :=
  let next := { tape with writable := some segment, written := 0 }
  match tape.writable with
  | none => (.ok (), next, s)
  | some previous =>
    if tape.written = 0 then (.ok (), next, s)
    else
      let s := s.note (.freezing previous.id tape.written previous.capacity)
      match previous.truncate tape.written with
      | .error f => (.error f, { tape with writable := none }, s)
      | .ok previous => (.ok (), { next with frozen := tape.frozen ++ [previous] }, s)

/-- Whether the segment that is written to has room for `size` more bytes. -/
def hasRoom (tape : Tape σ) (size : Nat) : Except Fault Bool :=
  match tape.writable with
  | none => .ok false
  | some segment =>
    match Word.add tape.written size with
    | .error f => .error f
    | .ok stop => .ok (stop ≤ segment.capacity)

/-- Sees to it that there is a segment with room for `size` more bytes. -/
def makeRoom (tape : Tape σ) (size : Nat) (s : Session σ) :
    Outcome Failure Unit × Tape σ × Session σ :=
  match tape.hasRoom size with
  | .error f => (.error (.fault f), tape, s)
  | .ok true => (.ok (), tape, s)
  | .ok false =>
    match tape.createSegment size s with
    | (.error h, s) => (.error h, tape, s)
    | (.ok segment, s) =>
      let (outcome, tape, s) := tape.install segment s
      (.ofFaulty outcome, tape, s)

/-- A place for a record. -/
structure Place where
  segment : Segment
  start : Nat
  stop : Nat

/-- The place's location. -/
def Place.location (p : Place) : Location := ⟨p.segment.id, p.start⟩

/-- The place that the next `size` bytes go to, in a segment that may be written to. -/
def nextPlace (tape : Tape σ) (size : Nat) : Except Fault Place :=
  match tape.writable with
  | none => .error .noWritableSegment
  | some segment =>
    if segment.mapping.writable then
      match Word.add tape.written size with
      | .error f => .error f
      | .ok stop =>
        match Word.checkRange tape.written stop segment.capacity with
        | .error f => .error f
        | .ok () => .ok ⟨segment, tape.written, stop⟩
    else .error .readOnly

/-- A place for `size` bytes behind what was written. -/
def reserve (tape : Tape σ) (size : Nat) (s : Session σ) :
    Outcome Failure Place × Tape σ × Session σ :=
  match tape.makeRoom size s with
  | (.error h, tape, s) => (.error h, tape, s)
  | (.ok (), tape, s) => (.ofFaulty (tape.nextPlace size), tape, s)

/-- Writes a record to its place. -/
def fill (s : Session σ) (p : Place) (record : Bytes) : Session σ :=
  { s with store := s.store.write p.segment.mapping.block p.start record }

/-! ## Items -/

/-- Whether a record may be constructed at a place. -/
def Place.isAligned (p : Place) : Bool :=
  (p.segment.mapping.address + p.start) % Layout.alignment = 0

/-- Writes the record of an inline item. -/
def storeInline (tape : Tape σ) (item : Item) (s : Session σ) :
    Outcome Failure Unit × Tape σ × Session σ :=
  match tape.reserve item.kind.recordSize s with
  | (.error h, tape, s) => (.error h, tape, s)
  | (.ok p, tape, s) =>
    if p.isAligned then
      let pending :=
        if item.kind.needsDrop then
          tape.pending.add ⟨p.location, tape.frozen.length, item.kind⟩
        else tape.pending
      (.ok (), { tape with pending := pending, written := p.stop }, fill s p (Record.inline item))
    else (.error (.fault .recordMisaligned), tape, s)

/-- Writes the record of a blob. -/
def storeBlob (tape : Tape σ) (tag : Tag) (blob : Bytes) (s : Session σ) :
    Outcome Failure Unit × Tape σ × Session σ :=
  if blob.length < Layout.blobLimit then
    match Word.encodedSize blob.length with
    | .error f => (.error (.fault f), tape, s)
    | .ok size =>
      match tape.reserve size s with
      | (.error h, tape, s) => (.error h, tape, s)
      | (.ok p, tape, s) =>
        (.ok (), { tape with written := p.stop }, fill s p (Record.encoded tag blob))
  else (.error (.failed (.blobTooLong blob.length)), tape, s)

/-- The blob that a writing client makes of an item. The item is put into a slot for that, and is
destroyed when the client is done. -/
def encode (client : WritingClient σ) (item : Item) (s : Session σ) :
    Except Fault (Option Bytes) × Session σ :=
  match Slot.empty.emplace item with
  | (.error f, slot, gone) => (.error f, s.destroy (gone ++ slot.reset.2))
  | (.ok (), slot, gone) =>
    let (outcome, clients) := match slot.view? with
      | some view => client.encode view s.clients
      | none => (.ok none, s.clients)
    (outcome, { s with clients := clients }.destroy (gone ++ slot.reset.2))

/-- Records an item through a writing client. An item that the client has no blob for is dropped. -/
def storeEncoded (tape : Tape σ) (client : WritingClient σ) (item : Item) (s : Session σ) :
    Outcome Failure Unit × Tape σ × Session σ :=
  match encode client item s with
  | (.error f, s) => (.error (.fault f), tape, s)
  | (.ok none, s) => (.ok (), tape, s.note (.notEncoded item.kind.name))
  | (.ok (some blob), s) => tape.storeBlob item.kind.tag blob s

/-- Records an item. -/
def tryAppend (tape : Tape σ) (item : Item) (s : Session σ) :
    Outcome Failure Unit × Tape σ × Session σ :=
  if item.kind.fits then
    if item.kind.isInline then
      match tape.storeInline item s with
      | (.error h, tape, s) => (.error h, tape, s.destroy item.remains)
      | (.ok (), tape, s) => (.ok (), tape, s)
    else
      match tape.writer with
      | none => (.error (.failed (.clientNeeded item.kind.name)), tape, s.destroy item.remains)
      | some client => tape.storeEncoded client item s
  else
    (.error (.fault (.overAligned item.kind.name item.kind.align)), tape, s.destroy item.remains)

/-- Records an item, where it is a fault if that fails. -/
def append (tape : Tape σ) (item : Item) (s : Session σ) :
    Except Fault Unit × Tape σ × Session σ :=
  match tape.tryAppend item s with
  | (.ok (), tape, s) => (.ok (), tape, s)
  | (.error (.failed reason), tape, s) => (.error (.appendFailed item.kind.name reason), tape, s)
  | (.error (.fault f), tape, s) => (.error f, tape, s)

/-- Records items in order, up to a fault. -/
def appendAll (tape : Tape σ) (items : List Item) (s : Session σ) :
    Except Fault Unit × Tape σ × Session σ :=
  match items with
  | [] => (.ok (), tape, s)
  | item :: rest =>
    match tape.append item s with
    | (.error f, tape, s) => (.error f, tape, s)
    | (.ok (), tape, s) => tape.appendAll rest s

/-! ## Clearing -/

/-- The segment that holds a recorded item. -/
def holder? (tape : Tape σ) (p : Pending) : Option Segment :=
  if p.segmentIndex < tape.frozen.length then tape.frozen[p.segmentIndex]?
  else if p.segmentIndex = tape.frozen.length then tape.writable
  else none

/-- Destroys a recorded item where it lies. -/
def destroyPending (tape : Tape σ) (p : Pending) (s : Session σ) : Except Fault Unit × Session σ :=
  match tape.holder? p with
  | none => (.ok (), s.note (.segmentLost p.segmentIndex p.location))
  | some segment =>
    if segment.mapping.writable then
      let image := s.store.read segment.mapping.block (p.location.offset + Layout.headerSize)
        p.kind.size
      (.ok (), s.destroy [Item.read p.kind image []])
    else (.error .readOnly, s)

/-- Destroys recorded items in order, up to a fault. -/
def destroyAll (tape : Tape σ) : List Pending → Session σ → Except Fault Unit × Session σ
  | [], s => (.ok (), s)
  | p :: rest, s =>
    match tape.destroyPending p s with
    | (.error f, s) => (.error f, s)
    | (.ok (), s) => tape.destroyAll rest s

/-- Destroys every recorded item that asks for it, and lets go of all segments. -/
def clear (tape : Tape σ) (s : Session σ) : Except Fault Unit × Tape σ × Session σ :=
  let s := if tape.pending.isEmpty then s else s.note (.destroying tape.pending.length)
  match tape.destroyAll tape.pending.toList s with
  | (.error f, s) => (.error f, { tape with pending := .empty }, s)
  | (.ok (), s) =>
    (.ok (), { tape with pending := .empty, frozen := [], writable := none, written := 0 }, s)

end CommandTape.Tape
