import CommandTape.Memory
import CommandTape.Notice
import CommandTape.Slot

/-!
# Clients

A writing client (`ItemBufferWritingClient`) supplies the memory for segments and encodes the items
that do not lie in them. A reading client (`ItemBufferReadingClient`) makes items of what a writing
client encoded. Clients may keep a state of their own, of type `σ`, and touch nothing else: what a
client hands over says what becomes of the rest.
-/

namespace CommandTape

/-- How memory that a client supplies can be shared. -/
inductive Sharing where
  /-- It cannot. -/
  | kept
  /-- Under a name of its own. -/
  | shared
  /-- Under a name that stands for nothing. -/
  | broken
deriving DecidableEq, Repr

/-- Memory for a segment. -/
structure Offer where
  block : Block
  address : Nat := 0
  sharing : Sharing := .kept
  writable : Bool := true
  /-- The identifier of the segment, unless it takes the next one. -/
  id : Option SegmentId := none

/-- What a client answers when it is asked for memory. -/
structure Supply where
  offer : Option Offer
  /-- What the client reports. -/
  notices : List Notice := []
  /-- How many identifiers it takes for other segments before it makes this one. -/
  idsBefore : Nat := 0
  /-- How many it takes afterwards. -/
  idsBehind : Nat := 0

/-- Supplies memory, and encodes items. -/
structure WritingClient (σ : Type) where
  /-- Memory of at least the given size, where the given identifier is the next one. -/
  supply : (minimum : Nat) → (next : SegmentId) → σ → Except Fault Supply × σ
  /-- The blob for an item; none drops the item. -/
  encode : View → σ → Except Fault (Option Bytes) × σ

/-- What a reading client does about a blob: what it does to the slot, in order, and how it ends. -/
structure Decoding where
  steps : List SlotStep
  ending : Outcome DecodeError Unit

namespace Decoding

/-- Puts one item into the slot. -/
def ofItem (item : Item) : Decoding := ⟨[.emplace item], .ok ()⟩

/-- Rejects the blob, and leaves the slot as it is. -/
def failed (reason : DecodeError) : Decoding := ⟨[], .error (.failed reason)⟩

/-- The client works with the slot that it is lent, and puts no other in its place. -/
def KeepsSlot (d : Decoding) : Prop := ∀ step ∈ d.steps, step.keepsSlot = true

instance (d : Decoding) : Decidable d.KeepsSlot :=
  inferInstanceAs (Decidable (∀ step ∈ d.steps, step.keepsSlot = true))

/-- The location that the item shows which the decoding leaves, if the slot was lent for a record
at a location. -/
def shownAt (d : Decoding) (location : Location) : Location :=
  d.steps.foldl SlotStep.shownAt location

/-- Carries the decoding out on a slot. -/
def runOn (d : Decoding) (slot : Slot) : Outcome DecodeError Unit × Slot × List Item :=
  match slot.run d.steps with
  | (.error f, slot, gone) => (.error (.fault f), slot, gone)
  | (.ok (), slot, gone) => (d.ending, slot, gone)

end Decoding

/-- Makes items of blobs. -/
structure ReadingClient (σ : Type) where
  /-- Decodes a blob that was recorded with a tag, at a location. -/
  decode : (blob : Bytes) → Tag → Location → σ → Decoding × σ

/-- The client never puts another slot in the place of the one that it is lent. -/
def ReadingClient.KeepsSlot {σ : Type} (client : ReadingClient σ) : Prop :=
  ∀ blob tag location state, (client.decode blob tag location state).1.KeepsSlot

/-- A reading client that is a function of the blob and its tag. -/
def ReadingClient.ofFunction {σ : Type} (f : Bytes → Tag → Decoding) : ReadingClient σ :=
  ⟨fun blob tag _ state => (f blob tag, state)⟩

end CommandTape
