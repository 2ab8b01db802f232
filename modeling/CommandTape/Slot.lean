import CommandTape.View

/-!
# Slots

A slot (`ItemSlot`) is scratch memory for one item outside of any segment. Items are put into a
slot to be encoded by a writing client, and by a reading client that decoded them. The slot destroys
its item when another takes its place, when it is reset, and when it goes itself. Its memory only
grows, so what an earlier item left may lie behind the record of a later one. A reading client is
lent the slot, and may put a slot of its own in its place.

An operation returns the items that it destroys, in order.
-/

namespace CommandTape

/-- Scratch memory for one item. -/
structure Slot where
  /-- The memory, with the record at its front. -/
  scratch : Bytes
  /-- The size of the record; zero when there is none. -/
  length : Nat
  /-- What the item refers to. -/
  owned : Bytes
  /-- The kind of the item, if there is one to destroy. -/
  destroys : Option Kind
  /-- The location that views of the item show. -/
  location : Location

namespace Slot

/-- A slot without memory. -/
def empty : Slot := ⟨[], 0, [], none, ⟨⟨0⟩, 0⟩⟩

/-- A slot that nothing was put into. -/
def fresh (location : Location) : Slot := { empty with location := location }

/-- Whether the slot holds no item. -/
def isEmpty (slot : Slot) : Bool := slot.length = 0

/-- The view of the item in the slot. -/
def view? (slot : Slot) : Option View :=
  let record := slot.scratch.take slot.length
  if h : Layout.headerSize ≤ record.length then some ⟨record, slot.owned, slot.location, h⟩
  else none

/-- The tag of the item in the slot. -/
def tag? (slot : Slot) : Option Tag := slot.view?.map View.tag

/-- Destroys the item and keeps the memory. -/
def reset (slot : Slot) : Slot × List Item :=
  let gone := match slot.destroys with
    | some kind => [Item.read kind (slot.scratch.drop Layout.headerSize) slot.owned]
    | none => []
  ({ slot with length := 0, owned := [], destroys := none }, gone)

/-- Puts an item in the place of the one that is there. An item that records cannot hold is
destroyed instead, and the slot keeps what it has. -/
def emplace (slot : Slot) (item : Item) : Except Fault Unit × Slot × List Item :=
  if item.kind.fits then
    let (slot, gone) := slot.reset
    let record := Record.inline item
    let slot := { slot with
      scratch := record ++ slot.scratch.drop record.length
      length := record.length
      owned := item.owned
      destroys := if item.kind.needsDrop then some item.kind else none }
    (.ok (), slot, gone)
  else (.error (.overAligned item.kind.name item.kind.align), slot, item.remains)

end Slot

/-- A slot that a client brings along: a new one, or one that it got hold of before, which shows
locations of its own. -/
structure SpareSlot where
  location : Location
  /-- The item in it, if there is one. -/
  held? : Option Item
  fits : ∀ item ∈ held?, item.kind.fits = true

/-- The slot as it is. Memory behind its record shows nowhere, so it is taken to be new. -/
def SpareSlot.slot (spare : SpareSlot) : Slot :=
  match spare.held? with
  | none => .fresh spare.location
  | some item => ((Slot.fresh spare.location).emplace item).2.1

/-- What a reading client may do to a slot that is lent to it. -/
inductive SlotStep where
  /-- Puts an item in. -/
  | emplace (item : Item)
  /-- Destroys the item. -/
  | reset
  /-- Puts another slot in its place, and keeps the one that was there, with its item. -/
  | swap (spare : SpareSlot)

namespace SlotStep

/-- The step leaves the slot in its place. -/
def keepsSlot : SlotStep → Bool
  | swap _ => false
  | _ => true

/-- The location that views of items show behind a step. -/
def shownAt (location : Location) : SlotStep → Location
  | swap spare => spare.location
  | _ => location

end SlotStep

namespace Slot

/-- Does one step. -/
def step (slot : Slot) : SlotStep → Except Fault Unit × Slot × List Item
  | .emplace item => slot.emplace item
  | .reset =>
    let (slot, gone) := slot.reset
    (.ok (), slot, gone)
  | .swap spare => (.ok (), spare.slot, [])

/-- Does steps in order, up to a fault. -/
def run (slot : Slot) : List SlotStep → Except Fault Unit × Slot × List Item
  | [] => (.ok (), slot, [])
  | next :: rest =>
    match slot.step next with
    | (.error f, slot, gone) => (.error f, slot, gone)
    | (.ok (), slot, gone) =>
      let (outcome, slot, later) := slot.run rest
      (outcome, slot, gone ++ later)

end Slot

end CommandTape
