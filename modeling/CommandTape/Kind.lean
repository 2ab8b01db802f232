import CommandTape.Bytes
import CommandTape.Layout

/-!
# Kinds of items, and items

An item is a command that can be recorded. Its kind is the type that implements `Item`, and says how
it is tagged and how much memory it takes. An item itself is what lies in that memory, its *image*,
and the bytes that the image refers to and that lie elsewhere, which are *owned* by it.
-/

namespace CommandTape

/-- The byte that a record starts with, by which the kind of its item is known. -/
abbrev Tag := UInt8

/-- What all items of one kind have in common. -/
structure Kind where
  /-- The name of the kind in messages. -/
  name : String
  tag : Tag
  /-- Whether items lie in segments as they are; the others are encoded by a client. -/
  isInline : Bool
  /-- The size of an item's image. -/
  size : Nat
  /-- The alignment that an item's image needs. -/
  align : Nat
  /-- Whether something is left to do when an item goes. -/
  needsDrop : Bool
  /-- No image takes half of the address space. -/
  size_lt : size < Layout.memoryLimit := by decide
deriving DecidableEq

namespace Kind

/-- The size of an inline record of this kind. -/
def recordSize (k : Kind) : Nat := Layout.inlineSize k.size

/-- Whether records are aligned well enough for items of this kind. -/
def fits (k : Kind) : Bool := k.align ≤ Layout.alignment

theorem headerSize_le_recordSize (k : Kind) : Layout.headerSize ≤ k.recordSize :=
  Layout.headerSize_le_inlineSize _

theorem size_le_recordSize (k : Kind) : Layout.headerSize + k.size ≤ k.recordSize :=
  Nat.add_le_add_left (Layout.le_roundUp _) _

end Kind

/-- An item of some kind. -/
structure Item where
  kind : Kind
  /-- What lies in the item's memory. -/
  image : Bytes
  /-- What the image refers to. -/
  owned : Bytes
  length_image : image.length = kind.size
  /-- An inline item is its image: what that refers to is known by the address in it. -/
  owned_eq_nil : kind.isInline = true → owned = []
deriving DecidableEq

namespace Item

/-- The item of kind `k` whose image starts at the front of `payload`. -/
def read (k : Kind) (payload owned : Bytes) : Item where
  kind := k
  image := payload.fit k.size
  owned := if k.isInline then [] else owned
  length_image := Bytes.length_fit _ _
  owned_eq_nil h := if_pos h

/-- What destroying the item leaves in the ledger: the item, if its kind asks for it. -/
def remains (item : Item) : List Item :=
  if item.kind.needsDrop then [item] else []

/-- The image of a reference to so many owned bytes: the count, the address, and the count again.
The address means nothing outside of the program and is left out. -/
def reference (count : Nat) : Bytes :=
  LittleEndian.encode 8 count ++ LittleEndian.encode 8 0 ++ LittleEndian.encode 8 count

/-- The number in the `width` bytes of the image from `offset` on. -/
def field (item : Item) (offset width : Nat) : Nat :=
  LittleEndian.decode ((item.image.drop offset).take width)

@[simp] theorem length_reference (count : Nat) : (reference count).length = 24 := by
  simp [reference]

/-- An item is read back from its image, whatever follows it. -/
theorem read_image (item : Item) (rest : Bytes) :
    read item.kind (item.image ++ rest) item.owned = item := by
  obtain ⟨kind, image, owned, h, h'⟩ := item
  simp only [read, mk.injEq, true_and]
  refine ⟨by simp [Bytes.fit, ← h], ?_⟩
  cases hk : kind.isInline with
  | true => simp [h' hk]
  | false => simp

end Item

end CommandTape
