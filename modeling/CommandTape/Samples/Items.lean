import CommandTape.Canvas

/-!
# Sample items

A collection of kinds of items of every shape: with and without a size, inline and encoded, with and
without something left to do when they go, too strictly aligned, and several under one tag. Each
kind says how its items are shown, and what is said when one of them goes.
-/

namespace CommandTape

/-- A kind, and what is said about its items. -/
structure Sample where
  kind : Kind
  /-- The item as it is shown. -/
  render : Item → String
  /-- What is said when an item goes. -/
  farewell : Item → Option String := fun _ => none

namespace Sample

/-- What the names of the kinds start with. -/
def scope : String := "driver::items::"

/-- The number of 32 bits in an image, as eight hexadecimal digits. -/
def wordAt (item : Item) (offset : Nat) : String := Hexadecimal.ofWord (item.field offset 4)

/-- The first and the last byte of an image. -/
def ends (item : Item) : String :=
  s!"{(item.image.headD 0).toNat} {(item.image.getLastD 0).toNat}"

/-! ## Kinds and items -/

/-- An item without contents. -/
def saveKind : Kind :=
  { name := scope ++ "Save", tag := 1, isInline := true, size := 0, align := 1,
    needsDrop := false, size_lt := Layout.memoryLimit_pos }

/-- A move by two numbers. -/
def moveKind : Kind :=
  { name := scope ++ "Translate", tag := 2, isInline := true, size := 8, align := 4,
    needsDrop := false }

/-- A rectangle. -/
def fillRectKind : Kind :=
  { name := scope ++ "FillRect", tag := 3, isInline := true, size := 16, align := 4,
    needsDrop := false, size_lt := Canvas.fillRectKind.size_lt }

/-- A text, which is encoded. -/
def textKind : Kind :=
  { name := scope ++ "Text", tag := 4, isInline := false, size := 24, align := 8,
    needsDrop := true }

/-- An inline item whose end is announced. -/
def trackedKind : Kind :=
  { name := scope ++ "Tracked", tag := 5, isInline := true, size := 8, align := 8,
    needsDrop := true }

/-- An encoded item whose end is announced. -/
def trackedTextKind : Kind :=
  { name := scope ++ "TrackedText", tag := 6, isInline := false, size := 32, align := 8,
    needsDrop := true, size_lt := Canvas.drawTextKind.size_lt }

/-- A single byte. -/
def byteKind : Kind :=
  { name := scope ++ "Byte", tag := 7, isInline := true, size := 1, align := 1, needsDrop := false }

/-- Twelve bytes. -/
def bytes12Kind : Kind :=
  { name := scope ++ "Bytes12", tag := 0, isInline := true, size := 12, align := 1,
    needsDrop := false }

/-- A number and sixteen bytes, whose end is announced. -/
def trackedBytesKind : Kind :=
  { name := scope ++ "TrackedBytes", tag := 8, isInline := true, size := 20, align := 4,
    needsDrop := true }

/-- An item as large as a segment usually is, so that its record is larger. -/
def bigKind : Kind :=
  { name := scope ++ "Big", tag := 255, isInline := true, size := 1024, align := 1,
    needsDrop := false }

/-- An item larger than a segment usually is. -/
def hugeKind : Kind :=
  { name := scope ++ "Huge", tag := 254, isInline := true, size := 4096, align := 1,
    needsDrop := false }

/-- An item whose record is exactly as large as a segment usually is. -/
def exactKind : Kind :=
  { name := scope ++ "Exact", tag := 253, isInline := true, size := 1016, align := 1,
    needsDrop := false }

/-- An item that records cannot hold. -/
def overAlignedKind : Kind :=
  { name := scope ++ "OverAligned", tag := 9, isInline := true, size := 16, align := 16,
    needsDrop := false, size_lt := Canvas.fillRectKind.size_lt }

/-- A byte under the tag of the moves. -/
def impostorKind : Kind :=
  { name := scope ++ "Impostor", tag := 2, isInline := true, size := 1, align := 1,
    needsDrop := false }

/-- Sixteen bytes under the tag of the moves. -/
def wideImpostorKind : Kind :=
  { name := scope ++ "WideImpostor", tag := 2, isInline := true, size := 16, align := 1,
    needsDrop := false, size_lt := Canvas.fillRectKind.size_lt }

/-- An encoded item that no encoder knows, whose end is announced. -/
def opaqueKind : Kind :=
  { name := scope ++ "Opaque", tag := 10, isInline := false, size := 8, align := 8,
    needsDrop := true }

/-- Bytes, which are encoded as they are. -/
def blobKind : Kind :=
  { name := scope ++ "Blob", tag := 11, isInline := false, size := 24, align := 8,
    needsDrop := true }

/-- An item without contents whose end is announced. -/
def markerKind : Kind :=
  { name := scope ++ "Marker", tag := 12, isInline := true, size := 0, align := 1,
    needsDrop := true, size_lt := Layout.memoryLimit_pos }

/-- An encoded byte under the tag of an inline item. -/
def saveEncodedKind : Kind :=
  { name := scope ++ "SaveEncoded", tag := 1, isInline := false, size := 1, align := 1,
    needsDrop := false }

/-- Eight bytes under the tag of the texts. -/
def textInlineKind : Kind :=
  { name := scope ++ "TextInline", tag := 4, isInline := true, size := 8, align := 1,
    needsDrop := false }

/-- The item whose image is the given bytes, as far as its kind has room for them. -/
def plain (kind : Kind) (image : Bytes) : Item := Item.read kind image []

/-- The item whose image is one byte repeated. -/
def uniform (kind : Kind) (v : UInt8) : Item := plain kind (List.replicate kind.size v)

/-- A text. -/
def text (s : String) : Item :=
  let bytes := Utf8.encode s
  Item.read textKind (Item.reference bytes.length) bytes

/-- A text with a number. -/
def trackedText (id : UInt64) (s : String) : Item :=
  let bytes := Utf8.encode s
  Item.read trackedTextKind (LittleEndian.encode 8 id.toNat ++ Item.reference bytes.length) bytes

/-- Bytes. -/
def blob (bytes : Bytes) : Item := Item.read blobKind (Item.reference bytes.length) bytes

/-! ## All kinds -/

/-- The kinds of this module. -/
def items : List Sample :=
  [{ kind := saveKind, render := fun _ => "save" },
   { kind := moveKind, render := fun i => s!"translate {wordAt i 0} {wordAt i 4}" },
   { kind := fillRectKind
     render := fun i => s!"fill {wordAt i 0} {wordAt i 4} {wordAt i 8} {wordAt i 12}" },
   { kind := textKind, render := fun i => "text " ++ Canvas.ownedText i },
   { kind := trackedKind
     render := fun i => s!"tracked {i.field 0 8}"
     farewell := fun i => some s!"tracked {i.field 0 8}" },
   { kind := trackedTextKind
     render := fun i => s!"tracked_text {i.field 0 8} " ++ Canvas.ownedText i
     farewell := fun i => some s!"tracked_text {i.field 0 8}" },
   { kind := byteKind, render := fun i => s!"byte {i.field 0 1}" },
   { kind := bytes12Kind, render := fun i => "bytes12 " ++ Hexadecimal.ofBytes i.image },
   { kind := trackedBytesKind
     render := fun i =>
       s!"tracked_bytes {i.field 0 4} " ++ Hexadecimal.ofBytes (i.image.drop 4)
     farewell := fun i => some s!"tracked_bytes {i.field 0 4}" },
   { kind := bigKind, render := fun i => "big " ++ ends i },
   { kind := hugeKind, render := fun i => "huge " ++ ends i },
   { kind := exactKind, render := fun i => "exact " ++ ends i },
   { kind := overAlignedKind, render := fun i => s!"over_aligned {i.field 0 1}" },
   { kind := impostorKind, render := fun i => s!"impostor {i.field 0 1}" },
   { kind := wideImpostorKind, render := fun i => "wide_impostor " ++ Hexadecimal.ofBytes i.image },
   { kind := opaqueKind
     render := fun i => s!"opaque {i.field 0 8}"
     farewell := fun i => some s!"opaque {i.field 0 8}" },
   { kind := blobKind
     render := fun i =>
       s!"blob {i.owned.length} " ++ Hexadecimal.ofBytes (i.owned.take 32) },
   { kind := markerKind
     render := fun _ => "marker"
     farewell := fun _ => some "marker" },
   { kind := saveEncodedKind, render := fun i => s!"save_encoded {i.field 0 1}" },
   { kind := textInlineKind, render := fun i => "text_inline " ++ Hexadecimal.ofBytes i.image }]

/-- The drawing commands. -/
def drawing : List Sample :=
  [{ kind := Canvas.saveKind, render := fun _ => "demo.save" },
   { kind := Canvas.restoreKind, render := fun _ => "demo.restore" },
   { kind := Canvas.setFillColorKind
     render := fun i => "demo.color " ++ Hexadecimal.ofBytes i.image },
   { kind := Canvas.fillRectKind
     render := fun i => s!"demo.fill {wordAt i 0} {wordAt i 4} {wordAt i 8} {wordAt i 12}" },
   { kind := Canvas.drawTextKind
     render := fun i => s!"demo.text {wordAt i 24} {wordAt i 28} " ++ Canvas.ownedText i }]

/-- The sample whose kind has the given name. -/
def find? (name : String) : Option Sample :=
  (items ++ drawing).find? fun sample => sample.kind.name == name

/-- What is said when an item of any kind goes. -/
def farewellOf (item : Item) : Option String :=
  (find? item.kind.name).bind fun sample => sample.farewell item

/-! ## Recording what is shown -/

/-- Items of the kind are applied to a journal of texts by adding how they are shown. -/
def entry (sample : Sample) : Entry (Journal String) :=
  ⟨sample.kind, fun item shown => (.ok (), shown.add (sample.render item))⟩

/-- The kinds that share no tag and that records can hold. -/
def coreKinds : List Kind :=
  [saveKind, moveKind, fillRectKind, textKind, trackedKind, trackedTextKind, byteKind,
   bytes12Kind, trackedBytesKind, bigKind, hugeKind, exactKind, blobKind, markerKind]

/-- The vocabulary of those kinds. -/
def coreVocabulary : Vocabulary (Journal String) :=
  ⟨(items.filter fun sample => sample.kind ∈ coreKinds).map entry⟩

end Sample

end CommandTape
