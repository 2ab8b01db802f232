import CommandTape.Checksum
import CommandTape.Kind

/-!
# Records

The bytes of an item's record. Each item and each blob has exactly one record.
-/

namespace CommandTape.Record

/-- The header: the tag, then zeros. -/
def header (tag : Tag) : Bytes := tag :: List.replicate 7 0

/-- The zeros behind `length` bytes. -/
def padding (length : Nat) : Bytes := List.replicate (Layout.roundUp length - length) 0

/-- The record of an item that lies in it. -/
def inline (item : Item) : Bytes :=
  header item.kind.tag ++ item.image ++ padding item.image.length

/-- The record of a blob. -/
def encoded (tag : Tag) (blob : Bytes) : Bytes :=
  header tag ++ LittleEndian.encode 4 blob.length ++
    LittleEndian.encode 4 (Checksum.crc32 blob).toNat ++ blob ++ padding blob.length

@[simp] theorem length_header (tag : Tag) : (header tag).length = 8 := by
  simp [header]

theorem length_padding (length : Nat) :
    length + (padding length).length = Layout.roundUp length := by
  have := Layout.le_roundUp length
  simp only [padding, List.length_replicate]
  omega

theorem length_inline (item : Item) : (inline item).length = item.kind.recordSize := by
  have := length_padding item.image.length
  simp only [inline, List.length_append, length_header, Kind.recordSize, Layout.inlineSize,
    Layout.headerSize, ← item.length_image]
  omega

theorem length_encoded (tag : Tag) (blob : Bytes) :
    (encoded tag blob).length = Layout.encodedSize blob.length := by
  have := length_padding blob.length
  simp only [encoded, List.length_append, length_header, LittleEndian.length_encode,
    Layout.encodedSize, Layout.blobOffset, Layout.headerSize, Layout.blobHeaderSize]
  omega

end CommandTape.Record
