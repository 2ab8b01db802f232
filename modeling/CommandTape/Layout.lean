/-!
# Layout of records

Every record starts at a multiple of eight bytes (`ITEM_ALIGNMENT`) and is filled up to one, so that
the next record starts at one too. A record has a header of eight bytes: the tag of its item, then
zeros. In an inline record the item follows as it lies in memory. In an encoded record follow the
length and the checksum of a blob, four bytes each, and the blob.
-/

namespace CommandTape.Layout

/-- The alignment of records. -/
def alignment : Nat := 8

/-- The size of a record's header. -/
def headerSize : Nat := 8

/-- The size of what stands between the header and the blob of an encoded record. -/
def blobHeaderSize : Nat := 8

/-- Where the length of the blob stands in an encoded record. -/
def lengthOffset : Nat := headerSize

/-- Where the checksum of the blob stands in an encoded record. -/
def checksumOffset : Nat := headerSize + 4

/-- Where the blob stands in an encoded record. -/
def blobOffset : Nat := headerSize + blobHeaderSize

/-- No memory takes half of the address space, which has `2 ^ 64` bytes. -/
def memoryLimit : Nat := 0x8000000000000000

/-- The operating system maps memory in pages of this size. -/
def pageSize : Nat := 4096

/-- Blobs are shorter than this, so that four bytes hold their length. -/
def blobLimit : Nat := 0x100000000

/-- The capacity of the segments that a tape allocates for itself, unless it is told another. -/
def defaultCapacity : Nat := 1024

/-- The least multiple of the alignment that is at least `n`. -/
def roundUp (n : Nat) : Nat := (n + 7) / 8 * 8

/-- The size of an inline record of an item of `size` bytes. -/
def inlineSize (size : Nat) : Nat := headerSize + roundUp size

/-- The size of an encoded record with a blob of `length` bytes. -/
def encodedSize (length : Nat) : Nat := blobOffset + roundUp length

theorem memoryLimit_pos : 0 < memoryLimit := by decide

theorem le_roundUp (n : Nat) : n ≤ roundUp n := by
  unfold roundUp
  omega

theorem roundUp_lt (n : Nat) : roundUp n < n + 8 := by
  unfold roundUp
  omega

theorem roundUp_mod (n : Nat) : roundUp n % 8 = 0 := by
  unfold roundUp
  omega

theorem roundUp_eq_self {n : Nat} (h : n % 8 = 0) : roundUp n = n := by
  unfold roundUp
  omega

/-- A multiple of eight is as large as `n` just if it is as large as `n` rounded up. -/
theorem roundUp_le_iff {n k : Nat} (h : k % 8 = 0) : roundUp n ≤ k ↔ n ≤ k := by
  unfold roundUp
  omega

theorem headerSize_le_inlineSize (size : Nat) : headerSize ≤ inlineSize size :=
  Nat.le_add_right _ _

theorem inlineSize_mod (size : Nat) : inlineSize size % 8 = 0 := by
  have := roundUp_mod size
  unfold inlineSize headerSize
  omega

theorem encodedSize_mod (length : Nat) : encodedSize length % 8 = 0 := by
  have := roundUp_mod length
  unfold encodedSize blobOffset headerSize blobHeaderSize
  omega

end CommandTape.Layout
