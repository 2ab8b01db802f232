import CommandTape.Layout
import CommandTape.Memory.Pages

/-!
# Blocks

A block of memory is the front of sparse memory, so it may be large, and costs only what is written
to it. Reading and writing are those of the whole block, `Block.toList` (`Block.read_eq`,
`Block.toList_write`).
-/

namespace CommandTape

/-- A block of memory. -/
structure Block where
  size : Nat
  height : Nat
  /-- The block, and what is behind it. -/
  pages : Pages height
  size_le : size ≤ Pages.span height
  /-- No block takes half of the address space. -/
  size_lt : size < Layout.memoryLimit

namespace Block

/-- A block of one byte repeated. -/
def uniform (size : Nat) (fill : UInt8) (h : size < Layout.memoryLimit) : Block :=
  ⟨size, Pages.heightFor size, .filled fill, Pages.le_span_heightFor size, h⟩

/-- The block without bytes. -/
def empty : Block := uniform 0 0 Layout.memoryLimit_pos

/-- The `count` bytes from `offset` on, as far as the block reaches. -/
def read (b : Block) (offset count : Nat) : Bytes :=
  b.pages.read offset (min count (b.size - offset))

/-- All bytes of the block. -/
def toList (b : Block) : Bytes := b.read 0 b.size

theorem toList_eq_take (b : Block) : b.toList = b.pages.toList.take b.size := by
  simp [toList, read, Pages.read_eq]

@[simp] theorem length_toList (b : Block) : b.toList.length = b.size := by
  have := b.size_le
  rw [toList_eq_take, List.length_take, Pages.length_toList]
  omega

/-- Reading takes the bytes out of the whole block. -/
theorem read_eq (b : Block) (offset count : Nat) :
    b.read offset count = (b.toList.drop offset).take count := by
  rw [read, Pages.read_eq, toList_eq_take, List.drop_take, List.take_take]

/-- Puts bytes in the place of those from `offset` on. What does not lie in the block leaves it as
it is. -/
def write (b : Block) (offset : Nat) (bs : Bytes) : Block :=
  if h : offset + bs.length ≤ b.size then
    { b with pages := b.pages.write offset bs (Nat.le_trans h b.size_le) }
  else b

@[simp] theorem size_write (b : Block) (offset : Nat) (bs : Bytes) :
    (b.write offset bs).size = b.size := by
  unfold write
  split <;> rfl

/-- Writing changes the bytes in its place and no others. -/
theorem toList_write (b : Block) (offset : Nat) (bs : Bytes) (h : offset + bs.length ≤ b.size) :
    (b.write offset bs).toList = b.toList.overwrite offset bs := by
  have hle := b.size_le
  have hlen : (b.pages.toList.take b.size).length = b.size := by
    rw [List.length_take, Pages.length_toList]
    omega
  have hfits : offset + bs.length ≤ (b.pages.toList.take b.size).length := by rw [hlen]; exact h
  have hnew := (Bytes.length_overwrite hfits).trans hlen
  simp only [write, h, ↓reduceDIte, toList_eq_take, Pages.toList_write]
  rw [← List.take_append_drop b.size b.pages.toList, Bytes.overwrite_append_left hfits,
    List.take_append_drop, List.take_append_of_le_length (Nat.le_of_eq hnew.symm),
    List.take_of_length_le (Nat.le_of_eq hnew)]

/-- A block of the given bytes. -/
def ofBytes (bs : Bytes) (h : bs.length < Layout.memoryLimit) : Block :=
  (uniform bs.length 0 h).write 0 bs

end Block

end CommandTape
