import CommandTape.Memory.Block
import CommandTape.Word

/-!
# Extents

An extent is a run of consecutive bytes of a block. It is looked at without being copied: its bytes
`Extent.toList` say what is read from it (`Extent.slice_eq`), but only the bytes that are read are
ever listed.
-/

namespace CommandTape

/-- Consecutive bytes of a block. -/
structure Extent where
  block : Block
  start : Nat
  length : Nat
  stop_le : start + length ≤ block.size

namespace Extent

/-- The first `length` bytes of a block, or all if it has less. -/
def ofBlock (b : Block) (length : Nat) : Extent := ⟨b, 0, min length b.size, by omega⟩

/-- All bytes of the extent. -/
def toList (e : Extent) : Bytes := e.block.read e.start e.length

@[simp] theorem length_toList (e : Extent) : e.toList.length = e.length := by
  have := e.stop_le
  rw [toList, Block.read_eq, List.length_take, List.length_drop, Block.length_toList]
  omega

@[simp] theorem toList_ofBlock (b : Block) (length : Nat) :
    (ofBlock b length).toList = b.toList.take length := by
  rw [toList, ofBlock, Block.read_eq, List.drop_zero, ← List.take_take,
    List.take_of_length_le (show b.toList.length ≤ b.size by simp)]

/-- The extent's first `n` bytes. -/
def take (e : Extent) (n : Nat) : Extent :=
  ⟨e.block, e.start, min n e.length, by have := e.stop_le; omega⟩

@[simp] theorem toList_take (e : Extent) (n : Nat) : (e.take n).toList = e.toList.take n := by
  rw [toList, toList, take, Block.read_eq, Block.read_eq, List.take_take]

/-- What is left of the extent without its first `n` bytes. -/
def drop (e : Extent) (n : Nat) : Extent :=
  ⟨e.block, e.start + min n e.length, e.length - n, by have := e.stop_le; omega⟩

@[simp] theorem length_drop (e : Extent) (n : Nat) : (e.drop n).length = e.length - n := rfl

@[simp] theorem toList_drop (e : Extent) (n : Nat) : (e.drop n).toList = e.toList.drop n := by
  simp only [toList, drop, Block.read_eq, List.drop_take, List.drop_drop]
  by_cases h : n ≤ e.length
  · rw [Nat.min_eq_left h]
  · have hzero : e.length - n = 0 := by omega
    simp [hzero]

/-- The `count` bytes from `offset` on, as far as the extent reaches. -/
def read (e : Extent) (offset count : Nat) : Bytes :=
  e.block.read (e.start + offset) (min count (e.length - offset))

theorem read_eq (e : Extent) (offset count : Nat) :
    e.read offset count = (e.toList.drop offset).take count := by
  rw [read, toList, Block.read_eq, Block.read_eq, List.drop_take, List.drop_drop, List.take_take]

/-- The bytes from `start` up to before `stop`. -/
def slice (e : Extent) (start stop : Nat) : Except Fault Bytes := do
  Word.checkRange start stop e.length
  return e.read start (stop - start)

theorem slice_eq (e : Extent) (start stop : Nat) :
    e.slice start stop = Word.slice e.toList start stop := by
  simp only [slice, Word.slice, length_toList, read_eq]

/-- The number that the `width` bytes from `start` on spell. -/
def number (width : Nat) (e : Extent) (start : Nat) : Except Fault Nat := do
  return LittleEndian.decode (← e.slice start (start + width))

theorem number_eq (width : Nat) (e : Extent) (start : Nat) :
    e.number width start = Word.read width e.toList start := by
  simp only [number, Word.read, slice_eq]

end Extent

end CommandTape
