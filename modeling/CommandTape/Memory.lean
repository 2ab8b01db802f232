import CommandTape.Memory.Extent

/-!
# Memory

The blocks of memory that segments lie in (`SegmentStorage`). A block is reached through a mapping
(a `MemFd`, if it is shared), and one block may be mapped many times: what is written through one
mapping is read through all. Machines differ in how much memory can be had at once.
-/

namespace CommandTape

/-- What a machine has memory for. However much that is, some page in the half of the address space
that programs have is left for the program itself. -/
structure Machine where
  /-- A tape's own memory takes less than this at once. -/
  heapLimit : Nat
  /-- The operating system maps no more than this at once. -/
  mapLimit : Nat
  heapLimit_le : heapLimit + Layout.pageSize ≤ Layout.memoryLimit
  mapLimit_le : mapLimit + Layout.pageSize ≤ Layout.memoryLimit

namespace Machine

theorem heapLimit_lt (m : Machine) : m.heapLimit < Layout.memoryLimit := by
  have hle := m.heapLimit_le
  unfold Layout.pageSize at hle
  omega

theorem mapLimit_lt (m : Machine) : m.mapLimit < Layout.memoryLimit := by
  have hle := m.mapLimit_le
  unfold Layout.pageSize at hle
  omega

end Machine

/-- The memory of a machine: all blocks, each known by its number. -/
structure Store where
  machine : Machine
  blocks : Array Block

namespace Store

/-- The store without blocks. -/
def empty (machine : Machine) : Store := ⟨machine, #[]⟩

/-- The block with the given number. -/
def get? (s : Store) (n : Nat) : Option Block := s.blocks[n]?

/-- The block with the given number, which has no bytes if there is none. -/
def block (s : Store) (n : Nat) : Block := (s.get? n).getD .empty

/-- The number that the next block gets. -/
def next (s : Store) : Nat := s.blocks.size

/-- Adds a block, under the next number. -/
def add (s : Store) (b : Block) : Store := { s with blocks := s.blocks.push b }

/-- The size of a block. -/
def size (s : Store) (n : Nat) : Nat := (s.block n).size

/-- The `count` bytes of a block from `offset` on. -/
def read (s : Store) (n offset count : Nat) : Bytes := (s.block n).read offset count

/-- Puts bytes into a block. -/
def write (s : Store) (n offset : Nat) (bs : Bytes) : Store :=
  { s with blocks := s.blocks.modify n fun b => b.write offset bs }

theorem size_lt (s : Store) (n : Nat) : s.size n < Layout.memoryLimit := (s.block n).size_lt

theorem get?_add_next (s : Store) (b : Block) : (s.add b).get? s.next = some b := by
  simp [get?, add, next]

theorem get?_add_of_lt (s : Store) (b : Block) {n : Nat} (h : n < s.next) :
    (s.add b).get? n = s.get? n := by
  simp [get?, add, Array.getElem?_push_lt (show n < s.blocks.size from h),
    Array.getElem?_eq_getElem (show n < s.blocks.size from h)]

theorem get?_write_self (s : Store) (n offset : Nat) (bs : Bytes) :
    (s.write n offset bs).get? n = (s.get? n).map fun b => b.write offset bs := by
  simp [get?, write, Array.getElem?_modify]

theorem get?_write_of_ne (s : Store) {n m : Nat} (offset : Nat) (bs : Bytes) (h : n ≠ m) :
    (s.write n offset bs).get? m = s.get? m := by
  simp [get?, write, Array.getElem?_modify, h]

theorem size_write (s : Store) (n offset : Nat) (bs : Bytes) (m : Nat) :
    (s.write n offset bs).size m = s.size m := by
  by_cases h : n = m
  · subst h
    simp only [size, block, get?_write_self]
    cases s.get? n <;> simp
  · simp only [size, block, get?_write_of_ne s offset bs h]

end Store

/-- What a program holds to share memory with another: a name for something that is open. -/
inductive Descriptor where
  /-- A block of shared memory. -/
  | memory (block : Nat)
  /-- Memory that may only be written to. -/
  | writeOnly
  /-- A stream, which has no length. -/
  | stream
  /-- Nothing that is open. -/
  | closed
deriving DecidableEq, Repr

/-- A block as it is mapped. -/
structure Mapping where
  /-- The number of the block. -/
  block : Nat
  /-- The size of the block. -/
  length : Nat
  /-- Where the mapping starts. -/
  address : Nat
  /-- The name under which the block can be shared. -/
  descriptor : Option Descriptor
  /-- Whether the mapping may be written to. -/
  writable : Bool
  length_lt : length < Layout.memoryLimit

namespace Mapping

/-- The `count` bytes from `offset` on. -/
def read (m : Mapping) (s : Store) (offset count : Nat) : Except Fault Bytes := do
  let stop ← Word.add offset count
  Word.checkRange offset stop m.length
  return s.read m.block offset count

/-- Puts bytes from `offset` on, which a mapping for reading only does not allow. -/
def write (m : Mapping) (s : Store) (offset : Nat) (bs : Bytes) : Except Fault Store :=
  if m.writable then do
    let stop ← Word.add offset bs.length
    Word.checkRange offset stop m.length
    return s.write m.block offset bs
  else .error .readOnly

/-- Whether the mapping starts at a multiple of eight. -/
def isAligned (m : Mapping) : Bool := m.address % Layout.alignment = 0

end Mapping

end CommandTape
