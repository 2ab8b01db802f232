import CommandTape.Bytes

/-!
# Sparse memory

Memory that is large and mostly untouched. Where one byte fills a region it is kept once, and what
was written to is kept in pages, which a binary tree of regions leads to. Reading and writing are
those of the whole memory, byte by byte (`Pages.read_eq`, `Pages.toList_write`).
-/

namespace CommandTape

/-- The count of bytes in a page. -/
def pageSize : Nat := 64

/-- Memory of `2 ^ height` pages. -/
inductive Pages : (height : Nat) → Type where
  /-- One byte all over. -/
  | filled {height : Nat} (byte : UInt8) : Pages height
  /-- A page, byte by byte. -/
  | page (bytes : Bytes) (length_eq : bytes.length = pageSize) : Pages 0
  /-- Two halves, the one with the lower addresses first. -/
  | halves {height : Nat} (low high : Pages height) : Pages (height + 1)

namespace Pages

/-- The count of bytes in `2 ^ height` pages. -/
def span (height : Nat) : Nat := pageSize <<< height

theorem span_succ (height : Nat) : span (height + 1) = span height + span height := by
  rw [span, span, Nat.shiftLeft_succ]
  omega

/-- A height at which memory has room for `size` bytes. -/
def heightFor (size : Nat) : Nat := (size / pageSize).log2 + 1

theorem le_span_heightFor (size : Nat) : size ≤ span (heightFor size) := by
  have h : size / pageSize < 2 ^ heightFor size := Nat.lt_log2_self
  have := Nat.div_add_mod size pageSize
  have := Nat.mod_lt size (show 0 < pageSize by decide)
  have : pageSize * (size / pageSize + 1) ≤ span (heightFor size) := by
    rw [span, Nat.shiftLeft_eq]
    exact Nat.mul_le_mul_left _ h
  simp only [Nat.mul_add, Nat.mul_one] at this
  omega

/-- All bytes of the memory. -/
def toList : {height : Nat} → Pages height → Bytes
  | height, filled byte => List.replicate (span height) byte
  | _, page bytes _ => bytes
  | _, halves low high => low.toList ++ high.toList

@[simp] theorem length_toList {height : Nat} (p : Pages height) :
    p.toList.length = span height := by
  induction p with
  | filled byte => simp [toList]
  | page bytes length_eq => exact length_eq
  | halves low high ihlow ihhigh => simp [toList, ihlow, ihhigh, span_succ]

/-! ## Reading -/

/-- The `count` bytes from `offset` on, as far as the memory reaches. Only the regions that they
lie in are visited. -/
def read : {height : Nat} → Pages height → (offset count : Nat) → Bytes
  | height, filled byte, offset, count =>
    List.replicate (min count (span height - offset)) byte
  | _, page bytes _, offset, count => (bytes.drop offset).take count
  | _, @halves height low high, offset, count =>
    let half := span height
    if half ≤ offset then high.read (offset - half) count
    else if offset + count ≤ half then low.read offset count
    else low.read offset (half - offset) ++ high.read 0 (offset + count - half)

/-- Reading takes the bytes out of the whole memory. -/
theorem read_eq {height : Nat} (p : Pages height) (offset count : Nat) :
    p.read offset count = (p.toList.drop offset).take count := by
  induction p generalizing offset count with
  | filled byte => simp [read, toList]
  | page bytes length_eq => rfl
  | @halves height low high ihlow ihhigh =>
    simp only [read, toList, List.drop_append, List.take_append, List.length_drop, length_toList,
      ihlow, ihhigh]
    split
    · rename_i h
      have hcount : count - (span height - offset) = count := by omega
      simp [List.drop_of_length_le (show low.toList.length ≤ offset by simpa using h), hcount]
    · split
      · rename_i h h'
        have hcount : count - (span height - offset) = 0 := by omega
        simp [hcount]
      · rename_i h h'
        have hskip : offset - span height = 0 := by omega
        have hcount : offset + count - span height = count - (span height - offset) := by omega
        rw [List.take_of_length_le (show (low.toList.drop offset).length ≤ count by simp; omega),
          List.take_of_length_le
            (show (low.toList.drop offset).length ≤ span height - offset by simp), hskip, hcount]

/-! ## Writing -/

/-- The two halves. -/
def split {height : Nat} : Pages (height + 1) → Pages height × Pages height
  | filled byte => (filled byte, filled byte)
  | halves low high => (low, high)

theorem toList_split {height : Nat} (p : Pages (height + 1)) :
    p.split.1.toList ++ p.split.2.toList = p.toList := by
  cases p with
  | filled byte => simp [split, toList, span_succ]
  | halves low high => rfl

/-- Puts bytes in the place of those from `offset` on. -/
def write : {height : Nat} → Pages height → (offset : Nat) → (bs : Bytes) →
    offset + bs.length ≤ span height → Pages height
  | 0, p, offset, bs, fits =>
    page (p.toList.overwrite offset bs)
      (by rw [Bytes.length_overwrite (by simpa using fits), length_toList]; rfl)
  | height + 1, p, offset, bs, fits =>
    let half := span height
    let (low, high) := p.split
    if below : offset + bs.length ≤ half then halves (low.write offset bs below) high
    else if above : half ≤ offset then
      halves low (high.write (offset - half) bs (by rw [span_succ] at fits; omega))
    else
      halves
        (low.write offset (bs.take (half - offset)) (by rw [List.length_take]; omega))
        (high.write 0 (bs.drop (half - offset))
          (by rw [span_succ] at fits; rw [List.length_drop]; omega))

/-- Writing changes the bytes in its place and no others. -/
theorem toList_write {height : Nat} (p : Pages height) (offset : Nat) (bs : Bytes)
    (fits : offset + bs.length ≤ span height) :
    (p.write offset bs fits).toList = p.toList.overwrite offset bs := by
  induction height generalizing offset bs with
  | zero => simp [write, toList]
  | succ height ih =>
    rw [← toList_split p]
    simp only [write]
    split
    · rename_i below
      simp only [toList, ih]
      rw [Bytes.overwrite_append_left (by simpa using below)]
    · split
      · rename_i above
        simp only [toList, ih]
        rw [Bytes.overwrite_append_right (by simpa using above), length_toList]
      · simp only [toList, ih]
        rw [Bytes.overwrite_append (by simp; omega) (by simp; omega), length_toList]

end Pages

end CommandTape
