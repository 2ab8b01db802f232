import CommandTape.Fault

/-!
# Sizes in machine words

Sizes and offsets are natural numbers below `2 ^ 64`. A sum that leaves this range is a fault, and
so is a slice that leaves the bytes it is taken from. Sizes are rounded up by `align_up`.
-/

namespace CommandTape.Word

/-- Sizes are below this number. -/
def limit : Nat := 0x10000000000000000

theorem memoryLimit_lt : Layout.memoryLimit < limit := by decide

/-- The sum of two sizes. -/
def add (a b : Nat) : Except Fault Nat :=
  if a + b < limit then .ok (a + b) else .error .overflow

theorem add_of_lt {a b : Nat} (h : a + b < limit) : add a b = .ok (a + b) := if_pos h

theorem add_of_le {a b : Nat} (h : limit ≤ a + b) : add a b = .error .overflow :=
  if_neg (Nat.not_lt.2 h)

/-- All bits of a word but the lowest three. -/
def clearLowBits (n : Nat) : Nat := n &&& (limit - 8)

theorem clearLowBits_eq {n : Nat} (h : n < limit) : clearLowBits n = n / 8 * 8 := by
  have hmask : limit - 8 = (2 ^ 61 - 1) <<< 3 := by decide
  have hn : n / 8 * 8 = (n >>> 3) <<< 3 := by
    rw [Nat.shiftRight_eq_div_pow, Nat.shiftLeft_eq]
  rw [clearLowBits, hmask, hn]
  apply Nat.eq_of_testBit_eq
  intro i
  have hi : 64 ≤ i → n.testBit i = false := fun hi =>
    Nat.testBit_lt_two_pow
      (Nat.lt_of_lt_of_le (show n < 2 ^ 64 from h) (Nat.pow_le_pow_right (by decide) hi))
  simp only [Nat.testBit_and, Nat.testBit_shiftLeft, Nat.testBit_two_pow_sub_one,
    Nat.testBit_shiftRight]
  by_cases h3 : 3 ≤ i
  · by_cases h64 : i - 3 < 61
    · simp [h3, h64, show 3 + (i - 3) = i by omega]
    · simp [h3, h64, show 3 + (i - 3) = i by omega, hi (by omega)]
  · simp [h3]

/-- The least multiple of eight that is at least `n`: eight less one is added, and the lowest
three bits are cleared. -/
def alignUp (n : Nat) : Except Fault Nat := do
  let sum ← add n Layout.alignment
  return clearLowBits (sum - 1)

theorem alignUp_of_lt {n : Nat} (h : n + 8 < limit) : alignUp n = .ok (Layout.roundUp n) := by
  have hsum : add n Layout.alignment = .ok (n + 8) := add_of_lt h
  have hlow : clearLowBits (n + 8 - 1) = (n + 8 - 1) / 8 * 8 := clearLowBits_eq (by omega)
  simp only [alignUp, hsum, bind, Except.bind, pure, Except.pure, hlow]
  rfl

theorem alignUp_of_le {n : Nat} (h : limit ≤ n + 8) : alignUp n = .error .overflow := by
  have hsum : add n Layout.alignment = .error .overflow := add_of_le h
  simp only [alignUp, hsum, bind, Except.bind]

/-- The size of an encoded record with a blob of `length` bytes. -/
def encodedSize (length : Nat) : Except Fault Nat := do
  add Layout.blobOffset (← alignUp length)

theorem encodedSize_of_le {length : Nat} (h : length + 24 ≤ limit) :
    encodedSize length = .ok (Layout.encodedSize length) := by
  have hround : Layout.roundUp length ≤ limit - 24 := (Layout.roundUp_le_iff rfl).2 (by omega)
  simp only [encodedSize, alignUp_of_lt (show length + 8 < limit by omega), bind, Except.bind]
  apply add_of_lt
  unfold limit at *
  unfold Layout.blobOffset Layout.headerSize Layout.blobHeaderSize
  omega

/-- The header takes the size out of the range if rounding up does not. -/
theorem encodedSize_of_limit_lt {length : Nat} (h : limit < length + 24) :
    encodedSize length = .error .overflow := by
  by_cases hlt : length + 8 < limit
  · have hround := Layout.roundUp_le_iff (n := length) (k := limit - 24) rfl
    have hmod := Layout.roundUp_mod length
    simp only [encodedSize, alignUp_of_lt hlt, bind, Except.bind]
    apply add_of_le
    unfold limit at *
    unfold Layout.blobOffset Layout.headerSize Layout.blobHeaderSize
    omega
  · simp only [encodedSize, alignUp_of_le (Nat.le_of_not_lt hlt), bind, Except.bind]

/-- A length of four bytes never makes the size leave the range. -/
theorem encodedSize_of_lt {length : Nat} (h : length < Layout.blobLimit) :
    encodedSize length = .ok (Layout.encodedSize length) := by
  apply encodedSize_of_le
  unfold limit
  unfold Layout.blobLimit at h
  omega

/-- Checks that something of the given length has places from `start` up to before `stop`: first
that the start is not behind its end, then that the stop is not, then their order. -/
def checkRange (start stop length : Nat) : Except Fault Unit :=
  if length < start then .error (.sliceStart start length)
  else if length < stop then .error (.sliceEnd stop length)
  else if stop < start then .error (.sliceOrder start stop)
  else .ok ()

theorem checkRange_eq_ok_iff {start stop length : Nat} :
    checkRange start stop length = .ok () ↔ start ≤ stop ∧ stop ≤ length := by
  unfold checkRange
  split
  · simp only [reduceCtorEq, false_iff]
    omega
  · split
    · simp only [reduceCtorEq, false_iff]
      omega
    · split
      · simp only [reduceCtorEq, false_iff]
        omega
      · simp only [true_iff]
        omega

/-- The bytes from `start` up to before `stop`. -/
def slice (bs : Bytes) (start stop : Nat) : Except Fault Bytes := do
  checkRange start stop bs.length
  return (bs.drop start).take (stop - start)

theorem slice_of_le {bs : Bytes} {start stop : Nat} (h : start ≤ stop) (h' : stop ≤ bs.length) :
    slice bs start stop = .ok ((bs.drop start).take (stop - start)) := by
  simp only [slice, checkRange_eq_ok_iff.2 ⟨h, h'⟩, bind, Except.bind, pure, Except.pure]

/-- The bytes from `start` on. -/
def suffix (bs : Bytes) (start : Nat) : Except Fault Bytes :=
  if bs.length < start then .error (.sliceStart start bs.length) else .ok (bs.drop start)

/-- The number that the `width` bytes from `start` on spell. -/
def read (width : Nat) (bs : Bytes) (start : Nat) : Except Fault Nat := do
  return LittleEndian.decode (← slice bs start (start + width))

end CommandTape.Word
