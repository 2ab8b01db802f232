import CommandTape.Checksum
import Mathlib.Logic.Function.Basic

/-!
# What the checksum catches

A shift of the register is linear in exclusive or (`Checksum.shift_xor`) and loses nothing
(`Checksum.shift_injective`), so registers that differ still differ after any message
(`Checksum.run_injective`). Four bytes are as many as the register has room for, and it takes each
four in as others of its own (`Checksum.run_ne_of_fits`). So the checksums of bytes that differ only
within four in a row are different (`Checksum.crc32_ne_of_burst`).
-/

namespace CommandTape

namespace Checksum

/-! ## Shifting -/

/-- What is added in a shift: the generator, if the bit that falls out is set. -/
def feedback (register : UInt32) : UInt32 :=
  if register.toBitVec.msb then generator else 0

theorem shift_eq (r : UInt32) : shift r = r <<< 1 ^^^ feedback r := by
  have hmsb : r.toBitVec.msb = decide (0x80000000 ≤ r.toNat) := BitVec.msb_eq_decide r.toBitVec
  by_cases h : r < 0x80000000
  · have hlow : ¬0x80000000 ≤ r.toNat := Nat.not_le.2 h
    rw [shift, if_pos h, feedback, hmsb, if_neg (by simpa using hlow), UInt32.xor_zero]
  · have hhigh : 0x80000000 ≤ r.toNat := Nat.le_of_not_lt h
    rw [shift, if_neg h, feedback, hmsb, if_pos (by simpa using hhigh)]

theorem feedback_xor (a b : UInt32) : feedback (a ^^^ b) = feedback a ^^^ feedback b := by
  have hmsb : (a ^^^ b).toBitVec.msb = (a.toBitVec.msb ^^ b.toBitVec.msb) := BitVec.msb_xor
  rw [feedback, hmsb, feedback, feedback]
  cases a.toBitVec.msb <;> cases b.toBitVec.msb <;> rfl

theorem shift_xor (a b : UInt32) : shift (a ^^^ b) = shift a ^^^ shift b := by
  rw [shift_eq, shift_eq a, shift_eq b, feedback_xor, UInt32.shiftLeft_xor]
  ac_rfl

/-- Nothing falls out of a register below a half. -/
theorem toNat_shift_of_lt {r : UInt32} (h : r.toNat < 0x80000000) :
    (shift r).toNat = r.toNat * 2 := by
  have hlt : r < 0x80000000 := h
  have hfits : r.toNat * 2 < UInt32.size := by
    rw [UInt32.size]
    omega
  rw [shift, if_pos hlt, UInt32.toNat_shiftLeft]
  exact (congrArg (· % _) (Nat.shiftLeft_eq _ 1)).trans (Nat.mod_eq_of_lt hfits)

/-- The last bit of the generator is set, so what falls out is not lost. -/
theorem eq_zero_of_shift_eq_zero {r : UInt32} (h : shift r = 0) : r = 0 := by
  by_cases hlow : r < 0x80000000
  · have hdouble := toNat_shift_of_lt hlow
    rw [h] at hdouble
    have hzero : r.toNat * 2 = 0 := hdouble.symm
    exact UInt32.toNat_inj.1 (show r.toNat = 0 by omega)
  · have hbit : (shift r).toBitVec.getLsbD 0 = true := by
      rw [shift, if_neg hlow]
      simp [generator]
    rw [h] at hbit
    exact absurd hbit (by decide)

theorem shift_injective : Function.Injective shift := by
  intro a b h
  have hzero : shift (a ^^^ b) = 0 := by rw [shift_xor, h, UInt32.xor_self]
  exact UInt32.xor_eq_zero_iff.1 (eq_zero_of_shift_eq_zero hzero)

theorem shifts_xor (n : Nat) (a b : UInt32) : shifts n (a ^^^ b) = shifts n a ^^^ shifts n b := by
  induction n generalizing a b with
  | zero => rfl
  | succ n ih => rw [shifts, shift_xor, ih, shifts, shifts]

theorem shifts_add (m n : Nat) (r : UInt32) : shifts (m + n) r = shifts n (shifts m r) := by
  induction m generalizing r with
  | zero => rw [Nat.zero_add, shifts]
  | succ m ih => rw [Nat.succ_add, shifts, ih, shifts]

theorem shifts_injective (n : Nat) : Function.Injective (shifts n) := by
  induction n with
  | zero => exact Function.injective_id
  | succ n ih => exact ih.comp shift_injective

/-- A register with room for `n` bits above it only moves up in `n` shifts. -/
theorem toNat_shifts_of_lt {n : Nat} {r : UInt32} (h : r.toNat * Nat.pow 2 n < 0x100000000) :
    (shifts n r).toNat = r.toNat * Nat.pow 2 n := by
  induction n generalizing r with
  | zero => exact (Nat.mul_one _).symm
  | succ n ih =>
    have hpow : r.toNat * Nat.pow 2 (n + 1) = r.toNat * 2 * Nat.pow 2 n := by
      rw [Nat.mul_assoc, Nat.mul_comm 2]
      rfl
    have hlow : r.toNat < 0x80000000 := by
      have hpos : 1 ≤ Nat.pow 2 n := Nat.two_pow_pos n
      have hle := Nat.mul_le_mul_left (r.toNat * 2) hpos
      omega
    have hnext := toNat_shift_of_lt hlow
    rw [hpow] at h ⊢
    rw [shifts, ih (by rwa [hnext]), hnext]

/-! ## Feeding -/

theorem feed_injective (byte : UInt8) : Function.Injective (feed · byte) := by
  intro a b h
  exact (UInt32.xor_left_inj _).1 (shifts_injective 8 h)

/-- Different registers stay different, whatever message follows. -/
theorem run_injective (message : Bytes) : Function.Injective (run · message) := by
  induction message with
  | nil => exact Function.injective_id
  | cons byte rest ih => exact ih.comp (feed_injective byte)

/-- A register with a byte above room for `room` others. -/
def place (room : Nat) (byte : UInt8) : UInt32 := UInt32.ofNat (byte.toNat * Nat.pow 2 (8 * room))

/-- A register with room for `room` bytes that takes a message in, the first byte at the top. -/
def gather : (room : Nat) → Bytes → UInt32
  | room + 1, byte :: rest => place room byte ^^^ gather room rest
  | _, _ => 0

theorem toNat_place {room : Nat} (hroom : room < 4) (byte : UInt8) :
    (place room byte).toNat = byte.toNat * Nat.pow 2 (8 * room) := by
  have hbyte : byte.toNat ≤ 255 := Nat.le_of_lt_succ byte.toNat_lt
  have hpow : Nat.pow 2 (8 * room) ≤ Nat.pow 2 24 := Nat.pow_le_pow_right (by decide) (by omega)
  have hfits : byte.toNat * Nat.pow 2 (8 * room) < UInt32.size :=
    Nat.lt_of_le_of_lt (Nat.mul_le_mul hbyte hpow) (by decide)
  exact (UInt32.toNat_ofNat').trans (Nat.mod_eq_of_lt hfits)

theorem place_three (byte : UInt8) : place 3 byte = byte.toUInt32 <<< 24 := by
  have hbyte : byte.toNat < 256 := byte.toNat_lt
  have hpow : Nat.pow 2 (8 * 3) = 16777216 := by decide
  have hpow' : 2 ^ (UInt32.toNat 24 % 32) = 16777216 := by decide
  refine UInt32.toNat_inj.1 ?_
  rw [toNat_place (by decide), UInt32.toNat_shiftLeft, UInt8.toNat_toUInt32, Nat.shiftLeft_eq, hpow,
    hpow', Nat.mod_eq_of_lt (by omega)]

/-- A byte gets to the top of the register when those above it are shifted out. -/
theorem shifts_place {used room : Nat} (h : used + room = 3) (byte : UInt8) :
    shifts (8 * used) (place room byte) = byte.toUInt32 <<< 24 := by
  have hpow : Nat.pow 2 (8 * room) * Nat.pow 2 (8 * used) = Nat.pow 2 (8 * 3) := by
    rw [← h, Nat.mul_add, Nat.add_comm (8 * used)]
    exact (Nat.pow_add 2 (8 * room) (8 * used)).symm
  have hplace : (place room byte).toNat * Nat.pow 2 (8 * used) = (place 3 byte).toNat := by
    rw [toNat_place (by omega), Nat.mul_assoc, hpow, toNat_place (by decide)]
  rw [← place_three]
  refine UInt32.toNat_inj.1 ?_
  rw [← hplace]
  exact toNat_shifts_of_lt (hplace ▸ (place 3 byte).toNat_lt)

/-- Feeding a message that the register has room for is taking it in as a whole and shifting it
through. -/
theorem run_shifts (used room : Nat) (h : used + room = 4) {message : Bytes}
    (hfits : message.length ≤ room) (r : UInt32) :
    run (shifts (8 * used) r) message =
      shifts (8 * (used + message.length)) (r ^^^ gather room message) := by
  induction message generalizing used room r with
  | nil =>
    have hnone : gather room [] = 0 := by cases room <;> rfl
    rw [hnone, UInt32.xor_zero]
    rfl
  | cons byte rest ih =>
    cases room with
    | zero => exact absurd hfits (Nat.not_succ_le_zero _)
    | succ room =>
      have hfeed : feed (shifts (8 * used) r) byte =
          shifts (8 * (used + 1)) (r ^^^ place room byte) := by
        rw [feed, ← shifts_place (Nat.succ.inj h), ← shifts_xor, ← shifts_add, Nat.mul_succ]
      have hrest := ih (used + 1) room (by omega) (Nat.le_of_succ_le_succ hfits)
        (r ^^^ place room byte)
      have hlength : used + 1 + rest.length = used + (byte :: rest).length := by
        rw [List.length_cons]
        omega
      rw [hlength, UInt32.xor_assoc] at hrest
      rw [run, List.foldl_cons, hfeed]
      exact hrest

theorem gather_lt {room : Nat} (h : room ≤ 4) (message : Bytes) :
    (gather room message).toNat < Nat.pow 2 (8 * room) := by
  induction room generalizing message with
  | zero => exact Nat.one_pos
  | succ room ih =>
    cases message with
    | nil => exact Nat.two_pow_pos _
    | cons byte rest =>
      have hpow : Nat.pow 2 (8 * (room + 1)) = Nat.pow 2 (8 * room) * 256 :=
        Nat.pow_add 2 (8 * room) 8
      have hplace : (place room byte).toNat < Nat.pow 2 (8 * (room + 1)) := by
        rw [toNat_place h, hpow, Nat.mul_comm]
        exact Nat.mul_lt_mul_of_pos_left byte.toNat_lt (Nat.two_pow_pos _)
      have hrest : (gather room rest).toNat < Nat.pow 2 (8 * (room + 1)) := by
        rw [hpow]
        exact Nat.lt_of_lt_of_le (ih (Nat.le_of_succ_le h) rest)
          (Nat.le_mul_of_pos_right _ (by decide))
      rw [gather, UInt32.toNat_xor]
      exact Nat.xor_lt_two_pow hplace hrest

/-- A byte is the high part of the register that it is placed in, and what stands below it is the
low part. -/
theorem div_place {room : Nat} (h : room < 4) (byte : UInt8) {low : UInt32}
    (hlow : low.toNat < Nat.pow 2 (8 * room)) :
    (place room byte ^^^ low).toNat / Nat.pow 2 (8 * room) = byte.toNat ∧
      (place room byte ^^^ low).toNat % Nat.pow 2 (8 * room) = low.toNat := by
  have hpos : 0 < Nat.pow 2 (8 * room) := Nat.two_pow_pos _
  have hhigh : byte.toNat * Nat.pow 2 (8 * room) / Nat.pow 2 (8 * room) = byte.toNat :=
    Nat.mul_div_cancel _ hpos
  have hnone : byte.toNat * Nat.pow 2 (8 * room) % Nat.pow 2 (8 * room) = 0 :=
    Nat.mul_mod_left _ _
  rw [UInt32.toNat_xor, toNat_place h]
  constructor
  · refine Nat.xor_div_two_pow.trans ?_
    exact (congrArg₂ (· ^^^ ·) hhigh (Nat.div_eq_of_lt hlow)).trans (Nat.xor_zero _)
  · refine Nat.xor_mod_two_pow.trans ?_
    exact (congrArg₂ (· ^^^ ·) hnone (Nat.mod_eq_of_lt hlow)).trans (Nat.zero_xor _)

/-- A register shows the message that it took in. -/
theorem gather_injective {room : Nat} (h : room ≤ 4) {message other : Bytes}
    (hlength : message.length = other.length) (hfits : message.length ≤ room)
    (heq : gather room message = gather room other) : message = other := by
  induction room generalizing message other with
  | zero =>
    rw [List.eq_nil_of_length_eq_zero (Nat.le_zero.1 hfits)] at hlength ⊢
    exact (List.eq_nil_of_length_eq_zero hlength.symm).symm
  | succ room ih =>
    cases message with
    | nil => exact (List.eq_nil_of_length_eq_zero hlength.symm).symm
    | cons byte rest =>
      cases other with
      | nil => exact absurd hlength (Nat.succ_ne_zero _)
      | cons byte' rest' =>
        have hroom := Nat.le_of_succ_le h
        obtain ⟨hhigh, hlow⟩ := div_place h byte (gather_lt hroom rest)
        obtain ⟨hhigh', hlow'⟩ := div_place h byte' (gather_lt hroom rest')
        rw [gather, gather] at heq
        rw [heq] at hhigh hlow
        obtain rfl : byte = byte' := UInt8.toNat_inj.1 (hhigh.symm.trans hhigh')
        have hrest : gather room rest = gather room rest' :=
          UInt32.toNat_inj.1 (hlow.symm.trans hlow')
        rw [ih hroom (Nat.succ.inj hlength) (Nat.le_of_succ_le_succ hfits) hrest]

/-- The register is different after different messages that it has room for. -/
theorem run_ne_of_fits {message other : Bytes} (hlength : message.length = other.length)
    (hfits : message.length ≤ 4) (hne : message ≠ other) (r : UInt32) :
    run r message ≠ run r other := by
  have hrun := run_shifts 0 4 rfl hfits r
  have hrun' := run_shifts 0 4 rfl (hlength ▸ hfits) r
  rw [← hlength] at hrun'
  intro heq
  have hshifts := hrun.symm.trans (heq.trans hrun')
  have hgather := (UInt32.xor_right_inj r).1 (shifts_injective _ hshifts)
  exact hne (gather_injective (Nat.le_refl 4) hlength hfits hgather)

end Checksum

/-! ## Bursts -/

namespace Bytes

/-- Bytes are as many as others and differ from them, but only within four bytes in a row. -/
structure Burst (a b : Bytes) : Prop where
  length_eq : a.length = b.length
  ne : a ≠ b
  within : ∃ start, ∀ i : Nat, a[i]? ≠ b[i]? → start ≤ i ∧ i < start + 4

/-- A burst divides bytes into what is in front of it, what is in it, and what is behind it. -/
theorem Burst.exists_parts {a b : Bytes} (h : Burst a b) :
    ∃ front middle middle' back, a = front ++ (middle ++ back) ∧ b = front ++ (middle' ++ back) ∧
      middle.length = middle'.length ∧ middle.length ≤ 4 ∧ middle ≠ middle' := by
  obtain ⟨start, hstart⟩ := h.within
  have hsame {i : Nat} (hi : i < start ∨ start + 4 ≤ i) : a[i]? = b[i]? := by
    by_contra hne
    have := hstart i hne
    omega
  have hfront : a.take start = b.take start := by
    refine List.ext_getElem? fun i => ?_
    rw [List.getElem?_take, List.getElem?_take]
    split
    · exact hsame (Or.inl ‹_›)
    · rfl
  have hback : (a.drop start).drop 4 = (b.drop start).drop 4 := by
    refine List.ext_getElem? fun i => ?_
    rw [List.drop_drop, List.drop_drop, List.getElem?_drop, List.getElem?_drop]
    exact hsame (Or.inr (Nat.le_add_right _ _))
  have ha : a = a.take start ++ ((a.drop start).take 4 ++ (a.drop start).drop 4) := by
    rw [List.take_append_drop, List.take_append_drop]
  have hb : b = a.take start ++ ((b.drop start).take 4 ++ (a.drop start).drop 4) := by
    rw [hfront, hback, List.take_append_drop, List.take_append_drop]
  refine ⟨_, _, _, _, ha, hb, ?_, List.length_take_le _ _, ?_⟩
  · simp only [List.length_take, List.length_drop, h.length_eq]
  · intro hmiddle
    exact h.ne (ha.trans (by rw [hmiddle, ← hb]))

end Bytes

/-- A burst changes the checksum. -/
theorem Checksum.crc32_ne_of_burst {a b : Bytes} (h : Bytes.Burst a b) : crc32 a ≠ crc32 b := by
  obtain ⟨front, middle, middle', back, rfl, rfl, hlength, hfits, hne⟩ := h.exists_parts
  intro heq
  have hrun : run 0 (front ++ (middle ++ back)) = run 0 (front ++ (middle' ++ back)) :=
    UInt32.not_inj.1 heq
  simp only [run_append] at hrun
  exact run_ne_of_fits hlength hfits hne (run 0 front) (run_injective back hrun)

end CommandTape
