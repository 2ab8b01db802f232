/-!
# Bytes

Byte strings, and natural numbers written as a fixed count of bytes, least significant first, as the
header fields of records and messages are. Writing a number that fits and reading it back gives the
number (`decode_encode_of_lt`), and reading bytes and writing them again gives the bytes
(`encode_decode`).
-/

namespace CommandTape

/-- A string of bytes. -/
abbrev Bytes := List UInt8

namespace Bytes

/-- Exactly `n` bytes: the first `n` of `bs`, filled up with zeros where `bs` is shorter. -/
def fit (n : Nat) (bs : Bytes) : Bytes :=
  bs.take n ++ List.replicate (n - bs.length) 0

@[simp] theorem length_fit (n : Nat) (bs : Bytes) : (fit n bs).length = n := by
  simp only [fit, List.length_append, List.length_take, List.length_replicate]
  omega

/-- Puts `new` in the place of as many bytes from `offset` on. -/
def overwrite (bs : Bytes) (offset : Nat) (new : Bytes) : Bytes :=
  bs.take offset ++ new ++ bs.drop (offset + new.length)

theorem length_overwrite {bs : Bytes} {offset : Nat} {new : Bytes}
    (h : offset + new.length ≤ bs.length) : (overwrite bs offset new).length = bs.length := by
  simp only [overwrite, List.length_append, List.length_take, List.length_drop]
  omega

/-- What is put into the first of two parts leaves the second as it is. -/
theorem overwrite_append_left {a b : Bytes} {offset : Nat} {new : Bytes}
    (h : offset + new.length ≤ a.length) :
    overwrite (a ++ b) offset new = overwrite a offset new ++ b := by
  have hskip : offset - a.length = 0 := by omega
  have hrest : offset + new.length - a.length = 0 := by omega
  simp only [overwrite, List.take_append, List.drop_append, hskip, hrest, List.take_zero,
    List.drop_zero, List.append_nil, List.append_assoc]

/-- What is put into the second of two parts leaves the first as it is. -/
theorem overwrite_append_right {a b : Bytes} {offset : Nat} {new : Bytes}
    (h : a.length ≤ offset) :
    overwrite (a ++ b) offset new = a ++ overwrite b (offset - a.length) new := by
  have hstop : offset + new.length - a.length = offset - a.length + new.length := by omega
  simp only [overwrite, List.take_append, List.drop_append, List.take_of_length_le h,
    List.drop_of_length_le (show a.length ≤ offset + new.length by omega), hstop,
    List.nil_append, List.append_assoc]

/-- What reaches over the end of the first of two parts is divided there. -/
theorem overwrite_append {a b : Bytes} {offset : Nat} {new : Bytes} (h : offset ≤ a.length)
    (h' : a.length ≤ offset + new.length) :
    overwrite (a ++ b) offset new =
      overwrite a offset (new.take (a.length - offset)) ++
        overwrite b 0 (new.drop (a.length - offset)) := by
  have hskip : offset - a.length = 0 := by omega
  have hfirst : min (a.length - offset) new.length = a.length - offset := by omega
  have hstop : offset + (a.length - offset) = a.length := by omega
  have hrest : 0 + (new.length - (a.length - offset)) = offset + new.length - a.length := by omega
  simp only [overwrite, List.take_append, List.drop_append, hskip, List.take_zero,
    List.length_take, List.length_drop, hfirst, hstop, hrest, List.drop_length,
    List.drop_of_length_le h', List.append_nil, List.nil_append, List.append_assoc]
  rw [← List.append_assoc (new.take _), List.take_append_drop]

end Bytes

namespace LittleEndian

/-- The `width` bytes of `n`, least significant first; what does not fit is dropped. -/
def encode : (width : Nat) → (n : Nat) → Bytes
  | 0, _ => []
  | width + 1, n => UInt8.ofNat (n % 256) :: encode width (n / 256)

/-- The number that the bytes spell, least significant first. -/
def decode : Bytes → Nat
  | [] => 0
  | b :: bs => b.toNat + 256 * decode bs

@[simp] theorem length_encode (width n : Nat) : (encode width n).length = width := by
  induction width generalizing n with
  | zero => rfl
  | succ width ih => simp [encode, ih]

theorem decode_encode (width n : Nat) : decode (encode width n) = n % Nat.pow 256 width := by
  induction width generalizing n with
  | zero => exact (Nat.mod_one n).symm
  | succ width ih =>
    have h : (UInt8.ofNat (n % 256)).toNat = n % 256 := by
      simp
    have hpow : Nat.pow 256 (width + 1) = 256 * Nat.pow 256 width := Nat.mul_comm _ _
    rw [encode, decode, ih, h, hpow, Nat.mod_mul]

theorem decode_encode_of_lt {width n : Nat} (h : n < Nat.pow 256 width) :
    decode (encode width n) = n := by
  rw [decode_encode, Nat.mod_eq_of_lt h]

theorem decode_lt (bs : Bytes) : decode bs < Nat.pow 256 bs.length := by
  induction bs with
  | nil => exact Nat.one_pos
  | cons b bs ih =>
    have hb : b.toNat < 256 := b.toNat_lt
    have hpow : Nat.pow 256 (bs.length + 1) = 256 * Nat.pow 256 bs.length := Nat.mul_comm _ _
    rw [decode, List.length_cons, hpow]
    omega

theorem encode_decode (bs : Bytes) : encode bs.length (decode bs) = bs := by
  induction bs with
  | nil => rfl
  | cons b bs ih =>
    have hb : b.toNat < 256 := b.toNat_lt
    have hmod : (b.toNat + 256 * decode bs) % 256 = b.toNat := by omega
    have hdiv : (b.toNat + 256 * decode bs) / 256 = decode bs := by omega
    simp [encode, decode, hmod, hdiv, ih]

end LittleEndian

end CommandTape
