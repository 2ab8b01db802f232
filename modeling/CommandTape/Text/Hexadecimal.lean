import CommandTape.Bytes

/-!
# Hexadecimal text

Two digits a byte, and numbers of a fixed count of digits.
-/

namespace CommandTape.Hexadecimal

/-- The digit of a number below sixteen, in lower case. -/
def digit (n : Nat) : Char :=
  if n < 10 then Char.ofNat (48 + n) else Char.ofNat (87 + n)

/-- The last `width` digits of a number, most significant first. -/
def digits : (width : Nat) → (n : Nat) → List Char
  | 0, _ => []
  | width + 1, n => digits width (n / 16) ++ [digit (n % 16)]

/-- Bytes as lower case digits, two a byte, in order. -/
def ofBytes (bs : Bytes) : String :=
  String.ofList (bs.flatMap fun b => digits 2 b.toNat)

/-- A number of 32 bits as eight lower case digits. -/
def ofWord (n : Nat) : String :=
  String.ofList (digits 8 n)

/-- A byte as messages show it: `0x` and two upper case digits. -/
def ofTag (tag : UInt8) : String :=
  "0x" ++ String.ofList ((digits 2 tag.toNat).map Char.toUpper)

/-- A number in as few lower case digits as it takes, at least one. -/
def ofNat (n : Nat) : String :=
  String.ofList (Nat.toDigits 16 n)

end CommandTape.Hexadecimal
