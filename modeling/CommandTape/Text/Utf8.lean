import CommandTape.Bytes

/-!
# UTF-8

Texts as bytes and back. Bytes that are no text are described by the place where the reading
stops: how many bytes before it are whole characters, and how many bytes from there can be part
of no character, unless the bytes merely end too early. Bytes are read as a text exactly if they are
the bytes of that text (`decode_encode`, `encode_of_decode`).
-/

namespace CommandTape.Utf8

/-- The bytes of a text. -/
def encode (text : String) : Bytes :=
  text.toUTF8.data.toList

/-- Where bytes stop being text. -/
structure Invalid where
  /-- The count of bytes before the fault, all of them whole characters. -/
  index : Nat
  /-- The count of bytes that no character starts with; none when the bytes end inside one. -/
  length : Option Nat
deriving DecidableEq, Repr

/-- The fault as messages describe it. -/
def Invalid.message (e : Invalid) : String :=
  match e.length with
  | some n => s!"invalid utf-8 sequence of {n} bytes from index {e.index}"
  | none => s!"incomplete utf-8 byte sequence from index {e.index}"

/-- A byte that continues a character. -/
def isTail (b : UInt8) : Bool := 0x80 ≤ b && b ≤ 0xBF

/-- The second byte that may follow the first of a character of three bytes. -/
def isSecondOfThree (a b : UInt8) : Bool :=
  if a = 0xE0 then 0xA0 ≤ b && b ≤ 0xBF
  else if a = 0xED then 0x80 ≤ b && b ≤ 0x9F
  else isTail b

/-- The second byte that may follow the first of a character of four bytes. -/
def isSecondOfFour (a b : UInt8) : Bool :=
  if a = 0xF0 then 0x90 ≤ b && b ≤ 0xBF
  else if a = 0xF4 then 0x80 ≤ b && b ≤ 0x8F
  else isTail b

/-- The first fault of `bs`, whose first byte has the given index in the whole. -/
def fault (index : Nat) : Bytes → Invalid
  | [] => ⟨index, none⟩
  | a :: rest =>
    if a ≤ 0x7F then fault (index + 1) rest
    else if 0xC2 ≤ a && a ≤ 0xDF then
      match rest with
      | [] => ⟨index, none⟩
      | b :: rest => if isTail b then fault (index + 2) rest else ⟨index, some 1⟩
    else if 0xE0 ≤ a && a ≤ 0xEF then
      match rest with
      | [] => ⟨index, none⟩
      | b :: rest =>
        if isSecondOfThree a b then
          match rest with
          | [] => ⟨index, none⟩
          | c :: rest => if isTail c then fault (index + 3) rest else ⟨index, some 2⟩
        else ⟨index, some 1⟩
    else if 0xF0 ≤ a && a ≤ 0xF4 then
      match rest with
      | [] => ⟨index, none⟩
      | b :: rest =>
        if isSecondOfFour a b then
          match rest with
          | [] => ⟨index, none⟩
          | c :: rest =>
            if isTail c then
              match rest with
              | [] => ⟨index, none⟩
              | d :: rest => if isTail d then fault (index + 4) rest else ⟨index, some 3⟩
            else ⟨index, some 2⟩
        else ⟨index, some 1⟩
    else ⟨index, some 1⟩

/-- The text that bytes spell, or their first fault. -/
def decode (bs : Bytes) : Except Invalid String :=
  match String.fromUTF8? ⟨bs.toArray⟩ with
  | some text => .ok text
  | none => .error (fault 0 bs)

theorem decode_encode (text : String) : decode (encode text) = .ok text := by
  obtain ⟨bytes, valid⟩ := text
  simp only [decode, encode, String.toUTF8, Array.toArray_toList, String.fromUTF8?, valid,
    ↓reduceDIte, String.fromUTF8]

theorem encode_of_decode {bs : Bytes} {text : String} (h : decode bs = .ok text) :
    encode text = bs := by
  unfold decode String.fromUTF8? at h
  by_cases valid : (ByteArray.mk bs.toArray).IsValidUTF8
  · simp only [valid, ↓reduceDIte, String.fromUTF8, Except.ok.injEq] at h
    simp [encode, ← h]
  · simp [valid] at h

end CommandTape.Utf8
