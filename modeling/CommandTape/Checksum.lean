import CommandTape.Bytes

/-!
# The checksum of encoded items

The function `compute_crc32`: a cyclic redundancy check of 32 bits, with the generator `0x04C11DB7`,
first bit first, the register zero at the start and complemented at the end, without the length of
the message.
-/

namespace CommandTape.Checksum

/-- The generator, without its leading term. -/
def generator : UInt32 := 0x04C11DB7

/-- One shift of the register: the bit that falls out decides whether the generator is added. -/
def shift (register : UInt32) : UInt32 :=
  if register < 0x80000000 then register <<< 1 else (register <<< 1) ^^^ generator

/-- `n` shifts. -/
def shifts : Nat → UInt32 → UInt32
  | 0, register => register
  | n + 1, register => shifts n (shift register)

/-- Takes one byte in: it is added at the top of the register and shifted through. -/
def feed (register : UInt32) (byte : UInt8) : UInt32 :=
  shifts 8 (register ^^^ (byte.toUInt32 <<< 24))

/-- The register after a message. -/
def run (register : UInt32) (message : Bytes) : UInt32 :=
  message.foldl feed register

/-- The checksum of a message. -/
def crc32 (message : Bytes) : UInt32 :=
  ~~~ run 0 message

theorem run_append (register : UInt32) (a b : Bytes) :
    run register (a ++ b) = run (run register a) b := by
  simp [run, List.foldl_append]

end CommandTape.Checksum
