import CommandTape.Kind
import CommandTape.Text.Hexadecimal
import CommandTape.Text.Quoted

/-!
# What stops playback

The reasons to stop playing a tape that are reported (`DecodeError`), and their messages.
-/

namespace CommandTape

/-- Why a record cannot be played. -/
inductive DecodeError where
  /-- The record's tag means nothing to the consumer. -/
  | unknownTag (tag : Tag)
  /-- The record runs past the written end of its segment. -/
  | unexpectedEnd
  /-- The blob does not have the checksum that was recorded with it. -/
  | checksumMismatch
  /-- The record is encoded and there is no reading client. -/
  | missingReadingClient
  /-- The reading client made an item of another tag. -/
  | tagMismatch (expected found : Tag)
  /-- The reading client rejected the blob. -/
  | malformed (reason : String)
deriving DecidableEq, Repr

namespace DecodeError

/-- The error as messages describe it. -/
def message : DecodeError → String
  | unknownTag tag => "unknown item type: " ++ Hexadecimal.ofTag tag
  | unexpectedEnd => "unexpected end of segment"
  | checksumMismatch => "encoded item failed checksum"
  | missingReadingClient => "encoded item found but no reading client is set"
  | tagMismatch expected found =>
    "reading client decoded item type " ++ Hexadecimal.ofTag found ++ ", expected " ++
      Hexadecimal.ofTag expected
  | malformed reason => "malformed encoded item: " ++ reason

/-- The word for the cause. -/
def label : DecodeError → String
  | unknownTag _ => "UnknownItemType"
  | unexpectedEnd => "UnexpectedEnd"
  | checksumMismatch => "ChecksumMismatch"
  | missingReadingClient => "MissingReadingClient"
  | tagMismatch _ _ => "ItemTypeMismatch"
  | malformed _ => "Malformed"

/-- The error as a constructed value. -/
def summary : DecodeError → String
  | unknownTag tag => s!"UnknownItemType({tag.toNat})"
  | tagMismatch expected found =>
    s!"ItemTypeMismatch \x7b expected: {expected.toNat}, found: {found.toNat} \x7d"
  | malformed reason => "Malformed(" ++ Quoted.ofString reason ++ ")"
  | e => e.label

end DecodeError

end CommandTape
