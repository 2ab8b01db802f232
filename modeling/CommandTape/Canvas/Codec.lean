import CommandTape.Canvas
import CommandTape.Client

/-!
# Encoded drawing commands

The `DemoCodec`, by which of the drawing commands only text is encoded: the blob is the two numbers
of its place, four bytes each, and the text.
-/

namespace CommandTape.Canvas

/-- The blob of a place and a text. -/
def textBlob (x y : UInt32) (text : Bytes) : Bytes := numberBytes x ++ numberBytes y ++ text

/-- Encodes the commands that write text, and no others. -/
def encode (view : View) : Except Fault (Option Bytes) :=
  if view.hasKind drawTextKind then
    match view.get drawTextKind with
    | .error f => .error f
    | .ok item => .ok (some (textBlob (numberAt item 24) (numberAt item 28) item.owned))
  else .ok none

/-- The command that a blob of text stands for. -/
def decodeText (blob : Bytes) : Except DecodeError Command :=
  if blob.length < 8 then .error .unexpectedEnd
  else
    let x := UInt32.ofNat (LittleEndian.decode (blob.take 4))
    let y := UInt32.ofNat (LittleEndian.decode ((blob.drop 4).take 4))
    match Utf8.decode (blob.drop 8) with
    | .ok text => .ok (.drawText x y text)
    | .error e => .error (.malformed e.message)

/-- Decodes blobs of text, and no others. -/
def decode (blob : Bytes) (tag : Tag) : Decoding :=
  if tag = drawTextKind.tag then
    match decodeText blob with
    | .ok command => .ofItem command.item
    | .error reason => .failed reason
  else .failed (.unknownTag tag)

end CommandTape.Canvas
