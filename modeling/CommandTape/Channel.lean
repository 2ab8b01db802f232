import CommandTape.HandOff

/-!
# Channels

The stream socket that messages are sent over (by `send` and `recv` of `WireMessage`). What is sent
at once stays together with the descriptors that it was sent with. What is received at once may run
over the ends of what was sent, up to the first part that came with descriptors.
-/

namespace CommandTape

/-- What was sent at once, as far as it was not received yet. -/
structure Chunk where
  bytes : Bytes
  descriptors : List Descriptor
deriving DecidableEq

/-- A stream from a sender to a receiver. -/
structure Channel where
  chunks : List Chunk
  senderOpen : Bool
  receiverOpen : Bool
deriving DecidableEq

namespace Channel

/-- A stream without contents. -/
def opened : Channel := ⟨[], true, true⟩

/-- The operating system sends no more descriptors than this at once. -/
def descriptorLimit : Nat := 253

/-- The largest message is as long as this. -/
def receiveLimit : Nat := Message.headerSize + Message.entrySize * Message.segmentLimit

/-- Sends a message. No bytes leave nothing behind in the stream. -/
def send (channel : Channel) (m : Message) : Except Failure Unit × Channel :=
  if descriptorLimit < m.descriptors.length then (.error (.system .invalidArgument), channel)
  else if channel.receiverOpen then
    if m.data.isEmpty then (.ok (), channel)
    else (.ok (), { channel with chunks := channel.chunks ++ [⟨m.data, m.descriptors⟩] })
  else (.error (.system .brokenPipe), channel)

/-- Up to `room` bytes off the front of the stream, the descriptors that come with them, and what
is left. -/
def take : (room : Nat) → List Chunk → Bytes × List Descriptor × List Chunk
  | _, [] => ([], [], [])
  | room, chunk :: rest =>
    if room < chunk.bytes.length then
      if room = 0 then ([], [], chunk :: rest)
      else (chunk.bytes.take room, chunk.descriptors, ⟨chunk.bytes.drop room, []⟩ :: rest)
    else if chunk.descriptors.isEmpty then
      let (bytes, descriptors, rest) := take (room - chunk.bytes.length) rest
      (chunk.bytes ++ bytes, descriptors, rest)
    else (chunk.bytes, chunk.descriptors, rest)

/-- Receives a message; none when the sender is gone and nothing is left. -/
def receive (channel : Channel) : Except Failure (Option Message) × Channel :=
  if channel.chunks.isEmpty then
    if channel.senderOpen then (.error (.system .wouldBlock), channel) else (.ok none, channel)
  else
    let (bytes, descriptors, rest) := take receiveLimit channel.chunks
    let message : Message := ⟨bytes, descriptors.take Message.segmentLimit⟩
    (.ok (some message), { channel with chunks := rest })

/-- Closes the sender's end. -/
def closeSender (channel : Channel) : Channel := { channel with senderOpen := false }

/-- Closes the receiver's end. -/
def closeReceiver (channel : Channel) : Channel := { channel with receiverOpen := false }

end Channel

end CommandTape
