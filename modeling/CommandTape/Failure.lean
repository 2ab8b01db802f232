import CommandTape.Layout
import CommandTape.Location
import CommandTape.Text.Quoted

/-!
# Failures

Why something that was asked for could not be done, and what is reported about it: the kind of the
failure (`ErrorKind`), and the message of the `Error`.
-/

namespace CommandTape

/-- Why the operating system refused a call. -/
inductive SystemError where
  | badDescriptor
  | wouldBlock
  | outOfMemory
  | permissionDenied
  | invalidArgument
  | illegalSeek
  | brokenPipe
deriving DecidableEq, Repr

namespace SystemError

/-- The number of the error. -/
def code : SystemError → Nat
  | badDescriptor => 9
  | wouldBlock => 11
  | outOfMemory => 12
  | permissionDenied => 13
  | invalidArgument => 22
  | illegalSeek => 29
  | brokenPipe => 32

/-- The error in words. -/
def words : SystemError → String
  | badDescriptor => "Bad file descriptor"
  | wouldBlock => "Resource temporarily unavailable"
  | outOfMemory => "Cannot allocate memory"
  | permissionDenied => "Permission denied"
  | invalidArgument => "Invalid argument"
  | illegalSeek => "Illegal seek"
  | brokenPipe => "Broken pipe"

/-- The error as messages describe it. -/
def message (e : SystemError) : String := s!"{e.words} (os error {e.code})"

end SystemError

/-- The kinds of failures. -/
inductive FailureKind where
  /-- An item that is not inline was to be recorded without a writing client. -/
  | missingWritingClient
  /-- There is no segment for the next record. -/
  | segmentAllocation
  /-- The writing client made a blob that cannot be recorded. -/
  | encoding
  /-- The operating system refused. -/
  | io
  /-- A hand-off does not say what it should. -/
  | wire
deriving DecidableEq, Repr

/-- The word for the kind. -/
def FailureKind.label : FailureKind → String
  | missingWritingClient => "MissingWritingClient"
  | segmentAllocation => "SegmentAllocation"
  | encoding => "Encoding"
  | io => "Io"
  | wire => "Wire"

/-- What is reported about a failure. -/
structure Report where
  kind : FailureKind
  message : String
deriving DecidableEq, Repr

/-- A report as a constructed value. -/
def Report.summary (r : Report) : String :=
  "Error \x7b kind: " ++ r.kind.label ++ ", message: " ++ Quoted.ofString r.message ++ " \x7d"

/-- Why something could not be done. -/
inductive Failure where
  /-- An item of the named kind can only be recorded through a writing client. -/
  | clientNeeded (kind : String)
  /-- The writing client had no segment of that many bytes. -/
  | clientRefused (requested : Nat)
  /-- The writing client's segment is smaller than requested. -/
  | supplyTooSmall (id : SegmentId) (capacity requested : Nat)
  /-- The writing client's segment does not start at a multiple of eight bytes. -/
  | supplyMisaligned (id : SegmentId)
  /-- There is no memory for a segment of that many bytes. -/
  | memoryExhausted (requested : Nat)
  /-- The blob is too long for its length to be recorded. -/
  | blobTooLong (length : Nat)
  /-- Shared memory of no bytes was asked for. -/
  | emptySharedMemory
  /-- The name for shared memory has a zero byte at the given place. -/
  | sharedMemoryName (name : String) (position : Nat)
  /-- Shared memory could not be made, given its size, or mapped, at the named stage. -/
  | sharedMemory (stage : String) (error : SystemError)
  /-- What a descriptor stands for has no length, or cannot be mapped. -/
  | descriptorUnusable (stage : String) (error : SystemError)
  /-- The operating system refused a call on a descriptor. -/
  | system (error : SystemError)
  /-- A descriptor stands for shared memory of no bytes. -/
  | receivedEmpty
  /-- A tape has more segments than one hand-off may describe. -/
  | tooManySegments (limit : Nat)
  /-- A segment does not lie in shared memory. -/
  | notShared (id : SegmentId)
  /-- A message ends inside its header. -/
  | messageTooShort (length : Nat)
  /-- A message has no length that its count of segments allows. -/
  | messageMisshapen (length count : Nat)
  /-- A message comes with another count of descriptors than of segments. -/
  | descriptorCount (segments descriptors : Nat)
  /-- The table of segments does not have the checksum that was sent with it. -/
  | tableCorrupt (sender : Nat)
  /-- A segment is said to be longer than its memory, or not to end between records. -/
  | lengthClaimed (id : SegmentId) (length mapped : Nat)
deriving DecidableEq

namespace Failure

/-- The kind of a failure. -/
def kind : Failure → FailureKind
  | clientNeeded _ => .missingWritingClient
  | clientRefused _ => .segmentAllocation
  | supplyTooSmall _ _ _ => .segmentAllocation
  | supplyMisaligned _ => .segmentAllocation
  | memoryExhausted _ => .segmentAllocation
  | blobTooLong _ => .encoding
  | emptySharedMemory => .segmentAllocation
  | sharedMemoryName _ _ => .segmentAllocation
  | sharedMemory _ _ => .segmentAllocation
  | descriptorUnusable _ _ => .io
  | system _ => .io
  | receivedEmpty => .wire
  | tooManySegments _ => .wire
  | notShared _ => .wire
  | messageTooShort _ => .wire
  | messageMisshapen _ _ => .wire
  | descriptorCount _ _ => .wire
  | tableCorrupt _ => .wire
  | lengthClaimed _ _ _ => .wire

/-- Why memory could not be had: no object may take half of the address space, and what may be
asked for is not always there. -/
def memoryReason (requested : Nat) : String :=
  if requested < Layout.memoryLimit then
    "memory allocation failed because the memory allocator returned an error"
  else
    "memory allocation failed because the computed capacity exceeded the collection's maximum"

/-- A failure as messages describe it. -/
def message : Failure → String
  | clientNeeded kind =>
    kind ++ " is not an inline item and needs a writing client to be encoded"
  | clientRefused requested =>
    s!"Writing client could not supply a segment of {requested} bytes"
  | supplyTooSmall id capacity requested =>
    s!"Writing client supplied {id.text} with {capacity} bytes, {requested} were requested"
  | supplyMisaligned id =>
    s!"Writing client supplied {id.text} which is not 8 byte aligned"
  | memoryExhausted requested =>
    s!"Failed to allocate a segment of {requested} bytes: " ++ memoryReason requested
  | blobTooLong length => s!"Encoded item of {length} bytes is too large"
  | emptySharedMemory => "Cannot map an empty memfd"
  | sharedMemoryName name position =>
    "Invalid memfd name " ++ Quoted.ofString name ++
      s!": nul byte found in provided data at position: {position}"
  | sharedMemory stage error => s!"Failed to {stage}: {error.message}"
  | descriptorUnusable stage error => s!"Failed to {stage}: {error.message}"
  | system error => error.message
  | receivedEmpty => "Received an empty memfd"
  | tooManySegments limit =>
    s!"Buffer has more than {limit} segments, too many to send at once"
  | notShared id => s!"{id.text} is not in shared memory"
  | messageTooShort length => s!"Message of {length} bytes is too short"
  | messageMisshapen length count =>
    s!"Message of {length} bytes cannot describe {count} segments"
  | descriptorCount segments descriptors =>
    s!"Message describes {segments} segments but carried {descriptors} fds"
  | tableCorrupt sender => s!"Segment table from {sender} failed its checksum"
  | lengthClaimed id length mapped =>
    s!"{id.text} claims {length} written bytes but maps {mapped}"

/-- What is reported about a failure. -/
def report (f : Failure) : Report := ⟨f.kind, f.message⟩

end Failure

end CommandTape
