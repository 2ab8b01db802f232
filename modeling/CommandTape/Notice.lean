import CommandTape.DecodeError
import CommandTape.Failure

/-!
# Notices

What a tape and its clients write to the log while they work.
-/

namespace CommandTape

/-- How much a notice matters. -/
inductive Level where
  | debug
  | info
  | warn
  | error
deriving DecidableEq, Repr

/-- The word for a level. -/
def Level.label : Level → String
  | debug => "DEBUG"
  | info => "INFO"
  | warn => "WARN"
  | error => "ERROR"

/-- Something that happened. -/
inductive Notice where
  /-- The tape allocated a segment. -/
  | allocated (id : SegmentId) (capacity : Nat)
  /-- The writing client supplied a segment. -/
  | supplied (id : SegmentId) (capacity : Nat)
  /-- A segment with so many bytes written joins those that are only read. -/
  | freezing (id : SegmentId) (written capacity : Nat)
  /-- So many recorded items are about to be destroyed. -/
  | destroying (count : Nat)
  /-- There is no segment for an item that is to be destroyed. -/
  | segmentLost (index : Nat) (location : Location)
  /-- The writing client did not encode an item of the named kind. -/
  | notEncoded (kind : String)
  /-- Playback ended early, in a segment, after the items of the segments before it. -/
  | stopped (id : SegmentId) (count : Nat) (reason : DecodeError)
  /-- Shared memory was made for the named client. -/
  | shared (id : SegmentId) (size : Nat) (client : String)
  /-- Shared memory could not be made. -/
  | notShared (size : Nat) (reason : Failure)
  /-- A tape is handed off. -/
  | sending (segments bytes : Nat)
  /-- A hand-off was taken. -/
  | received (segments : Nat) (sender : Nat)
deriving DecidableEq

namespace Notice

/-- How much the notice matters. -/
def level : Notice → Level
  | allocated _ _ => .debug
  | supplied _ _ => .debug
  | freezing _ _ _ => .debug
  | destroying _ => .debug
  | segmentLost _ _ => .error
  | notEncoded _ => .warn
  | stopped _ _ _ => .error
  | shared _ _ _ => .debug
  | notShared _ _ => .error
  | sending _ _ => .info
  | received _ _ => .info

/-- The notice in words. -/
def words : Notice → String
  | allocated id capacity => s!"Allocated {id.text} ({capacity} bytes)"
  | supplied id capacity => s!"Writing client supplied {id.text} ({capacity} bytes)"
  | freezing id written capacity => s!"Freezing {id.text} at {written} of {capacity} bytes"
  | destroying count => s!"Destroying {count} items"
  | segmentLost index location =>
    s!"Lost track of segment {index} for item at {location.summary}, it will not be destroyed"
  | notEncoded kind => s!"Writing client did not encode {kind}, dropping it"
  | stopped id count reason =>
    s!"Stopping playback in {id.text} after {count} items: {reason.message}"
  | shared id size client => s!"Created shared {id.text} ({size} bytes) for {client}"
  | notShared size reason =>
    s!"Failed to create a shared segment of {size} bytes: {reason.message}"
  | sending segments bytes => s!"Sending {segments} segments ({bytes} bytes)"
  | received segments sender => s!"Received {segments} segments from {sender}"

/-- The notice as a line of a log. -/
def line (n : Notice) : String := n.level.label ++ " " ++ n.words

end Notice

end CommandTape
