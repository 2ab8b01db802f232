import CommandTape.DecodeError
import CommandTape.Failure

/-!
# Faults

A fault is a mistake of the program that uses a tape, or of one of its clients, which panics. It
ends the operation that it happens in, whatever that operation was to return: an operation comes out
well, or fails for a reason that it reports, or is ended by a fault.
-/

namespace CommandTape

/-- What ends an operation. -/
inductive Fault where
  /-- A sum does not fit the machine's word. -/
  | overflow
  /-- A slice ends behind the end of what it is taken from. -/
  | sliceEnd (stop length : Nat)
  /-- A slice starts behind the end of what it is taken from. -/
  | sliceStart (start length : Nat)
  /-- A slice starts behind its own end. -/
  | sliceOrder (start stop : Nat)
  /-- Items of the named kind need a greater alignment than records have. -/
  | overAligned (kind : String) (align : Nat)
  /-- The record is shorter than its header. -/
  | headerMissing
  /-- The record has another tag than items of the kind that it was viewed as. -/
  | wrongTag (location : Location) (found : Tag) (kind : String) (expected : Tag)
  /-- The record is shorter than records of the kind that it was viewed as. -/
  | viewTooShort
  /-- The place for a record does not start at a multiple of eight bytes. -/
  | recordMisaligned
  /-- The tag already stands for items of another kind. -/
  | tagTaken (tag : Tag) (owner newcomer : String)
  /-- Memory is mapped for reading only. -/
  | readOnly
  /-- A segment was to be cut to more bytes than it has. -/
  | cannotGrow (id : SegmentId) (capacity length : Nat)
  /-- Memory was asked for by a count of bytes that is no multiple of eight. -/
  | unevenAllocation
  /-- There is no segment to write to after one was installed. -/
  | noWritableSegment
  /-- An item of the named kind could not be recorded. -/
  | appendFailed (kind : String) (reason : Failure)
  /-- A client or a visitor gave up with the given words. -/
  | raised (message : String)
deriving DecidableEq

namespace Fault

/-- A fault as messages describe it. -/
def message : Fault → String
  | overflow => "attempt to add with overflow"
  | sliceEnd stop length => s!"range end index {stop} out of range for slice of length {length}"
  | sliceStart start length =>
    s!"range start index {start} out of range for slice of length {length}"
  | sliceOrder start stop => s!"slice index starts at {start} but ends at {stop}"
  | overAligned kind align =>
    s!"{kind} needs {align} byte alignment, records are only 8 byte aligned"
  | headerMissing => "assertion failed: record.len() >= ITEM_HEADER_SIZE"
  | wrongTag location found kind expected =>
    "Item at " ++ location.summary ++ " has type " ++ Hexadecimal.ofTag found ++ ", not " ++ kind ++
      " (" ++ Hexadecimal.ofTag expected ++ ")"
  | viewTooShort => "assertion failed: self.record.len() >= padded_size_of::<T>()"
  | recordMisaligned => "assertion failed: record.as_ptr() as usize % ITEM_ALIGNMENT == 0"
  | tagTaken tag owner newcomer =>
    "Item type " ++ Hexadecimal.ofTag tag ++ " is registered to " ++ owner ++
      ", cannot register " ++ newcomer
  | readOnly => "Received shared memory is mapped read only"
  | cannotGrow id capacity length =>
    s!"Cannot grow {id.text} from {capacity} to {length} bytes"
  | unevenAllocation => "assertion failed: n_bytes % ITEM_ALIGNMENT == 0"
  | noWritableSegment =>
    "internal error: entered unreachable code: A writable segment exists after a successful swap"
  | appendFailed kind reason => s!"Failed to append {kind}: {reason.message}"
  | raised message => message

end Fault

/-- Why an operation did not come out well. -/
inductive Halt (ε : Type) where
  /-- The operation reports a reason. -/
  | failed (reason : ε)
  /-- A fault ended the operation. -/
  | fault (f : Fault)
deriving DecidableEq

/-- How an operation ends. -/
abbrev Outcome (ε α : Type) := Except (Halt ε) α

/-- A part of an operation that can only fault. -/
def Outcome.ofFaulty {ε α : Type} : Except Fault α → Outcome ε α
  | .ok a => .ok a
  | .error f => .error (.fault f)

@[simp] theorem Outcome.ofFaulty_ok {ε α : Type} (a : α) :
    (Outcome.ofFaulty (.ok a) : Outcome ε α) = .ok a := rfl

@[simp] theorem Outcome.ofFaulty_error {ε α : Type} (f : Fault) :
    (Outcome.ofFaulty (.error f) : Outcome ε α) = .error (.fault f) := rfl

end CommandTape
