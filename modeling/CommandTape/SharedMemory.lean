import CommandTape.Client
import CommandTape.Text.Utf8

/-!
# Shared memory

Memory that has a descriptor (`MemFd`), under which another program can map it too. The client of
this module (`SharedMemoryClient`) supplies segments in shared memory, so that a tape can be handed
off without being copied.
-/

namespace CommandTape.SharedMemory

/-- The operating system takes no longer names. -/
def nameLimit : Nat := 249

/-- A new block of zeros, made on a machine under a name. What is wrong with the size being zero,
with the name and with the size is found in this order. -/
def create (machine : Machine) (name : String) (size : Nat) : Except Failure Block :=
  let bytes := Utf8.encode name
  if size = 0 then .error .emptySharedMemory
  else if bytes.contains 0 then .error (.sharedMemoryName name (bytes.idxOf 0))
  else if nameLimit < bytes.length then .error (.sharedMemory "construct memfd" .invalidArgument)
  else if h : size < Layout.memoryLimit then
    if machine.mapLimit < size then .error (.sharedMemory "map memory" .outOfMemory)
    else .ok (.uniform size 0 h)
  else .error (.sharedMemory "resize memfd" .invalidArgument)

/-- A writable mapping of a block of shared memory. -/
def mapNew (store : Store) (block : Nat) : Mapping :=
  ⟨block, store.size block, 0, some (.memory block), true, store.size_lt block⟩

/-- Maps what another program shares, for reading only. -/
def map (store : Store) : Descriptor → Except Failure Mapping
  | .memory block =>
    if store.size block = 0 then .error .receivedEmpty
    else if store.machine.mapLimit < store.size block then
      .error (.descriptorUnusable "map memory" .outOfMemory)
    else .ok ⟨block, store.size block, 0, some (.memory block), false, store.size_lt block⟩
  | .writeOnly => .error (.descriptorUnusable "map memory" .permissionDenied)
  | .stream => .error (.descriptorUnusable "seek to end" .illegalSeek)
  | .closed => .error (.descriptorUnusable "seek to end" .badDescriptor)

/-- Supplies shared memory of at least `capacity` bytes. -/
def supply (machine : Machine) (name : String) (capacity minimum : Nat) (next : SegmentId) :
    Except Fault Supply :=
  match Word.alignUp (max minimum capacity) with
  | .error f => .error f
  | .ok size =>
    match create machine name size with
    | .ok block =>
      .ok { offer := some { block := block, sharing := .shared }
            notices := [.shared next size name] }
    | .error reason => .ok { offer := none, notices := [.notShared size reason] }

/-- A client that supplies segments in shared memory of a machine, of at least the given capacity,
rounded up, and leaves the encoding of items to an encoder. -/
def client {σ : Type} (machine : Machine) (name : String) (capacity : Nat)
    (encode : View → σ → Except Fault (Option Bytes) × σ) : Except Fault (WritingClient σ) :=
  match Word.alignUp (max capacity Layout.alignment) with
  | .error f => .error f
  | .ok capacity =>
    .ok { supply := fun minimum next state => (supply machine name capacity minimum next, state)
          encode := encode }

end CommandTape.SharedMemory
