import CommandTape.Client
import CommandTape.Journal
import CommandTape.Segment

/-!
# Sessions

What tapes in one process share and what outlives them: the counter that segments get their
identifiers from (`generate`), all memory, the state of the clients, what was reported, and which
items were destroyed.
-/

namespace CommandTape

/-- What tapes share. -/
structure Session (σ : Type) where
  /-- How many identifiers of segments were given out. -/
  issued : Nat
  store : Store
  /-- What was reported. -/
  notices : Journal Notice
  /-- The items that were destroyed. -/
  destroyed : Journal Item
  /-- The state of the clients. -/
  clients : σ

namespace Session

variable {σ : Type}

/-- The session in which nothing has happened, on a machine. -/
def start (machine : Machine) (clients : σ) : Session σ :=
  ⟨0, .empty machine, .empty, .empty, clients⟩

/-- The identifier that the next segment gets. -/
def nextId (s : Session σ) : SegmentId := .ofCount s.issued

/-- Reports something. -/
def note (s : Session σ) (n : Notice) : Session σ := { s with notices := s.notices.add n }

/-- Reports several things, in order. -/
def noteAll (s : Session σ) (ns : List Notice) : Session σ :=
  { s with notices := s.notices.addAll ns }

/-- Enters items into the ledger of those that were destroyed. -/
def destroy (s : Session σ) (items : List Item) : Session σ :=
  { s with destroyed := s.destroyed.addAll items }

/-- Takes the next identifier. -/
def generateId (s : Session σ) : SegmentId × Session σ :=
  (s.nextId, { s with issued := s.issued + 1 })

/-- Takes the next identifiers, which nothing keeps. -/
def skipIds (s : Session σ) (count : Nat) : Session σ := { s with issued := s.issued + count }

/-- A segment of zeros in a tape's own memory. -/
def allocate (s : Session σ) (capacity : Nat) : Outcome Failure Segment × Session σ :=
  if capacity % Layout.alignment ≠ 0 then (.error (.fault .unevenAllocation), s)
  else if h : capacity < Layout.memoryLimit ∧ capacity < s.store.machine.heapLimit then
    let mapping : Mapping := ⟨s.store.next, capacity, 0, none, true, h.1⟩
    let s := { s with store := s.store.add (.uniform capacity 0 h.1) }
    let (id, s) := s.generateId
    (.ok ⟨id, mapping, capacity, .tape, Nat.le_refl _⟩, s)
  else (.error (.failed (.memoryExhausted capacity)), s)

/-- What a client leaves that was asked for memory, up to where it makes the segment that it
offers. -/
def asked (s : Session σ) (supply : Supply) (clients : σ) : Session σ :=
  { s with clients := clients }.skipIds supply.idsBefore

/-- What it leaves behind that. -/
def answered (s : Session σ) (supply : Supply) : Session σ :=
  (s.skipIds supply.idsBehind).noteAll supply.notices

/-- The segment in memory that a client offers. -/
def adopt (s : Session σ) (offer : Offer) : Segment × Session σ :=
  let number := s.store.next
  let descriptor := match offer.sharing with
    | .kept => none
    | .shared => some (Descriptor.memory number)
    | .broken => some .closed
  let mapping : Mapping :=
    ⟨number, offer.block.size, offer.address, descriptor, offer.writable, offer.block.size_lt⟩
  let s := { s with store := s.store.add offer.block }
  match offer.id with
  | some id => (.ofMapping id mapping, s)
  | none =>
    let (id, s) := s.generateId
    (.ofMapping id mapping, s)

end Session

end CommandTape
