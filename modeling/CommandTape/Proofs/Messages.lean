import CommandTape.HandOff
import CommandTape.Proofs.Memory
import Mathlib.Data.Nat.Find

/-!
# Which messages are taken

A message is well-formed if it has a header, a table of just as many entries as the header counts,
with the checksum that the header holds, and for each entry a descriptor of memory that is as large
as the entry says. These messages are taken (`Message.read_of_wellFormed`), and no others: the first
thing that is wrong with another one is the reason why it is not (`Message.read_of_rejected`).
Nothing that a message can hold makes for a fault.
-/

namespace CommandTape

variable {σ : Type}

namespace Message

/-! ## Fields -/

/-- The number that `width` bytes spell from `start` on. -/
def field (width : Nat) (bs : Bytes) (start : Nat) : Nat :=
  LittleEndian.decode ((bs.drop start).take width)

theorem read_eq_field {width start : Nat} {bs : Bytes} (h : start + width ≤ bs.length) :
    Word.read width bs start = .ok (field width bs start) := by
  rw [Word.read, Word.slice_of_le (Nat.le_add_right _ _) h, Nat.add_sub_cancel_left]
  rfl

/-- The sender, as the header names it. -/
def sender (m : Message) : UInt64 := UInt64.ofNat (field 8 m.data senderOffset)

/-- The count of segments, as the header has it. -/
def count (m : Message) : Nat := field 4 m.data countOffset

/-- The checksum of the table, as the header has it. -/
def checksum (m : Message) : Nat := field 4 m.data checksumOffset

/-- What stands behind the header. -/
def table (m : Message) : Bytes := m.data.drop headerSize

/-- The identifier in an entry of a table. -/
def idAt (table : Bytes) (i : Nat) : SegmentId := ⟨UInt64.ofNat (field 8 table (i * entrySize))⟩

/-- The count of bytes in an entry of a table. -/
def lengthAt (table : Bytes) (i : Nat) : Nat := field 8 table (i * entrySize + 8)

/-! ## Entries -/

/-- The descriptor is one of memory that can be mapped and is long enough for records of `length`
bytes. -/
structure Covers (store : Store) (length : Nat) (descriptor : Descriptor) (block : Nat) : Prop where
  descriptor_eq : descriptor = .memory block
  size_pos : 0 < store.size block
  size_le : store.size block ≤ store.machine.mapLimit
  length_le : length ≤ store.size block
  length_mod : length % Layout.alignment = 0

/-- What the descriptor stands for has no length, or cannot be mapped. -/
def Unmappable (store : Store) : Descriptor → Prop
  | .memory block => store.machine.mapLimit < store.size block
  | .writeOnly => True
  | .stream => True
  | .closed => True

/-- Why there is no segment for an entry. -/
inductive Refuses (store : Store) (id : SegmentId) (length : Nat) (descriptor : Descriptor) :
    Failure → Prop
  /-- The descriptor's length cannot be found, or it cannot be mapped. -/
  | unmappable {reason : Failure} (h : Unmappable store descriptor)
      (hmap : SharedMemory.map store descriptor = .error reason) :
      Refuses store id length descriptor reason
  /-- It stands for memory of no bytes. -/
  | empty {block : Nat} (hdescriptor : descriptor = .memory block) (h : store.size block = 0) :
      Refuses store id length descriptor .receivedEmpty
  /-- The memory is shorter than the entry says, or that is no length of records. -/
  | claimed {block : Nat} (hdescriptor : descriptor = .memory block)
      (hpos : 0 < store.size block) (hle : store.size block ≤ store.machine.mapLimit)
      (h : store.size block < length ∨ length % Layout.alignment ≠ 0) :
      Refuses store id length descriptor (.lengthClaimed id length (store.size block))

/-- The segment of an entry: the first bytes of the memory that the descriptor is one of, as many as
the entry says, mapped for reading only. -/
structure Takes (store : Store) (id : SegmentId) (length : Nat) (descriptor : Descriptor)
    (segment : Segment) : Prop where
  id_eq : segment.id = id
  descriptor_eq : descriptor = .memory segment.mapping.block
  shared_eq : segment.mapping.descriptor = some descriptor
  readOnly : segment.mapping.writable = false
  capacity_eq : segment.capacity = length
  lies : segment.LiesIn store
  toList_data : (segment.data store).toList =
    (store.block segment.mapping.block).toList.take length

/-- The first bytes of a block, mapped for reading only. -/
def received (store : Store) (id : SegmentId) (length block : Nat) : Segment :=
  (Segment.ofMapping id
    ⟨block, store.size block, 0, some (.memory block), false, store.size_lt block⟩).cut length

/-- An entry that its descriptor covers has a segment. -/
theorem Covers.takes {store : Store} {length block : Nat} {descriptor : Descriptor}
    (h : Covers store length descriptor block) (id : SegmentId) :
    Takes store id length descriptor (received store id length block) := by
  obtain ⟨rfl, hpos, hle, hlength, hmod⟩ := h
  have hcapacity : (received store id length block).capacity = length := Nat.min_eq_left hlength
  have hnext : block < store.next := by
    refine Nat.lt_of_not_le fun hge => ?_
    have hnone : store.get? block = none := Array.getElem?_eq_none hge
    rw [Store.size, Store.block, hnone] at hpos
    exact absurd hpos (by decide)
  refine ⟨rfl, rfl, rfl, rfl, hcapacity, ⟨hnext, rfl⟩, ?_⟩
  rw [Segment.data, Extent.toList_ofBlock, hcapacity]

/-- There is a segment for an entry, or a reason why there is none. -/
theorem covers_or_refuses (store : Store) (id : SegmentId) (length : Nat)
    (descriptor : Descriptor) :
    (∃ block, Covers store length descriptor block) ∨
      ∃ reason, Refuses store id length descriptor reason := by
  cases descriptor with
  | memory block =>
    by_cases hpos : store.size block = 0
    · exact Or.inr ⟨_, .empty rfl hpos⟩
    · by_cases hle : store.size block ≤ store.machine.mapLimit
      · by_cases hlength : store.size block < length ∨ length % Layout.alignment ≠ 0
        · exact Or.inr ⟨_, .claimed rfl (Nat.pos_of_ne_zero hpos) hle hlength⟩
        · obtain ⟨hnot, hmod⟩ := not_or.1 hlength
          exact Or.inl ⟨block, rfl, Nat.pos_of_ne_zero hpos, hle, Nat.le_of_not_lt hnot,
            Decidable.not_not.1 hmod⟩
      · have hlarge : store.machine.mapLimit < store.size block := Nat.lt_of_not_le hle
        have hmap : SharedMemory.map store (.memory block) =
            .error (.descriptorUnusable "map memory" .outOfMemory) := by
          rw [SharedMemory.map, if_neg hpos, if_pos hlarge]
        exact Or.inr ⟨_, .unmappable hlarge hmap⟩
  | writeOnly => exact Or.inr ⟨_, .unmappable trivial rfl⟩
  | stream => exact Or.inr ⟨_, .unmappable trivial rfl⟩
  | closed => exact Or.inr ⟨_, .unmappable trivial rfl⟩

/-! ## Tables -/

section Table

variable {store : Store} {table : Bytes} {index block : Nat} {descriptor : Descriptor}
  {reason : Failure}

/-- Both numbers of an entry can be read. -/
theorem read_entry (hbound : index * entrySize + entrySize ≤ table.length) :
    Word.read 8 table (index * entrySize) = .ok (field 8 table (index * entrySize)) ∧
      Word.read 8 table (index * entrySize + 8) = .ok (lengthAt table index) := by
  unfold entrySize at hbound
  exact ⟨read_eq_field (by unfold entrySize; omega), read_eq_field (by unfold entrySize; omega)⟩

/-- Memory that has a length and can be mapped is mapped as a whole. -/
theorem map_memory (hpos : 0 < store.size block) (hle : store.size block ≤ store.machine.mapLimit) :
    SharedMemory.map store (.memory block) =
      .ok ⟨block, store.size block, 0, some (.memory block), false, store.size_lt block⟩ := by
  rw [SharedMemory.map, if_neg (Nat.ne_of_gt hpos), if_neg (Nat.not_lt.2 hle)]

/-- A table with room for entries has room for the first of them, and for the rest. -/
theorem bound_cons {count : Nat} (hbound : (index + (count + 1)) * entrySize ≤ table.length) :
    index * entrySize + entrySize ≤ table.length ∧
      (index + 1 + count) * entrySize ≤ table.length := by
  unfold entrySize at hbound ⊢
  omega

/-- An entry that its descriptor covers has its segment in front of those of the rest. -/
theorem readEntries_of_covers (hbound : index * entrySize + entrySize ≤ table.length)
    (h : Covers store (lengthAt table index) descriptor block) (rest : List Descriptor) :
    readEntries store table (descriptor :: rest) index =
      (readEntries store table rest (index + 1)).map
        (received store (idAt table index) (lengthAt table index) block :: ·) := by
  obtain ⟨rfl, hpos, hle, hlength, hmod⟩ := h
  obtain ⟨hid, hread⟩ := read_entry hbound
  have hclaim : ¬(store.size block < lengthAt table index ∨
      lengthAt table index % Layout.alignment ≠ 0) :=
    not_or.2 ⟨Nat.not_lt.2 hlength, not_not_intro hmod⟩
  have htruncate : (Segment.ofMapping ⟨UInt64.ofNat (field 8 table (index * entrySize))⟩
      ⟨block, store.size block, 0, some (.memory block), false, store.size_lt block⟩).truncate
        (lengthAt table index) =
      .ok (received store (idAt table index) (lengthAt table index) block) :=
    Segment.truncate_eq_cut hlength
  simp only [readEntries, hid, hread, map_memory hpos hle, hclaim, htruncate, ↓reduceIte,
    Outcome.ofFaulty_ok, bind, Except.bind, pure, Except.pure]
  cases readEntries store table rest (index + 1) <;> rfl

/-- An entry that is refused is the reason why there are no segments. -/
theorem readEntries_of_refuses (hbound : index * entrySize + entrySize ≤ table.length)
    (h : Refuses store (idAt table index) (lengthAt table index) descriptor reason)
    (rest : List Descriptor) :
    readEntries store table (descriptor :: rest) index = .error (.failed reason) := by
  obtain ⟨hid, hread⟩ := read_entry hbound
  have hfailed : SharedMemory.map store descriptor = .error reason →
      readEntries store table (descriptor :: rest) index = .error (.failed reason) := by
    intro hmap
    simp only [readEntries, hid, hread, hmap, Outcome.ofFaulty_ok, bind, Except.bind]
    rfl
  cases h with
  | unmappable h hmap => exact hfailed hmap
  | @empty block hdescriptor h =>
    refine hfailed ?_
    rw [hdescriptor, SharedMemory.map, if_pos h]
  | @claimed block hdescriptor hpos hle h =>
    subst hdescriptor
    simp only [readEntries, hid, hread, map_memory hpos hle, h, ↓reduceIte, Outcome.ofFaulty_ok,
      bind, Except.bind, pure, Except.pure]
    rfl

/-- Descriptors that cover their entries make for a segment each. -/
theorem readEntries_of_forall {descriptors : List Descriptor}
    (hbound : (index + descriptors.length) * entrySize ≤ table.length)
    (h : ∀ i d, descriptors[i]? = some d →
      ∃ block, Covers store (lengthAt table (index + i)) d block) :
    ∃ segments, readEntries store table descriptors index = .ok segments ∧
      segments.length = descriptors.length ∧
      ∀ i d, descriptors[i]? = some d → ∃ segment, segments[i]? = some segment ∧
        Takes store (idAt table (index + i)) (lengthAt table (index + i)) d segment := by
  induction descriptors generalizing index with
  | nil => exact ⟨[], rfl, rfl, fun i d hget => absurd hget (by simp)⟩
  | cons descriptor rest ih =>
    rw [List.length_cons] at hbound
    obtain ⟨hfirst, hrest⟩ := bound_cons hbound
    obtain ⟨block, hcovers⟩ := h 0 descriptor rfl
    obtain ⟨segments, hread, hlength, htakes⟩ := ih hrest fun i d hget => by
      rw [Nat.add_assoc, Nat.add_comm 1 i]
      exact h (i + 1) d hget
    refine ⟨received store (idAt table index) (lengthAt table index) block :: segments, ?_, ?_, ?_⟩
    · rw [readEntries_of_covers hfirst hcovers, hread]
      rfl
    · rw [List.length_cons, List.length_cons, hlength]
    · intro i d hget
      cases i with
      | zero =>
        obtain rfl : descriptor = d := Option.some.inj hget
        exact ⟨_, rfl, hcovers.takes _⟩
      | succ i =>
        obtain ⟨segment, hsegment, htake⟩ := htakes i d hget
        rw [Nat.add_assoc, Nat.add_comm 1 i] at htake
        exact ⟨segment, hsegment, htake⟩

/-- The first entry that is refused is the reason why there are no segments. -/
theorem readEntries_of_first {descriptors : List Descriptor}
    (hbound : (index + descriptors.length) * entrySize ≤ table.length) {i : Nat}
    (hget : descriptors[i]? = some descriptor)
    (hbefore : ∀ j < i, ∀ d, descriptors[j]? = some d →
      ∃ block, Covers store (lengthAt table (index + j)) d block)
    (h : Refuses store (idAt table (index + i)) (lengthAt table (index + i)) descriptor reason) :
    readEntries store table descriptors index = .error (.failed reason) := by
  induction descriptors generalizing index i with
  | nil => exact absurd hget (by simp)
  | cons first rest ih =>
    rw [List.length_cons] at hbound
    obtain ⟨hfirst, hrest⟩ := bound_cons hbound
    cases i with
    | zero =>
      obtain rfl : first = descriptor := Option.some.inj hget
      exact readEntries_of_refuses hfirst h rest
    | succ i =>
      obtain ⟨block, hcovers⟩ := hbefore 0 (Nat.succ_pos i) first rfl
      have hplace : ∀ j, index + (j + 1) = index + 1 + j := fun j => by omega
      rw [hplace] at h
      have hfailed := ih hrest hget (fun j hj d hd => by
        rw [← hplace]
        exact hbefore (j + 1) (Nat.succ_lt_succ hj) d hd) h
      rw [readEntries_of_covers hfirst hcovers, hfailed]
      rfl

end Table

/-! ## Messages -/

/-- The message has a header, and as much behind it as the header says. -/
structure Framed (m : Message) : Prop where
  header_le : headerSize ≤ m.data.length
  count_le : m.count ≤ segmentLimit
  length_eq : m.data.length = headerSize + m.count * entrySize
  descriptors_eq : m.descriptors.length = m.count
  checksum_eq : (Checksum.crc32 m.table).toNat = m.checksum

/-- The message is framed, and its descriptors cover the entries. -/
structure WellFormed (m : Message) (store : Store) : Prop where
  framed : m.Framed
  covers : ∀ i descriptor, m.descriptors[i]? = some descriptor →
    ∃ block, Covers store (lengthAt m.table i) descriptor block

/-- The first thing that is wrong with a message that is not framed. -/
inductive Misframed (m : Message) : Failure → Prop
  | tooShort (h : m.data.length < headerSize) : Misframed m (.messageTooShort m.data.length)
  | misshapen (hheader : headerSize ≤ m.data.length)
      (h : segmentLimit < m.count ∨ m.data.length ≠ headerSize + m.count * entrySize) :
      Misframed m (.messageMisshapen m.data.length m.count)
  | descriptorCount (hheader : headerSize ≤ m.data.length) (hcount : m.count ≤ segmentLimit)
      (hlength : m.data.length = headerSize + m.count * entrySize)
      (h : m.descriptors.length ≠ m.count) :
      Misframed m (.descriptorCount m.count m.descriptors.length)
  | tableCorrupt (hheader : headerSize ≤ m.data.length) (hcount : m.count ≤ segmentLimit)
      (hlength : m.data.length = headerSize + m.count * entrySize)
      (hdescriptors : m.descriptors.length = m.count)
      (h : (Checksum.crc32 m.table).toNat ≠ m.checksum) :
      Misframed m (.tableCorrupt (field 8 m.data senderOffset))

/-- The entry is the first that its descriptor does not cover. -/
structure StopsAt (m : Message) (store : Store) (i : Nat) (descriptor : Descriptor) : Prop where
  framed : m.Framed
  get_eq : m.descriptors[i]? = some descriptor
  before : ∀ j < i, ∀ other, m.descriptors[j]? = some other →
    ∃ block, Covers store (lengthAt m.table j) other block

/-- The first thing that is wrong with a message. -/
inductive Rejected (m : Message) (store : Store) : Failure → Prop
  | frame {reason : Failure} (h : m.Misframed reason) : Rejected m store reason
  | entry {i : Nat} {descriptor : Descriptor} {reason : Failure} (h : m.StopsAt store i descriptor)
      (hrefuses : Refuses store (idAt m.table i) (lengthAt m.table i) descriptor reason) :
      Rejected m store reason

variable {m : Message} {store : Store} {reason : Failure}

theorem Misframed.kind_eq (h : m.Misframed reason) : reason.kind = .wire := by
  cases h <;> rfl

theorem framed_or_misframed (m : Message) : m.Framed ∨ ∃ reason, m.Misframed reason := by
  by_cases hheader : headerSize ≤ m.data.length
  · by_cases hshape : segmentLimit < m.count ∨ m.data.length ≠ headerSize + m.count * entrySize
    · exact Or.inr ⟨_, .misshapen hheader hshape⟩
    · obtain ⟨hcount, hlength⟩ := not_or.1 hshape
      have hcount := Nat.le_of_not_lt hcount
      have hlength := Decidable.not_not.1 hlength
      by_cases hdescriptors : m.descriptors.length = m.count
      · by_cases hchecksum : (Checksum.crc32 m.table).toNat = m.checksum
        · exact Or.inl ⟨hheader, hcount, hlength, hdescriptors, hchecksum⟩
        · exact Or.inr ⟨_, .tableCorrupt hheader hcount hlength hdescriptors hchecksum⟩
      · exact Or.inr ⟨_, .descriptorCount hheader hcount hlength hdescriptors⟩
  · exact Or.inr ⟨_, .tooShort (Nat.lt_of_not_le hheader)⟩

/-- A message is well-formed, or something is wrong with it. -/
theorem wellFormed_or_rejected (m : Message) (store : Store) :
    m.WellFormed store ∨ ∃ reason, m.Rejected store reason := by
  rcases m.framed_or_misframed with hframed | ⟨reason, h⟩
  · by_cases hall : ∀ i descriptor, m.descriptors[i]? = some descriptor →
        ∃ block, Covers store (lengthAt m.table i) descriptor block
    · exact Or.inl ⟨hframed, hall⟩
    · -- of the entries that are not covered, the first counts
      have hsome : ∃ i, ∃ descriptor, m.descriptors[i]? = some descriptor ∧
          ¬∃ block, Covers store (lengthAt m.table i) descriptor block := by
        simpa only [not_forall, exists_prop] using hall
      classical
      obtain ⟨descriptor, hget, hnot⟩ := Nat.find_spec hsome
      have hstops : m.StopsAt store (Nat.find hsome) descriptor := by
        refine ⟨hframed, hget, fun j hj other hother => ?_⟩
        by_contra hcovers
        exact Nat.find_min hsome hj ⟨other, hother, hcovers⟩
      rcases covers_or_refuses store (idAt m.table (Nat.find hsome))
          (lengthAt m.table (Nat.find hsome)) descriptor with hcovers | ⟨reason, hrefuses⟩
      · exact absurd hcovers hnot
      · exact Or.inr ⟨reason, .entry hstops hrefuses⟩
  · exact Or.inr ⟨reason, .frame h⟩

/-- All parts of the header can be read, if the message is long enough for one. -/
theorem read_header (hheader : headerSize ≤ m.data.length) :
    Word.read 8 m.data senderOffset = .ok (field 8 m.data senderOffset) ∧
      Word.read 4 m.data countOffset = .ok m.count ∧
      Word.read 4 m.data checksumOffset = .ok m.checksum ∧
      Word.suffix m.data headerSize = .ok m.table :=
  ⟨read_eq_field (Nat.le_trans (by decide) hheader),
    read_eq_field (Nat.le_trans (by decide) hheader),
    read_eq_field (Nat.le_trans (by decide) hheader), if_neg (Nat.not_lt.2 hheader)⟩

/-- What is read of a message that is framed. -/
theorem read_of_framed (h : m.Framed) (store : Store) :
    m.read store = (readEntries store m.table m.descriptors 0).map (m.sender, ·) := by
  have hheader := h.header_le
  obtain ⟨hsender, hcount, hchecksum, htable⟩ := read_header hheader
  have hshape : ¬(segmentLimit < m.count ∨ m.data.length ≠ headerSize + m.count * entrySize) :=
    not_or.2 ⟨Nat.not_lt.2 h.count_le, not_not_intro h.length_eq⟩
  simp only [read, Nat.not_lt.2 hheader, hsender, hcount, hchecksum, hshape, h.descriptors_eq,
    htable, h.checksum_eq, ↓reduceIte, Outcome.ofFaulty_ok, bind, Except.bind, pure, Except.pure,
    ne_eq, not_true_eq_false]
  cases readEntries store m.table m.descriptors 0 <;> rfl

/-- What is wrong with a message that is not framed is the reason why nothing is read. -/
theorem read_of_misframed (h : m.Misframed reason) (store : Store) :
    m.read store = .error (.failed reason) := by
  cases h with
  | tooShort h =>
    simp only [read, h, ↓reduceIte]
    rfl
  | misshapen hheader h =>
    obtain ⟨hsender, hcount, hchecksum, htable⟩ := read_header hheader
    simp only [read, Nat.not_lt.2 hheader, hsender, hcount, hchecksum, h, ↓reduceIte,
      Outcome.ofFaulty_ok, bind, Except.bind, pure, Except.pure]
    rfl
  | descriptorCount hheader hle hlength h =>
    obtain ⟨hsender, hcount, hchecksum, htable⟩ := read_header hheader
    simp only [read, Nat.not_lt.2 hheader, hsender, hcount, hchecksum, Nat.not_lt.2 hle, ← hlength,
      h, ↓reduceIte, Outcome.ofFaulty_ok, bind, Except.bind, pure, Except.pure, ne_eq,
      not_true_eq_false, or_self, not_false_eq_true]
    rfl
  | tableCorrupt hheader hle hlength hdescriptors h =>
    obtain ⟨hsender, hcount, hchecksum, htable⟩ := read_header hheader
    simp only [read, Nat.not_lt.2 hheader, hsender, hcount, hchecksum, Nat.not_lt.2 hle, ← hlength,
      hdescriptors, htable, h, ↓reduceIte, Outcome.ofFaulty_ok, bind, Except.bind, pure,
      Except.pure, ne_eq, not_true_eq_false, or_self, not_false_eq_true]
    rfl

/-- A framed message has a table of as many entries as it has descriptors. -/
theorem Framed.bound (h : m.Framed) : (0 + m.descriptors.length) * entrySize ≤ m.table.length := by
  rw [Nat.zero_add, h.descriptors_eq, table, List.length_drop, h.length_eq, Nat.add_sub_cancel_left]

/-- What is wrong with a message is the reason why nothing is read. -/
theorem read_of_rejected (h : m.Rejected store reason) :
    m.read store = .error (.failed reason) := by
  cases h with
  | frame h => exact read_of_misframed h store
  | @entry i descriptor _ h hrefuses =>
    rw [← Nat.zero_add i] at hrefuses
    have hbefore : ∀ j < i, ∀ d, m.descriptors[j]? = some d →
        ∃ block, Covers store (lengthAt m.table (0 + j)) d block := by
      intro j hj d hd
      rw [Nat.zero_add]
      exact h.before j hj d hd
    rw [read_of_framed h.framed, readEntries_of_first h.framed.bound h.get_eq hbefore hrefuses]
    rfl

theorem Rejected.unique {reason' : Failure} (h : m.Rejected store reason)
    (h' : m.Rejected store reason') : reason' = reason := by
  have heq := (read_of_rejected h').symm.trans (read_of_rejected h)
  exact Halt.failed.inj (Except.error.inj heq)

/-- A well-formed message names its sender, and there is a segment for each of its entries. -/
theorem read_of_wellFormed (h : m.WellFormed store) :
    ∃ segments, m.read store = .ok (m.sender, segments) ∧ segments.length = m.count ∧
      ∀ i descriptor, m.descriptors[i]? = some descriptor → ∃ segment,
        segments[i]? = some segment ∧
          Takes store (idAt m.table i) (lengthAt m.table i) descriptor segment := by
  have hcovers : ∀ i d, m.descriptors[i]? = some d →
      ∃ block, Covers store (lengthAt m.table (0 + i)) d block := by
    intro i d hd
    rw [Nat.zero_add]
    exact h.covers i d hd
  obtain ⟨segments, hread, hlength, htakes⟩ := readEntries_of_forall h.framed.bound hcovers
  refine ⟨segments, ?_, hlength.trans h.framed.descriptors_eq, ?_⟩
  · rw [read_of_framed h.framed, hread]
    rfl
  · intro i d hd
    have htake := htakes i d hd
    rwa [Nat.zero_add] at htake

/-- The first thing that is wrong with the message is that a descriptor has no length, or cannot be
mapped. -/
def Unmapped (m : Message) (store : Store) : Prop :=
  ∃ i descriptor, m.StopsAt store i descriptor ∧ Unmappable store descriptor

/-- The operating system says why a descriptor cannot be mapped. -/
theorem Unmappable.exists_reason {descriptor : Descriptor} (h : Unmappable store descriptor) :
    ∃ reason, SharedMemory.map store descriptor = .error reason ∧ reason.kind = .io := by
  cases descriptor with
  | memory block =>
    have hlarge : store.machine.mapLimit < store.size block := h
    refine ⟨.descriptorUnusable "map memory" .outOfMemory, ?_, rfl⟩
    rw [SharedMemory.map, if_neg (Nat.ne_of_gt (Nat.zero_lt_of_lt hlarge)), if_pos hlarge]
  | writeOnly => exact ⟨_, rfl, rfl⟩
  | stream => exact ⟨_, rfl, rfl⟩
  | closed => exact ⟨_, rfl, rfl⟩

/-- It is the operating system that refuses a message, or it does not say what it should. -/
theorem Rejected.kind_eq (h : m.Rejected store reason) :
    (m.Unmapped store → reason.kind = .io) ∧ (¬m.Unmapped store → reason.kind = .wire) := by
  constructor
  · rintro ⟨i, descriptor, hstops, hunmappable⟩
    obtain ⟨other, hmap, hkind⟩ := hunmappable.exists_reason
    rw [← h.unique (.entry hstops (.unmappable hunmappable hmap))]
    exact hkind
  · intro hnot
    cases h with
    | frame h => exact h.kind_eq
    | entry h hrefuses =>
      cases hrefuses with
      | unmappable hunmappable hmap => exact absurd ⟨_, _, h, hunmappable⟩ hnot
      | empty hdescriptor hempty => rfl
      | claimed hdescriptor hpos hle hclaimed => rfl

end Message

namespace Tape

/-- Just the well-formed messages are taken. The tape is one over the segments that the message
describes, with nothing else on it. The first thing that is wrong with another message is the reason
why it is not taken, which is the operating system's if that is a descriptor that has no length or
cannot be mapped. No message makes for a fault. -/
theorem receive_accepts (m : Message) (s : Session σ) :
    let taken := receive m s
    ((∃ result, taken.1 = .ok result) ↔ m.WellFormed s.store) ∧
    (∀ sender tape, taken.1 = .ok (sender, tape) → sender = m.sender ∧
      ∃ segments, tape = ofSegments segments ∧ segments.length = m.count ∧
        ∀ i descriptor, m.descriptors[i]? = some descriptor → ∃ segment,
          segments[i]? = some segment ∧ Message.Takes s.store (Message.idAt m.table i)
            (Message.lengthAt m.table i) descriptor segment) ∧
    (¬m.WellFormed s.store → ∃ reason, taken.1 = .error (.failed reason) ∧
      m.Rejected s.store reason ∧ (∀ other, m.Rejected s.store other → other = reason) ∧
      (m.Unmapped s.store → reason.kind = .io) ∧ (¬m.Unmapped s.store → reason.kind = .wire)) ∧
    ∀ f, taken.1 ≠ .error (.fault f) := by
  intro taken
  rcases m.wellFormed_or_rejected s.store with h | ⟨reason, h⟩
  · obtain ⟨segments, hread, hlength, htakes⟩ := Message.read_of_wellFormed h
    have htaken : taken.1 = .ok (m.sender, ofSegments segments) := by
      simp only [taken, receive, hread]
    rw [htaken]
    refine ⟨⟨fun _ => h, fun _ => ⟨_, rfl⟩⟩, ?_, fun hnot => absurd h hnot, fun f => nofun⟩
    rintro sender tape hok
    obtain ⟨rfl, rfl⟩ := Prod.mk.inj (Except.ok.inj hok)
    exact ⟨rfl, segments, rfl, hlength, htakes⟩
  · have hread := Message.read_of_rejected h
    have htaken : taken.1 = .error (.failed reason) := by
      simp only [taken, receive, hread]
    have hnot : ¬m.WellFormed s.store := by
      intro hwell
      obtain ⟨segments, hok, -⟩ := Message.read_of_wellFormed hwell
      exact absurd (hok.symm.trans hread) nofun
    rw [htaken]
    refine ⟨⟨nofun, fun hwell => absurd hwell hnot⟩, nofun, fun _ => ?_, fun f => nofun⟩
    exact ⟨reason, rfl, h, fun other => h.unique, h.kind_eq⟩

end Tape

end CommandTape
