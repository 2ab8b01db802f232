import CommandTape.Proofs.Packing
import CommandTape.Proofs.Unchanged

/-!
# When no segment can be had

A segment may be too much for memory, or for the operating system, which may not like the name of
shared memory either. What recording an item then comes to is known beforehand, for tapes with
memory of their own (`Tape.ownOutcome`) and for tapes in shared memory (`SharedMemory.outcome`): it
is reported, and nothing was touched (`Tape.Reports`). The one exception are clients whose capacity,
rounded up, is within eight bytes of the end of the range of sizes: they are made, and then asking
them for a segment is a fault, as its size is rounded up once more. The invariant that leads there
is `TapeState.Guarded`.
-/

namespace CommandTape

variable {σ : Type}

/-! ## Shared memory -/

/-- The client supplies shared memory of the machine under the name, and was made for the
capacity. -/
def WritingClient.IsShared (client : WritingClient σ) (machine : Machine) (name : String)
    (capacity : Nat) : Prop :=
  ∃ encode, SharedMemory.client machine name capacity encode = .ok client

namespace SharedMemory

/-- The name is one for shared memory, and memory of that size can be mapped. -/
def Creatable (machine : Machine) (name : String) (size : Nat) : Prop :=
  (Utf8.encode name).contains 0 = false ∧ (Utf8.encode name).length ≤ nameLimit ∧
    size ≤ machine.mapLimit

instance (machine : Machine) (name : String) (size : Nat) :
    Decidable (Creatable machine name size) :=
  inferInstanceAs (Decidable (_ ∧ _ ∧ _))

theorem exists_create {machine : Machine} {name : String} {size : Nat} (hpos : 0 < size)
    (h : Creatable machine name size) : ∃ block, create machine name size = .ok block := by
  obtain ⟨hzero, hlength, hsize⟩ := h
  have hlt := Nat.lt_of_le_of_lt hsize machine.mapLimit_lt
  unfold create
  simp only [Nat.ne_of_gt hpos, hzero, Nat.not_lt.2 hlength, hlt, Nat.not_lt.2 hsize, ↓reduceIte,
    ↓reduceDIte, Bool.false_eq_true]
  exact ⟨_, rfl⟩

theorem creatable_of_create {machine : Machine} {name : String} {size : Nat} {block : Block}
    (h : create machine name size = .ok block) : Creatable machine name size := by
  obtain ⟨-, hpos, hle⟩ := create_eq_ok h
  unfold create at h
  dsimp only at h
  rw [if_neg (Nat.ne_of_gt hpos)] at h
  split at h
  · cases h
  · rename_i hzero
    split at h
    · cases h
    · rename_i hlength
      exact ⟨Bool.eq_false_iff.2 hzero, Nat.le_of_not_lt hlength, hle⟩

/-- The size of a segment of at least `size` bytes, from a client that was made for the capacity. -/
def sizeFor (capacity size : Nat) : Nat :=
  max size (Layout.roundUp (max capacity Layout.alignment))

/-- How it ends if such a segment is needed for a record of `size` bytes. -/
def outcome (machine : Machine) (name : String) (capacity size : Nat) : Outcome Failure Unit :=
  if Word.limit ≤ sizeFor capacity size + 8 then .error (.fault .overflow)
  else if Creatable machine name (sizeFor capacity size) then .ok ()
  else .error (.failed (.clientRefused size))

theorem sizeFor_mod (capacity : Nat) {size : Nat} (hmod : size % 8 = 0) :
    sizeFor capacity size % 8 = 0 := by
  have hround := Layout.roundUp_mod (max capacity Layout.alignment)
  unfold sizeFor
  omega

theorem sizeFor_pos (capacity size : Nat) : 0 < sizeFor capacity size := by
  have hround := Layout.le_roundUp (max capacity Layout.alignment)
  unfold Layout.alignment at hround
  unfold sizeFor Layout.alignment
  omega

section

variable {machine : Machine} {name : String} {capacity size : Nat}
  {encode : View → σ → Except Fault (Option Bytes) × σ} {made : WritingClient σ}

theorem supply_of_overflow (h : client machine name capacity encode = .ok made)
    (hle : Word.limit ≤ sizeFor capacity size + 8) (next : SegmentId) (state : σ) :
    made.supply size next state = (.error .overflow, state) := by
  have hround : Word.alignUp (max size (Layout.roundUp (max capacity Layout.alignment))) =
      .error .overflow := Word.alignUp_of_le hle
  rw [supply_client h]
  simp only [supply, hround]

/-- Rounding the size up once more leaves it as it is. -/
theorem alignUp_sizeFor (hmod : size % 8 = 0) (hlt : sizeFor capacity size + 8 < Word.limit) :
    Word.alignUp (max size (Layout.roundUp (max capacity Layout.alignment))) =
      .ok (sizeFor capacity size) :=
  (Word.alignUp_of_lt hlt).trans
    (congrArg Except.ok (Layout.roundUp_eq_self (sizeFor_mod capacity hmod)))

/-- A client supplies what can be made. -/
theorem hasMemory_of_creatable (h : client machine name capacity encode = .ok made)
    (hmod : size % 8 = 0) (hlt : sizeFor capacity size + 8 < Word.limit)
    (hcreatable : Creatable machine name (sizeFor capacity size)) : made.HasMemory size := by
  intro next state
  obtain ⟨block, hcreate⟩ := exists_create (sizeFor_pos capacity size) hcreatable
  rw [supply_client h]
  simp only [supply, alignUp_sizeFor hmod hlt, hcreate]
  exact ⟨_, _, _, rfl, rfl⟩

/-- And it has nothing to offer if it cannot. -/
theorem supply_of_not_creatable (h : client machine name capacity encode = .ok made)
    (hmod : size % 8 = 0) (hlt : sizeFor capacity size + 8 < Word.limit)
    (hcreatable : ¬Creatable machine name (sizeFor capacity size)) (next : SegmentId) (state : σ) :
    ∃ notices, made.supply size next state =
      (.ok { offer := none, notices := notices }, state) := by
  rw [supply_client h]
  rcases hcreate : create machine name (sizeFor capacity size) with reason | block
  · simp only [supply, alignUp_sizeFor hmod hlt, hcreate]
    exact ⟨_, rfl⟩
  · exact absurd (creatable_of_create hcreate) hcreatable

/-- What asking for a segment comes to. -/
theorem outcome_supplied (h : client machine name capacity encode = .ok made) (hmod : size % 8 = 0)
    (s : Session σ) :
    (Tape.supplied made size s).1.map (fun _ => ()) = outcome machine name capacity size := by
  unfold outcome
  by_cases hle : Word.limit ≤ sizeFor capacity size + 8
  · rw [if_pos hle]
    simp only [Tape.supplied, supply_of_overflow h hle, Except.map]
  have hlt := Nat.lt_of_not_le hle
  rw [if_neg hle]
  by_cases hcreatable : Creatable machine name (sizeFor capacity size)
  · have hmemory := hasMemory_of_creatable h hmod hlt hcreatable
    obtain ⟨segment, s', hsupplied⟩ :=
      Tape.HasShared.supplied_eq_ok_of_hasMemory (offersShared_client h) hmemory s
    rw [if_pos hcreatable, hsupplied]
    rfl
  · obtain ⟨notices, hsupply⟩ :=
      supply_of_not_creatable h hmod hlt hcreatable s.nextId s.clients
    rw [if_neg hcreatable]
    simp only [Tape.supplied, hsupply, Except.map]

/-- A fault means that the capacity, rounded up, is at the end of the range. -/
theorem limit_le_of_outcome_fault (hlt : size + 8 < Word.limit) {f : Fault}
    (h : outcome machine name capacity size = .error (.fault f)) :
    f = .overflow ∧ Word.limit ≤ Layout.roundUp (max capacity Layout.alignment) + 8 := by
  unfold outcome at h
  split at h
  · rename_i hle
    refine ⟨(Halt.fault.inj (Except.error.inj h)).symm, ?_⟩
    unfold sizeFor at hle
    omega
  · split at h <;> cases h

theorem kind_of_outcome_failed {reason : Failure}
    (h : outcome machine name capacity size = .error (.failed reason)) :
    reason.kind = .segmentAllocation := by
  unfold outcome at h
  split at h
  · cases h
  · split at h
    · cases h
    · rw [← Halt.failed.inj (Except.error.inj h)]
      rfl

end

end SharedMemory

/-! ## Memory of a tape's own -/

namespace Tape

variable {tape : Tape σ} {s : Session σ} {c : Contents} {item : Item} {machine : Machine}
  {size : Nat} {r : Recorded}

/-- How it ends on a machine if a tape without a client needs a segment for a record of `size`
bytes. -/
def ownOutcome (tape : Tape σ) (machine : Machine) (size : Nat) : Outcome Failure Unit :=
  if max size tape.segmentCapacity < machine.heapLimit then .ok ()
  else .error (.failed (.memoryExhausted (max size tape.segmentCapacity)))

theorem ownOutcome_ne_fault (f : Fault) : tape.ownOutcome machine size ≠ .error (.fault f) := by
  unfold ownOutcome
  split <;> simp

theorem kind_of_ownOutcome_failed {reason : Failure}
    (h : tape.ownOutcome machine size = .error (.failed reason)) :
    reason.kind = .segmentAllocation := by
  unfold ownOutcome at h
  split at h
  · cases h
  · rw [← Halt.failed.inj (Except.error.inj h)]
    rfl

theorem outcome_allocated (hmod : size % 8 = 0)
    (hcapacity : tape.segmentCapacity % Layout.alignment = 0) (s : Session σ) :
    (allocated (max size tape.segmentCapacity) s).1.map (fun _ => ()) =
      tape.ownOutcome s.store.machine size := by
  have heven : ¬max size tape.segmentCapacity % Layout.alignment ≠ 0 :=
    not_not_intro (max_capacity_mod hcapacity hmod)
  have hlimit := s.store.machine.heapLimit_lt
  unfold ownOutcome allocated Session.allocate
  rw [if_neg heven]
  by_cases hlt : max size tape.segmentCapacity < s.store.machine.heapLimit
  · rw [dif_pos ⟨Nat.lt_trans hlt hlimit, hlt⟩, if_pos hlt]
    rfl
  · rw [dif_neg fun h => hlt h.2, if_neg hlt]
    rfl

/-! ## Asking for a segment -/

theorem add_lt_limit_of_recordOf (hrecord : tape.recordOf item s = some r) :
    r.size + 8 < Word.limit := by
  have hsize := size_lt_of_recordOf hrecord
  unfold Layout.memoryLimit at hsize
  unfold Word.limit
  omega

/-- The segment that is written to leaves a page of what memory takes. -/
def WritesToSmall (tape : Tape σ) : Prop :=
  ∀ segment ∈ tape.writable, segment.capacity + Layout.pageSize ≤ Layout.memoryLimit

/-- The client, if there is one, is one for shared memory of the machine. -/
def WriterShared (tape : Tape σ) (machine : Machine) : Prop :=
  ∀ client ∈ tape.writer, ∃ name capacity, client.IsShared machine name capacity

/-- What a record comes to that there is no room for is what asking for a segment comes to. -/
theorem tryAppend_of_lacksRoom (h : tape.Ready s.store c) (hsmall : tape.WritesToSmall)
    (hfits : item.kind.fits = true) (hrecord : tape.recordOf item s = some r)
    (hlacks : tape.LacksRoom r.size) :
    (tape.tryAppend item s).1 =
      (tape.createSegment r.size (tape.readied item s)).1.map (fun _ => ()) := by
  have hroom : tape.hasRoom r.size = .ok false := by
    refine hasRoom_of_lacksRoom hlacks fun segment hwritable => ?_
    have hwritten := h.has.measured.written_le segment hwritable
    have hcapacity := hsmall segment hwritable
    have hsize := size_lt_of_recordOf hrecord
    unfold Layout.memoryLimit at hcapacity hsize
    unfold Layout.pageSize at hcapacity
    unfold Word.limit
    omega
  rcases hcreate : tape.createSegment r.size (tape.readied item s) with ⟨h' | segment, s₁⟩
  · have hreserve : tape.reserve r.size (tape.readied item s) = (.error h', tape, s₁) := by
      simp only [Tape.reserve, makeRoom, hroom, hcreate]
    obtain ⟨s', htry, -, -⟩ := tryAppend_of_reserve_error hfits hrecord hreserve
    rw [htry]
    rfl
  · have hrecords := h.records hfits hrecord
    generalize tape.tryAppend item s = result at hrecords
    cases hrecords with
    | tooLarge h' s' hlarge hplace hkept =>
      -- the segment was large enough
      rcases tape.createSegment_cases r.size (tape.readied item s) with
        ⟨h'', t, heq, -⟩ | ⟨other, t, heq, -, hsize, -⟩
      · cases hcreate.symm.trans heq
      · have hcap := other.capacity_le
        have hmap := other.mapping.length_lt
        omega
    | refused h' s₂ s' hlacks' hcreate' hplace hstore hclients =>
      cases hcreate.symm.trans hcreate'
    | here last chapter hroom' hc hfits' hplace hsame hhas => exact absurd hlacks hroom'
    | turned last s₂ s' other hlacks' hcreate' hstore hclients hfits' hwritable hplace hsame hhas =>
      rfl

theorem tryAppend_of_not_lacksRoom (h : tape.Ready s.store c) (hfits : item.kind.fits = true)
    (hrecord : tape.recordOf item s = some r) (hroom : ¬tape.LacksRoom r.size) :
    (tape.tryAppend item s).1 = .ok () := by
  have hrecords := h.records hfits hrecord
  generalize tape.tryAppend item s = result at hrecords
  cases hrecords with
  | tooLarge h' s' hlarge hplace hkept =>
    refine absurd (fun segment _ => ?_) hroom
    have hcap := segment.capacity_le
    have hmap := segment.mapping.length_lt
    omega
  | refused h' s₁ s' hlacks hcreate hplace hstore hclients => exact absurd hlacks hroom
  | here last chapter hroom' hc hfits' hplace hsame hhas => rfl
  | turned last s₁ s' segment hlacks hcreate hstore hclients hfits' hwritable hplace hsame hhas =>
    exact absurd hlacks hroom

/-! ## What is reported -/

section

variable (h : tape.Ready s.store c) (hsmall : tape.WritesToSmall) (hfits : item.kind.fits = true)

include h hfits

/-- A tape that turns to nothing but segments that may be written to is untouched when it turns to
none. -/
theorem Ready.untouched_of_error {h' : Halt Failure}
    (hout : (tape.tryAppend item s).1 = .error h') :
    tape.Untouched (tape.tryAppend item s).2.1 s.store (tape.tryAppend item s).2.2.store := by
  cases hrecord : tape.recordOf item s with
  | none =>
    obtain ⟨htape, hstore, -, -⟩ := tryAppend_of_no_record hfits hrecord
    rw [htape]
    exact h.has.untouched (hstore ▸ .refl _)
  | some r =>
    have hrecords := h.records hfits hrecord
    generalize tape.tryAppend item s = result at hout hrecords
    cases hrecords with
    | tooLarge h' s' hlarge hplace hkept => exact h.has.untouched hkept
    | refused h' s₁ s' hlacks hcreate hplace hstore hclients =>
      exact h.has.untouched (hstore ▸ kept_of_createSegment hcreate)
    | here last chapter hroom hc hfits' hplace hsame hhas => cases hout
    | turned last s₁ s' segment hlacks hcreate hstore hclients hfits' hwritable hplace hsame
        hhas => cases hout

include hsmall

theorem Ready.tryAppend_of_own (hrecord : tape.recordOf item s = some r)
    (hlacks : tape.LacksRoom r.size) (hwriter : tape.writer = none) :
    (tape.tryAppend item s).1 = tape.ownOutcome s.store.machine r.size := by
  rw [tryAppend_of_lacksRoom h hsmall hfits hrecord hlacks,
    createSegment_of_no_writer hwriter r.size_mod (add_lt_limit_of_recordOf hrecord),
    outcome_allocated r.size_mod h.capacity_mod, store_readied]

theorem Ready.tryAppend_of_shared (hrecord : tape.recordOf item s = some r)
    (hlacks : tape.LacksRoom r.size) {client : WritingClient σ}
    (hwriter : tape.writer = some client) {name : String} {capacity : Nat}
    (hclient : client.IsShared s.store.machine name capacity) :
    (tape.tryAppend item s).1 = SharedMemory.outcome s.store.machine name capacity r.size := by
  obtain ⟨encode, hmade⟩ := hclient
  rw [tryAppend_of_lacksRoom h hsmall hfits hrecord hlacks,
    createSegment_of_writer hwriter r.size_mod (add_lt_limit_of_recordOf hrecord),
    SharedMemory.outcome_supplied hmade r.size_mod]

/-- What is not recorded was refused a segment. -/
theorem Ready.refused_of_error (hshared : tape.WriterShared s.store.machine)
    (hrecord : tape.recordOf item s = some r) {h' : Halt Failure}
    (hout : (tape.tryAppend item s).1 = .error h') :
    tape.ownOutcome s.store.machine r.size = .error h' ∨ ∃ client ∈ tape.writer, ∃ name capacity,
      client.IsShared s.store.machine name capacity ∧
        SharedMemory.outcome s.store.machine name capacity r.size = .error h' := by
  by_cases hlacks : tape.LacksRoom r.size
  · cases hwriter : tape.writer with
    | none =>
      exact Or.inl ((h.tryAppend_of_own hsmall hfits hrecord hlacks hwriter).symm.trans hout)
    | some client =>
      obtain ⟨name, capacity, hclient⟩ := hshared client hwriter
      have houtcome := h.tryAppend_of_shared hsmall hfits hrecord hlacks hwriter hclient
      exact Or.inr ⟨client, rfl, name, capacity, hclient, houtcome.symm.trans hout⟩
  · cases (tryAppend_of_not_lacksRoom h hfits hrecord hlacks).symm.trans hout

end

/-- What recording an item comes to is reported, unless the encoder gives up or the client's
capacity is at the end of the range of sizes, and an item that is not recorded leaves nothing
behind. -/
structure Reports (tape : Tape σ) (item : Item) (s : Session σ) : Prop where
  untouched : ∀ h, (tape.tryAppend item s).1 = .error h →
    tape.Untouched (tape.tryAppend item s).2.1 s.store (tape.tryAppend item s).2.2.store
  of_fault : ∀ f, (tape.tryAppend item s).1 = .error (.fault f) → ∃ client ∈ tape.writer,
    (blobFor client item s).1 = .error f ∨
    f = .overflow ∧ ∃ name capacity, client.IsShared s.store.machine name capacity ∧
      Word.limit ≤ Layout.roundUp (max capacity Layout.alignment) + 8
  of_room : ∀ r ∈ tape.recordOf item s, ¬tape.LacksRoom r.size →
    (tape.tryAppend item s).1 = .ok ()
  of_own : ∀ r ∈ tape.recordOf item s, tape.LacksRoom r.size → tape.writer = none →
    (tape.tryAppend item s).1 = tape.ownOutcome s.store.machine r.size
  of_shared : ∀ r ∈ tape.recordOf item s, tape.LacksRoom r.size → ∀ client ∈ tape.writer,
    ∀ name capacity, client.IsShared s.store.machine name capacity →
      (tape.tryAppend item s).1 = SharedMemory.outcome s.store.machine name capacity r.size
  kind_eq : ∀ r ∈ tape.recordOf item s, ∀ reason,
    (tape.tryAppend item s).1 = .error (.failed reason) → reason.kind = .segmentAllocation

theorem Ready.reports (h : tape.Ready s.store c) (hsmall : tape.WritesToSmall)
    (hshared : tape.WriterShared s.store.machine) (hfits : item.kind.fits = true) :
    tape.Reports item s where
  untouched _ hout := h.untouched_of_error hfits hout
  of_fault f hout := by
    cases hrecord : tape.recordOf item s with
    | none =>
      obtain ⟨client, hclient, hblob⟩ := (tryAppend_of_no_record hfits hrecord).2.2.2 f hout
      exact ⟨client, hclient, Or.inl hblob⟩
    | some r =>
      rcases h.refused_of_error hsmall hfits hshared hrecord hout with
        hown | ⟨client, hwriter, name, capacity, hclient, houtcome⟩
      · exact absurd hown (ownOutcome_ne_fault f)
      · obtain ⟨hf, hle⟩ :=
          SharedMemory.limit_le_of_outcome_fault (add_lt_limit_of_recordOf hrecord) houtcome
        exact ⟨client, hwriter, Or.inr ⟨hf, name, capacity, hclient, hle⟩⟩
  of_room _ hrecord hroom := tryAppend_of_not_lacksRoom h hfits hrecord hroom
  of_own _ hrecord hlacks hwriter := h.tryAppend_of_own hsmall hfits hrecord hlacks hwriter
  of_shared _ hrecord hlacks _ hwriter _ _ hclient :=
    h.tryAppend_of_shared hsmall hfits hrecord hlacks hwriter hclient
  kind_eq r hrecord reason hout := by
    rcases h.refused_of_error hsmall hfits hshared hrecord hout with
      hown | ⟨client, -, name, capacity, -, houtcome⟩
    · exact kind_of_ownOutcome_failed hown
    · exact SharedMemory.kind_of_outcome_failed houtcome

end Tape

/-! ## Any steps -/

theorem WritingClient.IsShared.offersShared {client : WritingClient σ} {machine : Machine}
    {name : String} {capacity : Nat} (h : client.IsShared machine name capacity) :
    client.OffersShared machine := by
  obtain ⟨encode, hmade⟩ := h
  exact SharedMemory.offersShared_client hmade

/-- What is obtained can be mapped. -/
theorem Tape.capacity_le_of_createSegment {tape : Tape σ} {machine : Machine}
    (hshared : tape.WriterShared machine) {size : Nat} (hmod : size % 8 = 0)
    (hlt : size + 8 < Word.limit) {s s' : Session σ} {segment : Segment}
    (hcreate : tape.createSegment size s = (.ok segment, s')) :
    segment.capacity + Layout.pageSize ≤ Layout.memoryLimit := by
  cases hwriter : tape.writer with
  | some client =>
    obtain ⟨name, capacity, hclient⟩ := hshared client hwriter
    rw [createSegment_of_writer hwriter hmod hlt] at hcreate
    obtain ⟨answer, clients, offer, hsupply, hoffer, rfl⟩ := supplied_eq_ok hcreate
    have hshares := hclient.offersShared _ _ _ _ _ _ hsupply hoffer
    obtain ⟨-, hlength, -⟩ :=
      Session.mapping_adopt (s.asked answer clients) offer
    refine Nat.le_trans (Nat.add_le_add_right (Segment.capacity_le _) _) ?_
    rw [hlength]
    exact Nat.le_trans (Nat.add_le_add_right hshares.size_le_limit _) machine.mapLimit_le
  | none =>
    rw [createSegment_of_no_writer hwriter hmod hlt] at hcreate
    have hless := (allocated_eq_ok hcreate).2
    exact Nat.le_trans (Nat.add_le_add_right (Nat.le_of_lt hless) _) s.store.machine.heapLimit_le

/-- The tape is ready, lies in shared memory or in memory of its own, and writes to no segment that
takes all memory. -/
structure TapeState.Guarded (d : TapeState σ) (machine : Machine) : Prop where
  placed : ∃ c placed, d.Placed c placed
  machine_eq : d.session.store.machine = machine
  shared : d.tape.WriterShared machine
  small : d.tape.WritesToSmall

namespace TapeState.Guarded

variable {d : TapeState σ} {machine : Machine}

/-- Recording an item goes to the segment that was written to, or to one that was obtained. -/
theorem small_tryAppend (h : d.Guarded machine) (item : Item) :
    (d.tape.tryAppend item d.session).2.1.WritesToSmall := by
  obtain ⟨⟨c, placed, hplaced⟩, -, hshared, hsmall⟩ := h
  by_cases hfits : item.kind.fits = true
  · cases hrecord : d.tape.recordOf item d.session with
    | none =>
      rw [(Tape.tryAppend_of_no_record hfits hrecord).1]
      exact hsmall
    | some r =>
      have hrecords := hplaced.ready.records hfits hrecord
      generalize d.tape.tryAppend item d.session = result at hrecords
      cases hrecords with
      | tooLarge h' s' hlarge hplace hkept => exact hsmall
      | refused h' s₁ s' hlacks hcreate hplace hstore hclients => exact hsmall
      | here last chapter hroom hc hfits' hplace hsame hhas =>
        have hsegment : d.tape.writable = some chapter.segment := by
          rw [hplaced.ready.has.writable, hc]
          rfl
        have hlast : last.writable = some chapter.segment := by
          rw [hhas.writable, Contents.write, hc]
          rfl
        intro segment hmem
        exact hsmall segment (hsegment.trans (hlast.symm.trans hmem))
      | turned last s₁ s' segment hlacks hcreate hstore hclients hfits' hwritable hplace hsame
          hhas =>
        have hlast : last.writable = some segment := hhas.writable
        intro other hmem
        rw [← Option.some.inj (hlast.symm.trans hmem)]
        exact Tape.capacity_le_of_createSegment hshared r.size_mod
          (Tape.add_lt_limit_of_recordOf hrecord) hcreate
  · rw [Tape.tryAppend, if_neg hfits]
    exact hsmall

theorem small_clear (h : d.Guarded machine) : (d.tape.clear d.session).2.1.WritesToSmall := by
  obtain ⟨⟨c, placed, hplaced⟩, -, -, -⟩ := h
  obtain ⟨next, s', heq, -, -, hnext, -⟩ := hplaced.ready.has.clear
  have hnone : next.writable = none := hnext.writable
  rw [heq]
  intro segment hmem
  cases hnone.symm.trans hmem

theorem perform (h : d.Guarded machine) (step : Step σ)
    (hclient : ∀ client, step = .setWriter (some client) →
      ∃ name capacity, client.IsShared machine name capacity) :
    (step.perform d).Guarded machine := by
  obtain ⟨c, placed, hplaced⟩ := h.placed
  have hwritable : ∀ client, step = .setWriter (some client) → client.OffersWritable := by
    intro client heq
    obtain ⟨name, capacity, hshared⟩ := hclient client heq
    exact hshared.offersShared.offersWritable
  obtain ⟨c', hnext⟩ := hplaced.perform step hwritable
  have hmachine := step.machine_perform ⟨c, hplaced.ready.has, rfl, rfl⟩
  refine ⟨⟨c', _, hnext⟩, hmachine.trans h.machine_eq, ?_, ?_⟩
  · rw [Tape.WriterShared, step.writer_perform ⟨c, hplaced.ready.has, rfl, rfl⟩]
    cases step with
    | setWriter client? =>
      intro client hmem
      exact hclient client (congrArg Step.setWriter hmem)
    | _ => exact h.shared
  · cases step with
    | tryAppend item => exact h.small_tryAppend item
    | append item =>
      rw [Step.perform, Tape.ofResult_append]
      exact h.small_tryAppend item
    | clear => exact h.small_clear
    | _ => exact h.small

theorem run (h : d.Guarded machine) {steps : List (Step σ)}
    (hclients : ∀ client, .setWriter (some client) ∈ steps →
      ∃ name capacity, client.IsShared machine name capacity) :
    (d.run steps).Guarded machine := by
  induction steps generalizing d with
  | nil => exact h
  | cons step rest ih =>
    have hstep := h.perform step fun client heq => hclients client (heq ▸ List.mem_cons_self)
    exact ih hstep fun client hmem => hclients client (List.mem_cons_of_mem _ hmem)

end TapeState.Guarded

theorem Tape.Fresh.guarded {d : TapeState σ} {segments : List Segment}
    (h : d.tape.Fresh d.session.store segments) : d.Guarded d.session.store.machine := by
  obtain ⟨c, hplaced⟩ := TapeState.Placed.of_fresh h
  refine ⟨⟨c, [], hplaced⟩, rfl, ?_, ?_⟩
  · simp [WriterShared, h.writer_eq]
  · simp [WritesToSmall, h.writable_eq]

/-- Whatever capacity a tape accepted, and whatever name and capacity its clients for shared memory
did: after any steps, recording an item that records can hold ends well, or fails for a reason that
is known beforehand and leaves everything untouched. It is a fault for nothing but the encoder's
sake, unless the capacity of the client, rounded up, is within eight bytes of the end of the range
of sizes. -/
theorem TapeState.trouble_reported {d : TapeState σ} {segments : List Segment}
    (hfresh : d.tape.Fresh d.session.store segments) {steps : List (Step σ)}
    (hclients : ∀ client, .setWriter (some client) ∈ steps →
      ∃ name capacity, client.IsShared d.session.store.machine name capacity) {item : Item}
    (hfits : item.kind.fits = true) :
    (d.run steps).tape.Reports item (d.run steps).session := by
  obtain ⟨⟨c, placed, hplaced⟩, hmachine, hshared, hsmall⟩ := hfresh.guarded.run hclients
  exact hplaced.ready.reports hsmall (hmachine ▸ hshared) hfits

namespace Sample

/-- A client for shared memory, set to a capacity that was rounded up. -/
def hugeClient (capacity : Nat) : WritingClient Tallies where
  supply minimum next state := (SharedMemory.supply machine "x" capacity minimum next, state)
  encode := Encoder.core.counted 0

end Sample

/-- Sixteen bytes less than the range has are more than any memory. -/
theorem TapeState.trouble_reported_sample :
    let last := Sample.tapeState.run [.setWriter (some (Sample.hugeClient 0xfffffffffffffff0))]
    let item := Sample.uniform Sample.byteKind 1
    let result := last.tape.tryAppend item last.session
    result.1 = .error (.failed (.clientRefused 16)) ∧
      last.tape.Untouched result.2.1 last.session.store result.2.2.store := by
  intro last item result
  have hmade : Tape.withCapacity 12 = .ok Sample.tapeState.tape := rfl
  have hclient :
      (Sample.hugeClient 0xfffffffffffffff0).IsShared Sample.machine "x" 0xffffffffffffffef :=
    ⟨Encoder.core.counted 0, rfl⟩
  have hclients : ∀ client, .setWriter (some client) ∈
      [Step.setWriter (some (Sample.hugeClient 0xfffffffffffffff0))] →
        ∃ name capacity, client.IsShared Sample.machine name capacity := by
    intro client hmem
    rw [Option.some.inj (Step.setWriter.inj (List.mem_singleton.1 hmem))]
    exact ⟨_, _, hclient⟩
  have hfits : item.kind.fits = true := by decide
  have hreports := TapeState.trouble_reported (.withCapacity hmade) hclients hfits
  have hnone : last.tape.writable = none := rfl
  have hlacks : last.tape.LacksRoom (Recorded.inline item rfl).size := by
    intro segment hmem
    cases hnone.symm.trans hmem
  have hsize : (Recorded.inline item rfl).size = 16 := by decide
  have hrefused : SharedMemory.outcome Sample.machine "x" 0xffffffffffffffef 16 =
      .error (.failed (.clientRefused 16)) := by decide
  have hresult : result.1 = .error (.failed (.clientRefused 16)) := by
    rw [← hrefused, ← hsize]
    exact hreports.of_shared (.inline item rfl) rfl hlacks _ rfl _ _ hclient
  exact ⟨hresult, hreports.untouched _ hresult⟩

/-- Nine bytes less are accepted, too, and no segment can be asked for. -/
theorem TapeState.trouble_not_reported :
    SharedMemory.client Sample.machine "x" 0xfffffffffffffff7 (Encoder.core.counted 0) =
      .ok (Sample.hugeClient 0xfffffffffffffff8) ∧
    let last := Sample.tapeState.run [.setWriter (some (Sample.hugeClient 0xfffffffffffffff8))]
    (last.tape.tryAppend (Sample.uniform Sample.byteKind 1) last.session).1 =
      .error (.fault .overflow) :=
  ⟨rfl, rfl⟩

end CommandTape
