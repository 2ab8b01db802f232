import CommandTape.Proofs.HandingOff
import CommandTape.Proofs.Mappings
import CommandTape.Proofs.Measures

/-!
# Tapes in shared memory

A tape whose client offers nothing but shared memory lies in shared memory (`Tape.HasShared`). As
long as the client has memory to offer, such a tape takes every item that there is a record of
(`Tape.HasShared.tryAppend_eq_ok`), and it can be handed off and taken whenever it has no more
segments than one message may describe (`Tape.HasShared.handOff`).
-/

namespace CommandTape

variable {σ : Type}

/-! ## Clients that offer shared memory -/

/-- The mapping is one of a block of shared memory that may be written to, and that others on the
machine can map. -/
structure Mapping.Shared (m : Mapping) (machine : Machine) : Prop where
  descriptor_eq : m.descriptor = some (.memory m.block)
  writable : m.writable = true
  length_pos : 0 < m.length
  length_le : m.length ≤ machine.mapLimit

/-- Shared memory of at least the given size is offered, which a machine can map. -/
structure Offer.Shares (offer : Offer) (machine : Machine) (size : Nat) : Prop where
  sharing_eq : offer.sharing = .shared
  writable : offer.writable = true
  aligned : offer.address % Layout.alignment = 0
  size_le : size ≤ offer.block.size
  size_pos : 0 < offer.block.size
  size_le_limit : offer.block.size ≤ machine.mapLimit

namespace WritingClient

/-- All that the client ever offers is shared memory of the size that it is asked for, which the
machine can map. -/
def OffersShared (client : WritingClient σ) (machine : Machine) : Prop :=
  ∀ size next state supply clients offer,
    client.supply size next state = (.ok supply, clients) → supply.offer = some offer →
      offer.Shares machine size

/-- The client offers memory of that size whenever it is asked. -/
def HasMemory (client : WritingClient σ) (size : Nat) : Prop :=
  ∀ next state, ∃ supply clients offer,
    client.supply size next state = (.ok supply, clients) ∧ supply.offer = some offer

end WritingClient

namespace SharedMemory

/-- What is made has the size that was asked for, which can be mapped. -/
theorem create_eq_ok {machine : Machine} {name : String} {size : Nat} {block : Block}
    (h : create machine name size = .ok block) :
    block.size = size ∧ 0 < size ∧ size ≤ machine.mapLimit := by
  unfold create at h
  dsimp only at h
  split at h
  · cases h
  · rename_i hpos
    split at h
    · cases h
    · split at h
      · cases h
      · split at h
        · split at h
          · cases h
          · rename_i hle
            rw [← Except.ok.inj h]
            exact ⟨rfl, Nat.pos_of_ne_zero hpos, Nat.le_of_not_lt hle⟩
        · cases h

/-- What is offered is a new block, under a name of its own and the next identifier. -/
theorem supply_eq_ok {machine : Machine} {name : String} {capacity minimum : Nat}
    {next : SegmentId} {answer : Supply} {offer : Offer}
    (h : supply machine name capacity minimum next = .ok answer)
    (hoffer : answer.offer = some offer) :
    ∃ block, create machine name (Layout.roundUp (max minimum capacity)) = .ok block ∧
      offer = ⟨block, 0, .shared, true, none⟩ := by
  unfold supply at h
  by_cases hlt : max minimum capacity + 8 < Word.limit
  · rw [Word.alignUp_of_lt hlt] at h
    dsimp only at h
    split at h
    · rename_i block hcreate
      rw [← Except.ok.inj h] at hoffer
      exact ⟨block, hcreate, (Option.some.inj hoffer).symm⟩
    · rw [← Except.ok.inj h] at hoffer
      cases hoffer
  · rw [Word.alignUp_of_le (Nat.le_of_not_lt hlt)] at h
    cases h

variable {machine : Machine} {name : String} {capacity : Nat}
  {encode : View → σ → Except Fault (Option Bytes) × σ}
  {made : WritingClient σ}

/-- A client for shared memory is set to its capacity rounded up. -/
theorem supply_client (h : client machine name capacity encode = .ok made) (minimum : Nat)
    (next : SegmentId) (state : σ) :
    made.supply minimum next state =
      (supply machine name (Layout.roundUp (max capacity Layout.alignment)) minimum next,
        state) := by
  unfold client at h
  by_cases hlt : max capacity Layout.alignment + 8 < Word.limit
  · rw [Word.alignUp_of_lt hlt] at h
    rw [← Except.ok.inj h]
  · rw [Word.alignUp_of_le (Nat.le_of_not_lt hlt)] at h
    cases h

theorem offersShared_client (h : client machine name capacity encode = .ok made) :
    made.OffersShared machine := by
  intro size next state answer clients offer hsupply hoffer
  rw [supply_client h] at hsupply
  obtain ⟨block, hcreate, rfl⟩ := supply_eq_ok (Prod.mk.inj hsupply).1 hoffer
  obtain ⟨hsize, hpos, hle⟩ := create_eq_ok hcreate
  have hround := Layout.le_roundUp (max size (Layout.roundUp (max capacity Layout.alignment)))
  refine ⟨rfl, rfl, rfl, ?_, ?_, ?_⟩
  · rw [hsize]
    omega
  · rw [hsize]
    exact hpos
  · rw [hsize]
    exact hle

end SharedMemory

/-! ## Tapes -/

namespace Tape

variable {tape : Tape σ} {s : Session σ} {client : WritingClient σ} {c : Contents}

/-- A tape with the given contents, which lie in shared memory that the client offered, as will all
that it offers later. -/
structure HasShared (tape : Tape σ) (s : Session σ) (client : WritingClient σ) (c : Contents) :
    Prop where
  has : tape.Has s.store c
  given_eq : c.given = []
  writer_eq : tape.writer = some client
  offers : client.OffersShared s.store.machine
  shared : ∀ m ∈ tape.mappings, m.Shared s.store.machine

namespace HasShared

theorem shared_of_obtains (h : tape.HasShared s client c) {m : Mapping}
    (hobtains : tape.Obtains m) : m.Shared s.store.machine := by
  obtain ⟨minimum, t, segment, t', hcreate, rfl⟩ := hobtains
  rcases createSegment_eq_ok hcreate with
    ⟨other, size, supply, clients, offer, hwriter, hsupply, hoffer, rfl⟩ | ⟨hnone, -⟩
  · obtain rfl : client = other := Option.some.inj (h.writer_eq.symm.trans hwriter)
    obtain ⟨hsharing, hwritable, -, -, hpos, hle⟩ := h.offers _ _ _ _ _ _ hsupply hoffer
    obtain ⟨hblock, hlength, -, hallowed, hdescriptor⟩ :=
      Session.mapping_adopt (t.asked supply clients) offer
    refine ⟨?_, hallowed.trans hwritable, hlength ▸ hpos, hlength ▸ hle⟩
    rw [hdescriptor, hsharing, hblock]
  · cases h.writer_eq.symm.trans hnone

/-! ### There is room as long as there is memory -/

/-- A client that has memory supplies a segment. -/
theorem supplied_eq_ok_of_hasMemory {machine : Machine} {size : Nat}
    (hoffers : client.OffersShared machine) (hmemory : client.HasMemory size) (s : Session σ) :
    ∃ segment s', supplied client size s = (.ok segment, s') := by
  obtain ⟨supply, clients, offer, hsupply, hoffer⟩ := hmemory s.nextId s.clients
  obtain ⟨-, -, haddress, hsize, -, -⟩ := hoffers _ _ _ _ _ _ hsupply hoffer
  obtain ⟨-, hlength, hat, -, -⟩ :=
    Session.mapping_adopt (s.asked supply clients) offer
  have hadds := (s.asked supply clients).adds_adopt offer
  rcases hadopt : (s.asked supply clients).adopt offer with ⟨segment, s'⟩
  rw [hadopt] at hlength hat hadds
  have hbig : ¬segment.capacity < size := by
    rw [hadds.capacity_eq, hlength]
    exact Nat.not_lt.2 hsize
  have haligned : segment.isAligned = true := by
    refine decide_eq_true ?_
    rw [hat]
    exact haddress
  simp only [supplied, hsupply, hoffer, hadopt, hbig, haligned, ↓reduceIte]
  exact ⟨_, _, rfl⟩

variable {size : Nat}

theorem createSegment_eq_ok (h : tape.HasShared s client c) (hmemory : client.HasMemory size)
    (hmod : size % 8 = 0) (hlt : size + 8 < Word.limit) :
    ∃ segment s', tape.createSegment size s = (.ok segment, s') := by
  obtain ⟨segment, s', hsupplied⟩ := supplied_eq_ok_of_hasMemory h.offers hmemory s
  refine ⟨segment, s', ?_⟩
  simp only [createSegment, Word.alignUp_of_lt hlt, Layout.roundUp_eq_self hmod, h.writer_eq,
    hsupplied]

end HasShared

namespace HasShared

/-- What is recorded lies behind what there was, in shared memory, too. -/
theorem tryAppend (h : tape.HasShared s client c) {item : Item} {r : Recorded}
    (hrecord : tape.recordOf item s = some r) (hok : (tape.tryAppend item s).1 = .ok ()) :
    ∃ c', (tape.tryAppend item s).2.1.HasShared (tape.tryAppend item s).2.2 client c' ∧
      c'.records = c.records ++ [r] := by
  have happended := h.has.tryAppend item
  have hdraws := tape.drawsOn_tryAppend item s
  have hshared : ∀ m ∈ (tape.tryAppend item s).2.1.mappings, m.Shared s.store.machine := by
    intro m hmem
    rcases hdraws m hmem with hbefore | hnew
    · exact h.shared m hbefore
    · exact h.shared_of_obtains hnew
  generalize tape.tryAppend item s = result at happended hshared hok
  cases happended with
  | refused h' s' hkept hgone => cases hok
  | readOnly next s' segment hreadOnly hkept hsame hhas hgone => cases hok
  | dropped s' hinline hnone hkept hgone => cases hrecord.symm.trans hnone
  | stored r' next s' c' chapter hrecord' hkept hsame hturn hc hhas hgone =>
    obtain rfl := Option.some.inj (hrecord.symm.trans hrecord')
    have hmachine : s'.store.machine = s.store.machine := hkept.machine_eq
    refine ⟨c'.write r, ⟨hhas, ?_, hsame.writer_eq.trans h.writer_eq, hmachine ▸ h.offers,
      hmachine ▸ hshared⟩, ?_⟩
    · rcases hturn with rfl | ⟨segment, rfl⟩ <;> exact h.given_eq
    · rw [Contents.records_write hc]
      rcases hturn with rfl | ⟨segment, rfl⟩
      · rfl
      · rw [Contents.records_turn]

/-! ### Handing off -/

theorem views_eq (h : tape.HasShared s client c) :
    tape.views s.store = c.filled.map (Chapter.view s.store) := by
  rw [h.has.views_eq, Contents.views, h.given_eq]
  rfl

/-- Everything that the tape shows is shared memory. -/
theorem sharedFrom (h : tape.HasShared s client c) :
    ∀ view ∈ tape.views s.store, ∃ block, view.SharedFrom s.store block := by
  intro view hmem
  rw [h.views_eq] at hmem
  obtain ⟨chapter, hfilled, rfl⟩ := List.mem_map.1 hmem
  have hchapter : chapter ∈ c.chapters := (List.mem_filter.1 hfilled).1
  obtain ⟨hdescriptor, -, hpos, hle⟩ := h.shared _ (h.has.mem_mappings hchapter)
  have hlength := (h.has.chapters chapter hchapter).lies.length_eq
  rw [hlength] at hpos hle
  exact ⟨chapter.segment.mapping.block, hdescriptor, rfl, rfl, hpos, hle⟩

/-- The tape can be handed off if one message may describe its segments, and whoever takes it is
shown the same. -/
theorem handOff (h : tape.HasShared s client c)
    (hcount : tape.segmentCount ≤ Message.segmentLimit) (sender : UInt64) :
    ∃ m, (tape.handOff sender s).1 = .ok m ∧
      ∀ (τ : Type) (t : Session τ), t.store = s.store → ∃ reader : Tape τ,
        (receive m t).1 = .ok (sender, reader) ∧ reader.views t.store = tape.views s.store := by
  rw [h.has.segmentCount_eq, ← h.has.views_eq] at hcount
  rw [handOff_fst]
  rcases Message.ofViews_cases sender (tape.views s.store) with
    ⟨m, hm, hdescribes, -, -⟩ | ⟨reason, -, hnot⟩
  · refine ⟨m, hm, fun τ t hstore => ?_⟩
    have hmod : ∀ view ∈ tape.views s.store, view.data.length % Layout.alignment = 0 := by
      intro view hmem
      rw [h.views_eq] at hmem
      obtain ⟨chapter, hfilled, rfl⟩ := List.mem_map.1 hmem
      exact (h.has.length_view_filled hfilled).2
    have hshared : ∀ view ∈ tape.views s.store, ∃ block, view.SharedFrom t.store block := by
      rw [hstore]
      exact h.sharedFrom
    obtain ⟨reader, hreceive, hviews, -⟩ := receive_of_describes hdescribes hcount hmod hshared
    exact ⟨reader, hreceive, hviews⟩
  · refine absurd ⟨hcount, fun view hmem => ?_⟩ hnot
    obtain ⟨block, hblock⟩ := h.sharedFrom view hmem
    refine ⟨_, hblock.descriptor_eq, ?_⟩
    intro hclosed
    cases hclosed

end HasShared

end Tape

end CommandTape
