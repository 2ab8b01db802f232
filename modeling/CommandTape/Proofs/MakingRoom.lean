import CommandTape.Proofs.Mappings
import CommandTape.Proofs.Measures

/-!
# How room is made

A tape is *ready* if the segment that it writes to may be written to, and all that its client ever
offers may be (`Tape.Ready`). Such a tape obtains a segment just when its own lacks room
(`Tape.LacksRoom`), and what recording an item comes to is known to the byte: the segment is
refused, or the record goes behind those that there are, or to the front of the new segment
(`Tape.Ready.records`).
-/

namespace CommandTape

variable {σ : Type}

/-- All that the client ever offers may be written to. -/
def WritingClient.OffersWritable (client : WritingClient σ) : Prop :=
  ∀ size next state supply clients offer,
    client.supply size next state = (.ok supply, clients) → supply.offer = some offer →
      offer.writable = true

/-- The size of any memory can be rounded up. -/
theorem Word.add_lt_limit {size : Nat} (h : size ≤ Layout.memoryLimit) : size + 8 < Word.limit := by
  unfold Layout.memoryLimit at h
  unfold Word.limit
  omega

namespace Session

/-- Memory is refused for want of it, unless it is asked for in uneven pieces. -/
theorem allocate_ne_fault (s : Session σ) {capacity : Nat} (h : capacity % Layout.alignment = 0)
    (f : Fault) : (s.allocate capacity).1 ≠ .error (.fault f) := by
  unfold allocate
  rw [if_neg (not_not_intro h)]
  split <;> simp

theorem clients_allocate (s : Session σ) (capacity : Nat) :
    (s.allocate capacity).2.clients = s.clients := by
  unfold allocate
  split
  · rfl
  · split <;> rfl

theorem clients_adopt (s : Session σ) (offer : Offer) : (s.adopt offer).2.clients = s.clients := by
  unfold adopt
  cases offer.id <;> rfl

end Session

namespace Tape

variable {tape : Tape σ} {s : Session σ} {c : Contents} {size : Nat}

/-- No segment has room for `size` more bytes. -/
def LacksRoom (tape : Tape σ) (size : Nat) : Prop :=
  ∀ segment ∈ tape.writable, segment.capacity < tape.written + size

instance (tape : Tape σ) (size : Nat) : Decidable (tape.LacksRoom size) :=
  inferInstanceAs (Decidable (∀ segment ∈ tape.writable, segment.capacity < tape.written + size))

/-- A tape with the given contents that can be written to. -/
structure Ready (tape : Tape σ) (store : Store) (c : Contents) : Prop where
  has : tape.Has store c
  capacity_mod : tape.segmentCapacity % Layout.alignment = 0
  offers : ∀ client ∈ tape.writer, client.OffersWritable
  writable : ∀ segment ∈ tape.writable, segment.mapping.writable = true

theorem Ready.mono {store store' : Store} (h : tape.Ready store c) (hkept : store.KeptIn store') :
    tape.Ready store' c :=
  ⟨h.has.mono hkept, h.capacity_mod, h.offers, h.writable⟩

theorem Ready.setReader {store : Store} (h : tape.Ready store c)
    (client : Option (ReadingClient σ)) : (tape.setReader client).Ready store c :=
  ⟨h.has.of_eq rfl rfl rfl rfl, h.capacity_mod, h.offers, h.writable⟩

theorem Ready.setWriter {store : Store} (h : tape.Ready store c)
    {client? : Option (WritingClient σ)} (hclient : ∀ client ∈ client?, client.OffersWritable) :
    (tape.setWriter client?).Ready store c :=
  ⟨h.has.of_eq rfl rfl rfl rfl, h.capacity_mod, hclient, h.writable⟩

/-- The capacity that a tape is made with is rounded up to whole units of eight bytes, and is never
nothing. -/
theorem segmentCapacity_of_withCapacity {capacity : Nat} (h : withCapacity capacity = .ok tape) :
    tape.segmentCapacity = Layout.roundUp (max capacity Layout.headerSize) := by
  unfold withCapacity at h
  by_cases hlt : max capacity Layout.headerSize + 8 < Word.limit
  · rw [Word.alignUp_of_lt hlt] at h
    rw [← Except.ok.inj h]
  · rw [Word.alignUp_of_le (Nat.le_of_not_lt hlt)] at h
    cases h

theorem defaultCapacity_mod : Layout.defaultCapacity % Layout.alignment = 0 := by
  decide

theorem Fresh.capacity_mod {store : Store} {segments : List Segment}
    (h : tape.Fresh store segments) : tape.segmentCapacity % Layout.alignment = 0 := by
  cases h with
  | withCapacity h =>
    rw [segmentCapacity_of_withCapacity h]
    exact Layout.roundUp_mod _
  | ofSegments h => exact defaultCapacity_mod

/-- A tape is ready as it is made. -/
theorem Fresh.ready {segments : List Segment} (h : tape.Fresh s.store segments) :
    ∃ c, tape.Ready s.store c ∧ c.given = segments ∧ c.records = [] := by
  obtain ⟨c, hhas, hgiven, hrecords⟩ := h.holds
  refine ⟨c, ⟨hhas, h.capacity_mod, ?_, ?_⟩, hgiven, hrecords⟩
  · rw [h.writer_eq]
    simp
  · rw [h.writable_eq]
    simp

/-! ## Asking for a segment -/

/-- The state of the clients once the tape's client was asked for so many bytes. A tape without one
asks nobody. -/
def askedFor (tape : Tape σ) (size : Nat) (s : Session σ) : σ :=
  match tape.writer with
  | some client => (client.supply size s.nextId s.clients).2
  | none => s.clients

/-- The client is asked once, and is not asked for anything else. -/
theorem clients_supplied (client : WritingClient σ) (size : Nat) (s : Session σ) :
    (supplied client size s).2.clients = (client.supply size s.nextId s.clients).2 := by
  unfold supplied
  rcases client.supply size s.nextId s.clients with ⟨f | supply, clients⟩
  · rfl
  · dsimp only
    cases supply.offer with
    | none => rfl
    | some offer =>
      have hadopt := (s.asked supply clients).clients_adopt offer
      dsimp only
      split
      · exact hadopt
      · split <;> exact hadopt

/-- A fault on the way to a client's segment is the client's. -/
theorem supply_of_supplied_fault {client : WritingClient σ} {f : Fault}
    (h : (supplied client size s).1 = .error (.fault f)) :
    (client.supply size s.nextId s.clients).1 = .error f := by
  unfold supplied at h
  rcases hsupply : client.supply size s.nextId s.clients with ⟨f' | supply, clients⟩
  · rw [hsupply] at h
    injection h with h
    injection h with h
    rw [h]
  · rw [hsupply] at h
    dsimp only at h
    cases hoffer : supply.offer with
    | none =>
      rw [hoffer] at h
      cases h
    | some offer =>
      rw [hoffer] at h
      dsimp only at h
      split at h
      · cases h
      · split at h <;> cases h

theorem createSegment_of_writer {client : WritingClient σ} (hwriter : tape.writer = some client)
    (hmod : size % 8 = 0) (hlt : size + 8 < Word.limit) (s : Session σ) :
    tape.createSegment size s = supplied client size s := by
  simp only [createSegment, Word.alignUp_of_lt hlt, Layout.roundUp_eq_self hmod, hwriter]

theorem createSegment_eq_allocated (hwriter : tape.writer = none) {minimum : Nat}
    (hlt : minimum + 8 < Word.limit) (s : Session σ) :
    tape.createSegment minimum s =
      allocated (max (Layout.roundUp minimum) tape.segmentCapacity) s := by
  simp only [createSegment, Word.alignUp_of_lt hlt, hwriter]

theorem createSegment_of_no_writer (hwriter : tape.writer = none) (hmod : size % 8 = 0)
    (hlt : size + 8 < Word.limit) (s : Session σ) :
    tape.createSegment size s = allocated (max size tape.segmentCapacity) s := by
  rw [createSegment_eq_allocated hwriter hlt, Layout.roundUp_eq_self hmod]

/-- A tape's own segments have whole units of eight bytes if what is asked for does, and what they
have at least. -/
theorem max_capacity_mod (hcapacity : tape.segmentCapacity % Layout.alignment = 0)
    (hmod : size % Layout.alignment = 0) :
    max size tape.segmentCapacity % Layout.alignment = 0 := by
  rcases Nat.le_total size tape.segmentCapacity with hle | hle
  · rw [Nat.max_eq_right hle]
    exact hcapacity
  · rw [Nat.max_eq_left hle]
    exact hmod

theorem allocated_ne_fault {capacity : Nat} (h : capacity % Layout.alignment = 0) (s : Session σ)
    (f : Fault) : (allocated capacity s).1 ≠ .error (.fault f) := by
  have hfault := s.allocate_ne_fault h f
  rw [allocated]
  generalize s.allocate capacity = made at hfault
  rcases made with ⟨h' | segment, s'⟩
  · exact hfault
  · simp

theorem clients_createSegment (tape : Tape σ) (hmod : size % 8 = 0)
    (hlt : size + 8 < Word.limit) (s : Session σ) :
    (tape.createSegment size s).2.clients = tape.askedFor size s := by
  cases hwriter : tape.writer with
  | some client =>
    rw [createSegment_of_writer hwriter hmod hlt, clients_supplied, askedFor, hwriter]
  | none =>
    have hclients := s.clients_allocate (max size tape.segmentCapacity)
    rw [createSegment_of_no_writer hwriter hmod hlt, askedFor, hwriter, allocated]
    generalize s.allocate (max size tape.segmentCapacity) = made at hclients
    rcases made with ⟨h | segment, s'⟩ <;> exact hclients

/-- A fault on the way to a segment is the client's, if the tape's own segments are whole units of
eight bytes. -/
theorem supply_of_createSegment_fault (hcapacity : tape.segmentCapacity % Layout.alignment = 0)
    (hmod : size % 8 = 0) (hlt : size + 8 < Word.limit) {f : Fault}
    (h : (tape.createSegment size s).1 = .error (.fault f)) :
    ∃ client ∈ tape.writer, (client.supply size s.nextId s.clients).1 = .error f := by
  cases hwriter : tape.writer with
  | some client =>
    rw [createSegment_of_writer hwriter hmod hlt] at h
    exact ⟨client, rfl, supply_of_supplied_fault h⟩
  | none =>
    rw [createSegment_of_no_writer hwriter hmod hlt] at h
    exact absurd h (allocated_ne_fault (max_capacity_mod hcapacity hmod) s f)

/-- What a ready tape obtains may be written to. -/
theorem Ready.writable_of_createSegment (h : tape.Ready s.store c) {t t' : Session σ}
    {segment : Segment} {minimum : Nat}
    (hcreate : tape.createSegment minimum t = (.ok segment, t')) :
    segment.mapping.writable = true := by
  cases hwriter : tape.writer with
  | some client =>
    rcases createSegment_eq_ok hcreate with
      ⟨other, size, supply, clients, offer, hother, hsupply, hoffer, rfl⟩ | ⟨hnone, -⟩
    · obtain ⟨-, -, -, hallowed, -⟩ :=
        Session.mapping_adopt (t.asked supply clients) offer
      rw [hallowed]
      exact h.offers other hother _ _ _ _ _ _ hsupply hoffer
    · cases hwriter.symm.trans hnone
  | none =>
    unfold createSegment at hcreate
    split at hcreate
    · cases hcreate
    · rename_i size halign
      rw [hwriter] at hcreate
      dsimp only [allocated] at hcreate
      rcases t.allocate_cases (max size tape.segmentCapacity) with
        ⟨h', heq⟩ | ⟨own, t'', heq, -, -, -, hallowed⟩
      · rw [heq] at hcreate
        cases hcreate
      · rw [heq] at hcreate
        rw [← Except.ok.inj (Prod.mk.inj hcreate).1]
        exact hallowed

/-! ## Finding a place -/

theorem hasRoom_of_not_lacksRoom (hroom : ¬tape.LacksRoom size) :
    tape.hasRoom size = .ok true := by
  unfold LacksRoom at hroom
  cases hwritable : tape.writable with
  | none => exact absurd (by simp [hwritable]) hroom
  | some segment =>
    have hfits : tape.written + size ≤ segment.capacity := by simpa [hwritable] using hroom
    have hcap := segment.capacity_le
    have hmap := Nat.lt_trans segment.mapping.length_lt Word.memoryLimit_lt
    have hadd : Word.add tape.written size = .ok (tape.written + size) :=
      Word.add_of_lt (by omega)
    simp only [hasRoom, hwritable, hadd, hfits, decide_true]

/-- A lack of room is found out if what was written and a record more stay in the range of sizes. -/
theorem hasRoom_of_lacksRoom (hroom : tape.LacksRoom size)
    (hlt : ∀ segment ∈ tape.writable, tape.written + size < Word.limit) :
    tape.hasRoom size = .ok false := by
  unfold hasRoom
  cases hwritable : tape.writable with
  | none => rfl
  | some segment =>
    have hlacks : segment.capacity < tape.written + size := hroom segment hwritable
    have hadd := Word.add_of_lt (hlt segment hwritable)
    simp only [hadd, Nat.not_le.2 hlacks, decide_false]

/-- What was written and a record that memory can hold stay in the range. -/
theorem Has.hasRoom_of_lacksRoom (h : tape.Has s.store c) (hroom : tape.LacksRoom size)
    (hle : size ≤ Layout.memoryLimit) : tape.hasRoom size = .ok false := by
  refine Tape.hasRoom_of_lacksRoom hroom fun segment hwritable => ?_
  have hwritten := h.measured.written_le segment hwritable
  have hcap := segment.capacity_le
  have hmap := segment.mapping.length_lt
  unfold Layout.memoryLimit at hle hmap
  unfold Word.limit
  omega

/-- Installing a segment touches nothing but the tape and what was reported. -/
theorem session_install (tape : Tape σ) (segment : Segment) (s : Session σ) :
    (tape.install segment s).2.2.store = s.store ∧
      (tape.install segment s).2.2.clients = s.clients := by
  unfold install
  cases tape.writable with
  | none => exact ⟨rfl, rfl⟩
  | some previous =>
    dsimp only
    split
    · exact ⟨rfl, rfl⟩
    · cases previous.truncate tape.written <;> exact ⟨rfl, rfl⟩

/-- What finding a place for `size` bytes comes to, on a ready tape with given contents. -/
inductive FindsPlace (tape : Tape σ) (s : Session σ) (c : Contents) (size : Nat) :
    Outcome Failure Place × Tape σ × Session σ → Prop where
  /-- No memory is that large. -/
  | tooLarge (h : Halt Failure) (s' : Session σ) (hlarge : Layout.memoryLimit < size)
      (hkeeps : s.Keeps s') : FindsPlace tape s c size (.error h, tape, s')
  /-- A segment is needed and refused. -/
  | refused (h : Halt Failure) (s' : Session σ) (hlacks : tape.LacksRoom size)
      (hcreate : tape.createSegment size s = (.error h, s')) :
      FindsPlace tape s c size (.error h, tape, s')
  /-- There is room in the current chapter. -/
  | here (chapter : Chapter) (hroom : ¬tape.LacksRoom size) (hc : c.current = some chapter)
      (hfits : chapter.text.length + size ≤ chapter.segment.capacity)
      (hwritable : chapter.segment.mapping.writable = true) :
      FindsPlace tape s c size (.ok (chapter.nextPlace size), tape, s)
  /-- A segment is needed and obtained. -/
  | turned (next : Tape σ) (s₁ s' : Session σ) (segment : Segment) (hlacks : tape.LacksRoom size)
      (hcreate : tape.createSegment size s = (.ok segment, s₁)) (hstore : s'.store = s₁.store)
      (hclients : s'.clients = s₁.clients) (hsame : tape.SameSetup next)
      (hhas : next.Has s'.store (c.turn segment)) (hfits : size ≤ segment.capacity)
      (hwritable : segment.mapping.writable = true) :
      FindsPlace tape s c size (.ok ((⟨segment, []⟩ : Chapter).nextPlace size), next, s')

/-- There is no place for more than memory can hold. -/
theorem Has.reserve_of_large (h : tape.Has s.store c) (hlarge : Layout.memoryLimit < size) :
    ∃ h' s', tape.reserve size s = (.error h', tape, s') ∧ s.Keeps s' := by
  have hcapacity : ∀ segment : Segment, ¬size ≤ segment.capacity := by
    intro segment hle
    have hcap := segment.capacity_le
    have hmap := segment.mapping.length_lt
    omega
  cases hroom : tape.hasRoom size with
  | error f =>
    simp only [Tape.reserve, makeRoom, hroom]
    exact ⟨_, s, rfl, .refl s⟩
  | ok fits =>
    cases fits with
    | true =>
      obtain ⟨chapter, -, hfits⟩ := h.of_hasRoom hroom
      exact absurd (Nat.le_trans (Nat.le_add_left _ _) hfits) (hcapacity chapter.segment)
    | false =>
      rcases tape.createSegment_cases size s with
        ⟨h', s', heq, hkeeps⟩ | ⟨segment, s', heq, -, hsize, -⟩
      · simp only [Tape.reserve, makeRoom, hroom, heq]
        exact ⟨h', s', rfl, hkeeps⟩
      · exact absurd hsize (hcapacity segment)

theorem Ready.findsPlace (h : tape.Ready s.store c) (size : Nat) :
    tape.FindsPlace s c size (tape.reserve size s) := by
  by_cases hlarge : Layout.memoryLimit < size
  · obtain ⟨h', s', heq, hkeeps⟩ := h.has.reserve_of_large hlarge
    rw [heq]
    exact .tooLarge h' s' hlarge hkeeps
  have hle := Nat.le_of_not_lt hlarge
  by_cases hlacks : tape.LacksRoom size
  · have hroom := h.has.hasRoom_of_lacksRoom hlacks hle
    rcases hcreate : tape.createSegment size s with ⟨h' | segment, s₁⟩
    · simp only [Tape.reserve, makeRoom, hroom, hcreate]
      exact .refused h' s₁ hlacks hcreate
    · obtain ⟨next, s', -, hsame, hhas, hfits, heq⟩ := h.has.reserve_created hroom hcreate
      have hwritable := h.writable_of_createSegment hcreate
      -- the session is the one that installing the segment leaves
      have hsession : s' = (tape.install segment s₁).2.2 := by
        have hlast := congrArg (fun result => result.2.2) heq
        simp only [Tape.reserve, makeRoom, hroom, hcreate] at hlast
        rcases hinstall : tape.install segment s₁ with ⟨f | u, next', t⟩ <;>
          (rw [hinstall] at hlast; exact hlast.symm)
      obtain ⟨hstore, hclients⟩ := tape.session_install segment s₁
      rw [← hsession] at hstore hclients
      rw [heq, if_pos hwritable]
      exact .turned next s₁ s' segment hlacks hcreate hstore hclients hsame hhas hfits hwritable
  · have hroom := hasRoom_of_not_lacksRoom hlacks
    obtain ⟨chapter, hc, hfits⟩ := h.has.of_hasRoom hroom
    have hsegment : tape.writable = some chapter.segment := by rw [h.has.writable, hc]; rfl
    have hwritable := h.writable chapter.segment hsegment
    simp only [Tape.reserve, makeRoom, hroom, h.has.nextPlace hc hfits, hwritable, ↓reduceIte]
    exact .here chapter hlacks hc hfits hwritable

/-! ## Recording an item -/

/-- The session in which the record of an item is known: if the item needs a client that makes a
blob of it, that was asked for the blob. -/
def readied (tape : Tape σ) (item : Item) (s : Session σ) : Session σ :=
  if item.kind.isInline then s
  else
    match tape.writer with
    | some client => encoded client item s
    | none => s

theorem store_readied (tape : Tape σ) (item : Item) (s : Session σ) :
    (tape.readied item s).store = s.store := by
  unfold readied
  split
  · rfl
  · cases tape.writer <;> rfl

theorem nextId_readied (tape : Tape σ) (item : Item) (s : Session σ) :
    (tape.readied item s).nextId = s.nextId := by
  unfold readied
  split
  · rfl
  · cases tape.writer <;> rfl

variable {item : Item} {r : Recorded}

/-- A record that there is no place for is not recorded, for the same reason. -/
theorem tryAppend_of_reserve_error (hfits : item.kind.fits = true)
    (hrecord : tape.recordOf item s = some r) {h : Halt Failure} {next : Tape σ} {s' : Session σ}
    (hreserve : tape.reserve r.size (tape.readied item s) = (.error h, next, s')) :
    ∃ s'', tape.tryAppend item s = (.error h, next, s'') ∧ s''.store = s'.store ∧
      s''.clients = s'.clients := by
  rcases recordOf_eq_some hrecord with
    ⟨hinline, rfl⟩ | ⟨client, blob, hinline, hlen, hwriter, hblob, rfl⟩
  · have hreserve : tape.reserve item.kind.recordSize s = (.error h, next, s') := by
      simpa only [readied, hinline, Recorded.size, ↓reduceIte] using hreserve
    simp only [Tape.tryAppend, hfits, hinline, storeInline, hreserve, ↓reduceIte]
    exact ⟨_, rfl, rfl, rfl⟩
  · have hreserve : tape.reserve (Layout.encodedSize blob.length) (encoded client item s) =
        (.error h, next, s') := by
      simpa only [readied, hinline, hwriter, Recorded.size, Bool.false_eq_true, ↓reduceIte]
        using hreserve
    rw [tryAppend_of_encoded hfits hinline hwriter, hblob]
    simp only [storeBlob, hlen, Word.encodedSize_of_lt hlen, hreserve, ↓reduceIte]
    exact ⟨_, rfl, rfl, rfl⟩

/-- A record goes to the place that is found for it. -/
theorem tryAppend_of_found (hfits : item.kind.fits = true)
    (hrecord : tape.recordOf item s = some r) {next : Tape σ} {s' : Session σ} {c' : Contents}
    {chapter : Chapter} (hhas : next.Has s'.store c') (hc : c'.current = some chapter)
    (hroom : chapter.text.length + r.size ≤ chapter.segment.capacity)
    (hwritable : chapter.segment.mapping.writable = true)
    (hreserve : tape.reserve r.size (tape.readied item s) =
      (.ok (chapter.nextPlace r.size), next, s')) :
    ∃ last, tape.tryAppend item s =
        (.ok (), last, fill s' (chapter.nextPlace r.size) r.bytes) ∧
      last.Has (fill s' (chapter.nextPlace r.size) r.bytes).store (c'.write r) ∧
      next.SameSetup last := by
  rcases recordOf_eq_some hrecord with
    ⟨hinline, rfl⟩ | ⟨client, blob, hinline, hlen, hwriter, hblob, rfl⟩
  · have hreserve : tape.reserve item.kind.recordSize s =
        (.ok (chapter.nextPlace item.kind.recordSize), next, s') := by
      simpa only [readied, hinline, Recorded.size, ↓reduceIte] using hreserve
    obtain ⟨last, hstored, hlast, hsame⟩ :=
      storeInline_of_found hinline hhas hc hroom hwritable hreserve
    refine ⟨last, ?_, hlast, hsame⟩
    simp only [Tape.tryAppend, hfits, hinline, hstored, ↓reduceIte]
    rfl
  · have hreserve : tape.reserve (Layout.encodedSize blob.length) (encoded client item s) =
        (.ok (chapter.nextPlace (Layout.encodedSize blob.length)), next, s') := by
      simpa only [readied, hinline, hwriter, Recorded.size, Bool.false_eq_true, ↓reduceIte]
        using hreserve
    obtain ⟨last, hstored, hlast, hsame⟩ :=
      storeBlob_of_found hinline hlen hhas hc hroom hwritable hreserve
    refine ⟨last, ?_, hlast, hsame⟩
    rw [tryAppend_of_encoded hfits hinline hwriter, hblob]
    exact hstored

/-- An item that there is no record of leaves the tape and all memory as they were, and is no fault
but its encoder's. -/
theorem tryAppend_of_no_record (hfits : item.kind.fits = true)
    (hrecord : tape.recordOf item s = none) :
    (tape.tryAppend item s).2.1 = tape ∧ (tape.tryAppend item s).2.2.store = s.store ∧
      (tape.tryAppend item s).2.2.clients = (tape.readied item s).clients ∧
      ∀ f, (tape.tryAppend item s).1 = .error (.fault f) →
        ∃ client ∈ tape.writer, (blobFor client item s).1 = .error f := by
  by_cases hinline : item.kind.isInline = true
  · rw [recordOf, dif_pos hinline] at hrecord
    cases hrecord
  · have hinline : item.kind.isInline = false := Bool.eq_false_iff.2 hinline
    cases hwriter : tape.writer with
    | none =>
      simp [Tape.tryAppend, readied, hfits, hinline, hwriter, Session.destroy]
    | some client =>
      have hready : tape.readied item s = encoded client item s := by
        simp only [readied, hinline, hwriter, Bool.false_eq_true, ↓reduceIte]
      rw [tryAppend_of_encoded hfits hinline hwriter, hready]
      rcases hblob : (blobFor client item s).1 with f | _ | blob
      · refine ⟨rfl, rfl, rfl, ?_⟩
        intro f' hf'
        injection hf' with hf'
        injection hf' with hf'
        exact ⟨client, rfl, hblob.trans (congrArg Except.error hf')⟩
      · exact ⟨rfl, rfl, rfl, fun f hf => absurd hf (by simp)⟩
      · have hlong : ¬blob.length < Layout.blobLimit := by
          intro hlen
          rw [recordOf_of_blob hinline hwriter hblob hlen] at hrecord
          cases hrecord
        dsimp only
        rw [storeBlob, if_neg hlong]
        exact ⟨rfl, rfl, rfl, fun f hf => absurd hf (by simp)⟩

/-- What recording an item comes to whose record is known, on a ready tape with given contents. -/
inductive Records (tape : Tape σ) (item : Item) (s : Session σ) (c : Contents) (r : Recorded) :
    Outcome Failure Unit × Tape σ × Session σ → Prop where
  /-- No memory is that large. -/
  | tooLarge (h : Halt Failure) (s' : Session σ) (hlarge : Layout.memoryLimit < r.size)
      (hplace : (tape.reserve r.size (tape.readied item s)).1 = .error h)
      (hkept : s.store.KeptIn s'.store) : Records tape item s c r (.error h, tape, s')
  /-- A segment is needed and refused. -/
  | refused (h : Halt Failure) (s₁ s' : Session σ) (hlacks : tape.LacksRoom r.size)
      (hcreate : tape.createSegment r.size (tape.readied item s) = (.error h, s₁))
      (hplace : (tape.reserve r.size (tape.readied item s)).1 = .error h)
      (hstore : s'.store = s₁.store) (hclients : s'.clients = s₁.clients) :
      Records tape item s c r (.error h, tape, s')
  /-- The record goes behind those of the current chapter. -/
  | here (last : Tape σ) (chapter : Chapter) (hroom : ¬tape.LacksRoom r.size)
      (hc : c.current = some chapter)
      (hfits : chapter.text.length + r.size ≤ chapter.segment.capacity)
      (hplace : (tape.reserve r.size (tape.readied item s)).1 = .ok (chapter.nextPlace r.size))
      (hsame : tape.SameSetup last)
      (hhas : last.Has (fill (tape.readied item s) (chapter.nextPlace r.size) r.bytes).store
        (c.write r)) :
      Records tape item s c r
        (.ok (), last, fill (tape.readied item s) (chapter.nextPlace r.size) r.bytes)
  /-- A segment is needed and obtained, and the record goes to its front. -/
  | turned (last : Tape σ) (s₁ s' : Session σ) (segment : Segment)
      (hlacks : tape.LacksRoom r.size)
      (hcreate : tape.createSegment r.size (tape.readied item s) = (.ok segment, s₁))
      (hstore : s'.store = s₁.store) (hclients : s'.clients = s₁.clients)
      (hfits : r.size ≤ segment.capacity) (hwritable : segment.mapping.writable = true)
      (hplace : (tape.reserve r.size (tape.readied item s)).1 =
        .ok ((⟨segment, []⟩ : Chapter).nextPlace r.size))
      (hsame : tape.SameSetup last)
      (hhas : last.Has (fill s' ((⟨segment, []⟩ : Chapter).nextPlace r.size) r.bytes).store
        ((c.turn segment).write r)) :
      Records tape item s c r
        (.ok (), last, fill s' ((⟨segment, []⟩ : Chapter).nextPlace r.size) r.bytes)

/-- A tape stays ready when a record is written. -/
theorem Ready.write {store store' : Store} {c' : Contents} {chapter : Chapter} {last : Tape σ}
    (h : tape.Ready store c) (hsame : tape.SameSetup last) (hhas : last.Has store' (c'.write r))
    (hc : c'.current = some chapter) : last.Ready store' (c'.write r) := by
  have hcurrent := Contents.current_write hc r
  have hlies := hhas.chapters _ (Has.mem_chapters_of_current hcurrent)
  refine ⟨hhas, ?_, ?_, ?_⟩
  · rw [hsame.segmentCapacity_eq]
    exact h.capacity_mod
  · rw [hsame.writer_eq]
    exact h.offers
  · intro segment hsegment
    rw [hhas.writable, hcurrent] at hsegment
    rw [← Option.some.inj hsegment]
    exact hlies.writable (List.append_ne_nil_of_right_ne_nil _ (List.cons_ne_nil _ _))

theorem Ready.readied (h : tape.Ready s.store c) (item : Item) :
    tape.Ready (tape.readied item s).store c := by
  rw [store_readied]
  exact h

theorem Ready.records (h : tape.Ready s.store c) (hfits : item.kind.fits = true)
    (hrecord : tape.recordOf item s = some r) :
    tape.Records item s c r (tape.tryAppend item s) := by
  have hfinds := (h.readied item).findsPlace r.size
  generalize heq : tape.reserve r.size (tape.readied item s) = reserved at hfinds
  have hplace : (tape.reserve r.size (tape.readied item s)).1 = reserved.1 := by rw [heq]
  cases hfinds with
  | tooLarge h' s₁ hlarge hkeeps =>
    obtain ⟨s', htry, hstore, -⟩ := tryAppend_of_reserve_error hfits hrecord heq
    have hkept := hkeeps.kept
    rw [store_readied, ← hstore] at hkept
    rw [htry]
    exact .tooLarge h' s' hlarge hplace hkept
  | refused h' s₁ hlacks hcreate =>
    obtain ⟨s', htry, hstore, hclients⟩ := tryAppend_of_reserve_error hfits hrecord heq
    rw [htry]
    exact .refused h' s₁ s' hlacks hcreate hplace hstore hclients
  | here chapter hroom hc hfits' hwritable =>
    obtain ⟨last, htry, hlast, hsame⟩ :=
      tryAppend_of_found hfits hrecord (h.readied item).has hc hfits' hwritable heq
    rw [htry]
    exact .here last chapter hroom hc hfits' hplace hsame hlast
  | turned next s₁ s' segment hlacks hcreate hstore hclients hsame hhas hfits' hwritable =>
    have hroom : (⟨segment, []⟩ : Chapter).text.length + r.size ≤ segment.capacity := by
      rw [Chapter.text, Recorded.text_nil, List.length_nil, Nat.zero_add]
      exact hfits'
    obtain ⟨last, htry, hlast, hsame'⟩ :=
      tryAppend_of_found hfits hrecord hhas rfl hroom hwritable heq
    rw [htry]
    exact .turned last s₁ s' segment hlacks hcreate hstore hclients hfits' hwritable hplace
      (hsame.trans hsame') hlast

end Tape

end CommandTape
