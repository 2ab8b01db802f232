import CommandTape.Proofs.MakingRoom

/-!
# Where records are placed

The memory that a client supplies may start anywhere, have any size and hold anything, and the
client may change its mind from call to call. What is written goes to safe places all the same
(`Placement.Safe`), no two records meet (`Placement.Before`), and nothing on the way can fail but
the client itself (`Tape.Places`). The places of a run are remembered beside it
(`TapeState.placements`): whatever is written to the current segment ends where the next record
starts (`TapeState.Placed`).
-/

namespace CommandTape

variable {σ : Type}

/-- A record, and the place that it is written to. -/
structure Placement where
  place : Tape.Place
  record : Bytes

namespace Placement

/-- The block that is written to. Each segment that is supplied lies in a block of its own. -/
def block (p : Placement) : Nat := p.place.segment.mapping.block

/-- The place is as long as the record, starts at a multiple of eight, and lies inside the bytes of
a segment that starts at one, too. -/
structure Safe (p : Placement) (store : Store) : Prop where
  lies : p.place.segment.LiesIn store
  address_mod : p.place.segment.mapping.address % Layout.alignment = 0
  start_mod : p.place.start % Layout.alignment = 0
  stop_eq : p.place.stop = p.place.start + p.record.length
  stop_le : p.place.stop ≤ p.place.segment.capacity

/-- If both go to one segment, the one record ends before the other starts. -/
def Before (p q : Placement) : Prop := p.block = q.block → p.place.stop ≤ q.place.start

/-- Where a record goes in a chapter. -/
def ofChapter (chapter : Chapter) (r : Recorded) : Placement := ⟨chapter.nextPlace r.size, r.bytes⟩

/-- Where a record was written, there is a safe place for it. -/
theorem safe_ofChapter {chapter : Chapter} {r : Recorded} {store : Store}
    (h : (chapter.write r).LiesIn store) : (ofChapter chapter r).Safe store := by
  have haddress : chapter.segment.mapping.address % Layout.alignment = 0 :=
    of_decide_eq_true h.aligned
  have hlength : (chapter.write r).text.length = chapter.text.length + r.size := by
    rw [Chapter.text, Chapter.write, Recorded.text_concat, List.length_append, r.length_bytes]
    rfl
  refine ⟨h.lies, haddress, Recorded.length_text_mod chapter.records, ?_, ?_⟩
  · exact congrArg (chapter.text.length + ·) r.length_bytes.symm
  · exact Nat.le_trans (Nat.le_of_eq hlength.symm) h.length_le

theorem Safe.mono {p : Placement} {store store' : Store} (h : p.Safe store)
    (hkept : store.KeptIn store') : p.Safe store' :=
  ⟨h.lies.mono hkept, h.address_mod, h.start_mod, h.stop_eq, h.stop_le⟩

theorem Safe.write {p : Placement} {store : Store} (h : p.Safe store) (n offset : Nat)
    (bs : Bytes) : p.Safe (store.write n offset bs) :=
  ⟨h.lies.write n offset bs, h.address_mod, h.start_mod, h.stop_eq, h.stop_le⟩

end Placement

/-- The item's record, if the item itself lies in it, is not larger than all memory. -/
def Item.Small (item : Item) : Prop :=
  item.kind.isInline = true → item.kind.recordSize ≤ Layout.memoryLimit

namespace Tape

/-- Where the record of an item is written when that is tried, if it is. -/
def placement? (tape : Tape σ) (item : Item) (s : Session σ) : Option Placement :=
  if item.kind.fits then
    match tape.recordOf item s with
    | none => none
    | some r =>
      match (tape.reserve r.size (tape.readied item s)).1 with
      | .ok place => some ⟨place, r.bytes⟩
      | .error _ => none
  else none

/-- The state of the clients once it was tried to record an item. The writing client was asked for
the blob, if the item needs one, and for a segment just if none has room for the record: then for
one of the record's size. -/
def clientsAfter (tape : Tape σ) (item : Item) (s : Session σ) : σ :=
  match tape.recordOf item s with
  | none => (tape.readied item s).clients
  | some r =>
    if tape.LacksRoom r.size then tape.askedFor r.size (tape.readied item s)
    else (tape.readied item s).clients

/-- Recording the item writes its record to its place and nothing else, asks the client when it has
to, and fails by no fault but the client's. -/
structure Places (tape : Tape σ) (item : Item) (s : Session σ) : Prop where
  /-- Memory is as it was, but for new blocks and the record. -/
  store_eq : ∃ before, s.store.KeptIn before ∧ (tape.tryAppend item s).2.2.store =
    (tape.placement? item s).elim before fun p => before.write p.block p.place.start p.record
  recorded_eq : (tape.placement? item s).toList.map Placement.record =
    (tape.recorded item s).map Recorded.bytes
  clients_eq : (tape.tryAppend item s).2.2.clients = tape.clientsAfter item s
  of_fault : ∀ f, (tape.tryAppend item s).1 = .error (.fault f) → ∃ client ∈ tape.writer,
    (blobFor client item s).1 = .error f ∨ ∃ r ∈ tape.recordOf item s,
      (client.supply r.size s.nextId (tape.readied item s).clients).1 = .error f

variable {tape : Tape σ} {s : Session σ} {c : Contents} {item : Item} {r : Recorded}

/-- Four bytes hold the length of a blob, so encoded records are small in any case. -/
theorem size_le_of_recordOf (hsmall : item.Small) (hrecord : tape.recordOf item s = some r) :
    r.size ≤ Layout.memoryLimit := by
  rcases recordOf_eq_some hrecord with
    ⟨hinline, rfl⟩ | ⟨client, blob, hinline, hlen, hwriter, hblob, rfl⟩
  · exact hsmall hinline
  · have hround := Layout.roundUp_lt blob.length
    unfold Layout.blobLimit at hlen
    show Layout.encodedSize blob.length ≤ _
    unfold Layout.encodedSize Layout.blobOffset Layout.headerSize Layout.blobHeaderSize
      Layout.memoryLimit
    omega

theorem placement?_of_no_record (hrecord : tape.recordOf item s = none) :
    tape.placement? item s = none := by
  simp only [placement?, hrecord, ite_self]

theorem placement?_of_ok (hfits : item.kind.fits = true) (hrecord : tape.recordOf item s = some r)
    {place : Place} (hplace : (tape.reserve r.size (tape.readied item s)).1 = .ok place) :
    tape.placement? item s = some ⟨place, r.bytes⟩ := by
  simp only [placement?, hfits, hrecord, hplace, ↓reduceIte]

theorem placement?_of_error (hrecord : tape.recordOf item s = some r) {h : Halt Failure}
    (hplace : (tape.reserve r.size (tape.readied item s)).1 = .error h) :
    tape.placement? item s = none := by
  simp only [placement?, hrecord, hplace, ite_self]

/-- Asking for a segment keeps all memory. -/
theorem kept_of_createSegment {size : Nat} {outcome : Outcome Failure Segment} {s₁ : Session σ}
    (h : tape.createSegment size (tape.readied item s) = (outcome, s₁)) :
    s.store.KeptIn s₁.store := by
  have hkeeps := (tape.keptIn_createSegment size (tape.readied item s)).kept
  rw [h, store_readied] at hkeeps
  exact hkeeps

/-- A segment that is obtained lies in a block that was not there. -/
theorem block_of_createSegment {size : Nat} {segment : Segment} {s₁ : Session σ}
    (h : tape.createSegment size s = (.ok segment, s₁)) :
    segment.mapping.block = s.store.next := by
  rcases tape.createSegment_cases size s with
    ⟨h', t, heq, -⟩ | ⟨other, t, heq, hadds, -, -⟩
  · cases h.symm.trans heq
  · rw [Except.ok.inj (Prod.mk.inj (h.symm.trans heq)).1]
    exact hadds.block_eq

theorem Places.of_no_record (hfits : item.kind.fits = true)
    (hrecord : tape.recordOf item s = none) : tape.Places item s := by
  obtain ⟨-, hstore, hclients, hfault⟩ := tryAppend_of_no_record hfits hrecord
  have hnone := placement?_of_no_record hrecord
  refine ⟨⟨s.store, .refl _, ?_⟩, ?_, ?_, ?_⟩
  · rw [hnone, hstore]
    rfl
  · rw [hnone, recorded, hrecord]
    cases (tape.tryAppend item s).1 <;> rfl
  · rw [hclients, clientsAfter, hrecord]
  · intro f hf
    obtain ⟨client, hclient, hblob⟩ := hfault f hf
    exact ⟨client, hclient, Or.inl hblob⟩

/-- A record that is written is at its place, and the clients were asked as they had to be. -/
theorem Places.of_ok (hfits : item.kind.fits = true) (hrecord : tape.recordOf item s = some r)
    {place : Place} (hplace : (tape.reserve r.size (tape.readied item s)).1 = .ok place)
    {last : Tape σ} {s' : Session σ}
    (htry : tape.tryAppend item s = (.ok (), last, fill s' place r.bytes))
    (hkept : s.store.KeptIn s'.store)
    (hclients : s'.clients = tape.clientsAfter item s) : tape.Places item s := by
  have hplaced := placement?_of_ok hfits hrecord hplace
  refine ⟨⟨s'.store, hkept, ?_⟩, ?_, ?_, ?_⟩
  · rw [hplaced, htry]
    rfl
  · rw [hplaced, recorded, htry, hrecord]
    rfl
  · rw [htry]
    exact hclients
  · intro f hf
    rw [htry] at hf
    cases hf

/-- A ready tape places what it records. -/
theorem Ready.places (h : tape.Ready s.store c) (hfits : item.kind.fits = true)
    (hsmall : item.Small) : tape.Places item s := by
  cases hrecord : tape.recordOf item s with
  | none => exact .of_no_record hfits hrecord
  | some r =>
    have hle := size_le_of_recordOf hsmall hrecord
    have hasked :=
      tape.clients_createSegment r.size_mod (Word.add_lt_limit hle) (tape.readied item s)
    have hrecords := h.records hfits hrecord
    generalize htry : tape.tryAppend item s = result at hrecords
    cases hrecords with
    | tooLarge h' s' hlarge hplace hkept => exact absurd hlarge (Nat.not_lt.2 hle)
    | refused h' s₁ s' hlacks hcreate hplace hstore hclients =>
      rw [hcreate] at hasked
      have hkept := kept_of_createSegment hcreate
      have hnone := placement?_of_error hrecord hplace
      refine ⟨⟨s'.store, hstore ▸ hkept, ?_⟩, ?_, ?_, ?_⟩
      · rw [hnone, htry]
        rfl
      · rw [hnone, recorded, htry]
        rfl
      · rw [htry, clientsAfter, hrecord]
        exact (hclients.trans hasked).trans (if_pos hlacks).symm
      · intro f hf
        rw [htry] at hf
        obtain rfl : h' = .fault f := Except.error.inj hf
        obtain ⟨client, hclient, hsupply⟩ :=
          supply_of_createSegment_fault h.capacity_mod r.size_mod (Word.add_lt_limit hle)
            (congrArg Prod.fst hcreate)
        rw [nextId_readied] at hsupply
        exact ⟨client, hclient, Or.inr ⟨r, hrecord, hsupply⟩⟩
    | here last chapter hroom hc hfits' hplace hsame hhas =>
      refine .of_ok hfits hrecord hplace htry ?_ ?_
      · rw [store_readied]
        exact .refl _
      · rw [clientsAfter, hrecord]
        exact (if_neg hroom).symm
    | turned last s₁ s' segment hlacks hcreate hstore hclients hfits' hwritable hplace hsame hhas =>
      rw [hcreate] at hasked
      have hkept := kept_of_createSegment hcreate
      refine .of_ok hfits hrecord hplace htry (hstore ▸ hkept) ?_
      rw [clientsAfter, hrecord]
      exact (hclients.trans hasked).trans (if_pos hlacks).symm

end Tape

/-! ## Steps -/

/-- Where a step writes a record, if it does. -/
def Step.placement? (d : TapeState σ) : Step σ → Option Placement
  | tryAppend item => d.tape.placement? item d.session
  | append item => d.tape.placement? item d.session
  | _ => none

namespace TapeState

/-- What is written in the course of steps, and where. -/
def placements (d : TapeState σ) : List (Step σ) → List Placement
  | [] => []
  | step :: rest => (step.placement? d).toList ++ (step.perform d).placements rest

/-- The tape is ready, all that was written so far is at safe places, and nothing of it lies behind
the place where the next record starts. -/
structure Placed (d : TapeState σ) (c : Contents) (placed : List Placement) : Prop where
  ready : d.tape.Ready d.session.store c
  safe : ∀ p ∈ placed, p.Safe d.session.store
  before : placed.Pairwise Placement.Before
  stop_le : ∀ p ∈ placed, ∀ segment ∈ d.tape.writable, p.block = segment.mapping.block →
    p.place.stop ≤ d.tape.written

namespace Placed

variable {d : TapeState σ} {c : Contents} {placed : List Placement} {item : Item}

/-- Nothing was written to a tape as it is made. -/
theorem of_fresh {segments : List Segment} (h : d.tape.Fresh d.session.store segments) :
    ∃ c, d.Placed c [] := by
  obtain ⟨c, hready, -, -⟩ := h.ready
  exact ⟨c, hready, by simp, List.Pairwise.nil, by simp⟩

theorem of_keptIn (h : d.Placed c placed) {s : Session σ}
    (hkept : d.session.store.KeptIn s.store) : TapeState.Placed ⟨d.tape, s⟩ c placed := by
  refine ⟨h.ready.mono hkept, ?_, h.before, h.stop_le⟩
  intro p hmem
  exact (h.safe p hmem).mono hkept

theorem of_store_eq (h : d.Placed c placed) {s : Session σ}
    (hstore : s.store = d.session.store) : TapeState.Placed ⟨d.tape, s⟩ c placed := by
  refine h.of_keptIn ?_
  rw [hstore]
  exact .refl _

/-- A record is written behind all that was written to the same segment. -/
theorem write (h : d.Placed c placed) {last : Tape σ} {s' : Session σ} {c' : Contents}
    {chapter : Chapter} {r : Recorded} (hsame : d.tape.SameSetup last)
    (hhas : last.Has (Tape.fill s' (chapter.nextPlace r.size) r.bytes).store (c'.write r))
    (hc : c'.current = some chapter) (hkept : d.session.store.KeptIn s'.store)
    (hbefore : ∀ p ∈ placed, p.Before (.ofChapter chapter r)) :
    TapeState.Placed ⟨last, Tape.fill s' (chapter.nextPlace r.size) r.bytes⟩ (c'.write r)
      (placed ++ [.ofChapter chapter r]) := by
  have hcurrent := Contents.current_write hc r
  obtain ⟨hwritable, hend⟩ := hhas.last_of_write hc
  have hlies := hhas.chapters _ (Tape.Has.mem_chapters_of_current hcurrent)
  have hsafe := Placement.safe_ofChapter hlies
  have hwritten : last.written = (Placement.ofChapter chapter r).place.stop := by
    rw [hend]
    exact hsafe.stop_eq.symm
  refine ⟨h.ready.write hsame hhas hc, ?_, ?_, ?_⟩
  · intro p hmem
    rcases List.mem_append.1 hmem with hmem | hmem
    · exact ((h.safe p hmem).mono hkept).write _ _ _
    · rw [List.mem_singleton.1 hmem]
      exact hsafe
  · refine List.pairwise_append.2 ⟨h.before, List.pairwise_singleton _ _, ?_⟩
    intro p hmem q hq
    rw [List.mem_singleton.1 hq]
    exact hbefore p hmem
  · intro p hmem segment hsegment hblock
    rw [Option.some.inj (hsegment.symm.trans hwritable)] at hblock
    rw [hwritten]
    rcases List.mem_append.1 hmem with hmem | hmem
    · exact Nat.le_trans (hbefore p hmem hblock) (Nat.le_add_right _ _)
    · rw [List.mem_singleton.1 hmem]

theorem tryAppend (h : d.Placed c placed) (item : Item) :
    ∃ c', (TapeState.ofResult (d.tape.tryAppend item d.session)).Placed c'
      (placed ++ (d.tape.placement? item d.session).toList) := by
  have hnothing : ∀ s : Session σ, d.session.store.KeptIn s.store →
      ∃ c', TapeState.Placed ⟨d.tape, s⟩ c' (placed ++ (none : Option Placement).toList) := by
    intro s hkept
    rw [Option.toList_none, List.append_nil]
    exact ⟨c, h.of_keptIn hkept⟩
  by_cases hfits : item.kind.fits = true
  · cases hrecord : d.tape.recordOf item d.session with
    | none =>
      obtain ⟨htape, hstore, -, -⟩ := Tape.tryAppend_of_no_record hfits hrecord
      rw [Tape.placement?_of_no_record hrecord, TapeState.ofResult, htape]
      exact hnothing _ (hstore ▸ .refl _)
    | some r =>
      have hrecords := h.ready.records hfits hrecord
      generalize d.tape.tryAppend item d.session = result at hrecords
      cases hrecords with
      | tooLarge h' s' hlarge hplace hkept =>
        rw [Tape.placement?_of_error hrecord hplace]
        exact hnothing s' hkept
      | refused h' s₁ s' hlacks hcreate hplace hstore hclients =>
        have hkept := Tape.kept_of_createSegment hcreate
        rw [Tape.placement?_of_error hrecord hplace]
        exact hnothing s' (hstore ▸ hkept)
      | here last chapter hroom hc hfits' hplace hsame hhas =>
        have hsegment : d.tape.writable = some chapter.segment := by
          rw [h.ready.has.writable, hc]
          rfl
        have hstart : (Placement.ofChapter chapter r).place.start = d.tape.written :=
          (h.ready.has.written_eq hc).symm
        rw [Tape.placement?_of_ok hfits hrecord hplace]
        refine ⟨_, h.write hsame hhas hc ?_ ?_⟩
        · rw [Tape.store_readied]
          exact .refl _
        · intro p hmem hblock
          rw [hstart]
          exact h.stop_le p hmem chapter.segment hsegment hblock
      | turned last s₁ s' segment hlacks hcreate hstore hclients hfits' hwritable hplace hsame
          hhas =>
        have hkept := Tape.kept_of_createSegment hcreate
        have hblock := Tape.block_of_createSegment hcreate
        rw [Tape.store_readied] at hblock
        rw [Tape.placement?_of_ok hfits hrecord hplace]
        refine ⟨_, h.write hsame hhas rfl (hstore ▸ hkept) ?_⟩
        -- nothing was written to the new block yet
        intro p hmem hsame
        have hlt := (h.safe p hmem).lies.block_lt
        have heq : p.block = d.session.store.next := hsame.trans hblock
        exact absurd (heq ▸ hlt) (Nat.lt_irrefl _)
  · have hnone : d.tape.placement? item d.session = none := if_neg hfits
    rw [hnone]
    rw [Tape.tryAppend, if_neg hfits]
    exact hnothing _ (.refl _)

/-- Every step writes to safe places, if what is set to supply memory offers none that may not be
written to. -/
theorem perform (h : d.Placed c placed) (step : Step σ)
    (hclient : ∀ client, step = .setWriter (some client) → client.OffersWritable) :
    ∃ c', (step.perform d).Placed c' (placed ++ (step.placement? d).toList) := by
  have hquiet {next : TapeState σ} {c' : Contents} (hnext : next.Placed c' placed) :
      ∃ c', next.Placed c' (placed ++ (none : Option Placement).toList) := by
    rw [Option.toList_none, List.append_nil]
    exact ⟨c', hnext⟩
  cases step with
  | tryAppend item => exact h.tryAppend item
  | append item =>
    rw [Step.perform, Tape.ofResult_append]
    exact h.tryAppend item
  | setWriter client =>
    refine hquiet ⟨h.ready.setWriter ?_, h.safe, h.before, h.stop_le⟩
    intro other hother
    exact hclient other (congrArg Step.setWriter hother)
  | setReader client =>
    exact hquiet ⟨h.ready.setReader client, h.safe, h.before, h.stop_le⟩
  | createSegment minimum =>
    exact hquiet (h.of_keptIn (d.tape.keptIn_createSegment minimum d.session).kept)
  | forEach v f start =>
    exact hquiet (h.of_store_eq (d.tape.forEach_destroys v f start d.session).1)
  | replay v context => exact hquiet (h.of_store_eq (d.tape.store_replay v context d.session))
  | handOff sender => exact hquiet (h.of_store_eq (d.tape.store_handOff sender d.session))
  | clear =>
    obtain ⟨next, s', heq, hstore, -, hnext, hsame⟩ := h.ready.has.clear
    have hnone : next.writable = none := hnext.writable
    rw [Step.perform, heq]
    have hcleared : TapeState.Placed ⟨next, s'⟩ ⟨[], [], none⟩ placed := by
      refine ⟨⟨hnext, ?_, ?_, ?_⟩, ?_, h.before, ?_⟩
      · rw [hsame.segmentCapacity_eq]
        exact h.ready.capacity_mod
      · rw [hsame.writer_eq]
        exact h.ready.offers
      · simp [hnone]
      · rw [hstore]
        exact h.safe
      · simp [hnone]
    exact hquiet hcleared

theorem run (h : d.Placed c placed) {steps : List (Step σ)}
    (hclients : ∀ client, .setWriter (some client) ∈ steps → client.OffersWritable) :
    ∃ c', (d.run steps).Placed c' (placed ++ d.placements steps) := by
  induction steps generalizing d c placed with
  | nil =>
    rw [placements, List.append_nil]
    exact ⟨c, h⟩
  | cons step rest ih =>
    obtain ⟨c', hstep⟩ := h.perform step
      (fun client heq => hclients client (heq ▸ List.mem_cons_self))
    have hrest := ih hstep (fun client hmem => hclients client (List.mem_cons_of_mem _ hmem))
    rw [List.append_assoc] at hrest
    exact hrest

end Placed

/-- Whatever the writing clients do, as long as what they offer may be written to: all records are
written inside aligned segments, at multiples of eight, and apart from each other; and the next item
is recorded by writing its record there and nothing else, by asking for a segment of the record's
size just if none has room for it, and by no fault but the client's. -/
theorem placed_safely {d : TapeState σ} {segments : List Segment}
    (hfresh : d.tape.Fresh d.session.store segments) {steps : List (Step σ)}
    (hclients : ∀ client, .setWriter (some client) ∈ steps → client.OffersWritable) :
    let last := d.run steps
    (∀ p ∈ d.placements steps, p.Safe last.session.store) ∧
    (d.placements steps).Pairwise Placement.Before ∧
    ∀ item, item.kind.fits = true → item.Small → last.tape.Places item last.session := by
  intro last
  obtain ⟨c, hstart⟩ := Placed.of_fresh hfresh
  obtain ⟨c', hlast⟩ := hstart.run hclients
  exact ⟨hlast.safe, hlast.before, fun item hfits hitem => hlast.ready.places hfits hitem⟩

end TapeState

/-! ## A client whose segments have an odd size -/

/-- What a sample client offers may be written to, unless the client is set up otherwise. -/
theorem Supplier.offersWritable {c : Supplier} (hmemory : c.memory ≠ .readOnly) (e : Encoder)
    (number : Nat) : (c.client e number).OffersWritable := by
  intro size next state supply clients offer hsupply hoffer
  simp only [client] at hsupply
  split at hsupply
  · rw [← Except.ok.inj (Prod.mk.inj hsupply).1] at hoffer
    cases hoffer
  · rw [← Except.ok.inj (Prod.mk.inj hsupply).1] at hoffer
    dsimp only [offer?] at hoffer
    split at hoffer
    · split at hoffer
      · rw [← Option.some.inj hoffer]
      · cases hoffer
    · split at hoffer
      · rw [← Option.some.inj hoffer]
      · cases hoffer
    · split at hoffer
      · rw [← Option.some.inj hoffer]
      · cases hoffer
    · rename_i hreadOnly
      exact absurd hreadOnly hmemory

namespace Sample

/-- A client whose segments have sixty-one bytes. -/
def unevenSupplier : Supplier := ⟨61, 0, 0xaa, none, none, .own 0⟩

/-- Four items for a segment that has room for three. -/
def unevenSteps : List (Step Tallies) :=
  .setWriter (some (unevenSupplier.client .core 0)) ::
    [1, 2, 3, 4].map fun v => .append (uniform byteKind v)

end Sample

/-- Behind forty-eight bytes, the thirteen that are left are no room for a record of sixteen. -/
theorem TapeState.placed_safely_sample :
    let last := Sample.tapeState.run Sample.unevenSteps
    (Sample.tapeState.placements Sample.unevenSteps).map
        (fun p => (p.block, p.place.start, p.place.stop, p.place.segment.capacity)) =
      [(0, 0, 16, 61), (0, 16, 32, 61), (0, 32, 48, 61), (1, 0, 16, 61)] ∧
    (∀ p ∈ Sample.tapeState.placements Sample.unevenSteps, p.Safe last.session.store) ∧
    (Sample.tapeState.placements Sample.unevenSteps).Pairwise Placement.Before ∧
    last.tape.Places (Sample.uniform Sample.byteKind 5) last.session := by
  intro last
  have hmade : Tape.withCapacity 12 = .ok Sample.tapeState.tape := rfl
  have hown : Sample.unevenSupplier.memory ≠ .readOnly := by decide
  have hclients : ∀ client, .setWriter (some client) ∈ Sample.unevenSteps →
      client.OffersWritable := by
    intro client hmem
    rcases List.mem_cons.1 hmem with heq | hmem
    · rw [Option.some.inj (Step.setWriter.inj heq)]
      exact Supplier.offersWritable hown .core 0
    · obtain ⟨v, -, hv⟩ := List.mem_map.1 hmem
      cases hv
  have hfits : (Sample.uniform Sample.byteKind 5).kind.fits = true := by decide
  have hsmall : (Sample.uniform Sample.byteKind 5).Small := fun _ => by decide
  obtain ⟨hsafe, hbefore, hplaces⟩ := TapeState.placed_safely (.withCapacity hmade) hclients
  exact ⟨by decide +kernel, hsafe, hbefore, hplaces _ hfits hsmall⟩

end CommandTape
