import CommandTape.Proofs.Contents
import CommandTape.Proofs.Slots
import CommandTape.Tape.Recording

/-!
# What recording comes to

Each operation on the way of an item onto a tape is described once by all that it can come to:
obtaining a segment (`Tape.createSegment_cases`), finding a place (`Tape.Reserved`), storing a
record (`Tape.Stored`) and recording an item (`Tape.Appended`). In each case the tape still has its
contents, or these with the record added.
-/

namespace CommandTape

/-- The place of the next `size` bytes of a chapter, behind its records. -/
def Chapter.nextPlace (chapter : Chapter) (size : Nat) : Tape.Place :=
  ⟨chapter.segment, chapter.text.length, chapter.text.length + size⟩

namespace Tape

variable {σ : Type} {tape : Tape σ} {s : Session σ} {c : Contents}

/-- The clients and the capacity of segments are the same. -/
structure SameSetup (before after : Tape σ) : Prop where
  reader_eq : after.reader = before.reader
  writer_eq : after.writer = before.writer
  segmentCapacity_eq : after.segmentCapacity = before.segmentCapacity

theorem SameSetup.refl (tape : Tape σ) : tape.SameSetup tape := ⟨rfl, rfl, rfl⟩

theorem SameSetup.trans {next last : Tape σ} (h : tape.SameSetup next) (h' : next.SameSetup last) :
    tape.SameSetup last :=
  ⟨h'.reader_eq.trans h.reader_eq, h'.writer_eq.trans h.writer_eq,
    h'.segmentCapacity_eq.trans h.segmentCapacity_eq⟩

/-! ## Segments -/

/-- What asking a client for a segment comes to. -/
theorem supplied_cases (client : WritingClient σ) (size : Nat) (s : Session σ) :
    (∃ h s', supplied client size s = (.error h, s') ∧ s.Keeps s') ∨
    ∃ segment s', supplied client size s = (.ok segment, s') ∧ s.Adds s' segment ∧
      size ≤ segment.capacity ∧ segment.isAligned = true := by
  rcases hsupply : client.supply size s.nextId s.clients with ⟨f | supply, clients⟩
  · refine Or.inl ⟨.fault f, { s with clients := clients }, ?_, .refl _, rfl⟩
    simp only [supplied, hsupply]
  · have hasked := Session.Keeps.asked s supply clients
    cases hoffer : supply.offer with
    | none =>
      refine Or.inl ⟨.failed (.clientRefused size), _, ?_, hasked.answered supply⟩
      simp only [supplied, hsupply, hoffer]
    | some offer =>
      have hadds := (s.asked supply clients).adds_adopt offer
      rcases hadopt : (s.asked supply clients).adopt offer with ⟨segment, s'⟩
      rw [hadopt] at hadds
      have hadds' : s.Adds (s'.answered supply) segment :=
        ⟨(hasked.trans hadds.keeps).answered supply, hadds.block_eq, hadds.capacity_eq,
          hadds.lies⟩
      simp only [supplied, hsupply, hoffer, hadopt]
      by_cases hsmall : segment.capacity < size
      · rw [if_pos hsmall]
        exact Or.inl ⟨_, _, rfl, hadds'.keeps⟩
      · rw [if_neg hsmall]
        by_cases haligned : segment.isAligned = true
        · rw [if_pos haligned]
          exact Or.inr ⟨_, _, rfl, hadds'.note _, Nat.le_of_not_lt hsmall, haligned⟩
        · rw [if_neg haligned]
          exact Or.inl ⟨_, _, rfl, hadds'.keeps⟩

/-- What obtaining a segment comes to. -/
theorem createSegment_cases (tape : Tape σ) (minimum : Nat) (s : Session σ) :
    (∃ h s', tape.createSegment minimum s = (.error h, s') ∧ s.Keeps s') ∨
    ∃ segment s', tape.createSegment minimum s = (.ok segment, s') ∧ s.Adds s' segment ∧
      minimum ≤ segment.capacity ∧ segment.isAligned = true := by
  by_cases hlt : minimum + 8 < Word.limit
  · have halign := Word.alignUp_of_lt hlt
    have hle := Layout.le_roundUp minimum
    cases hwriter : tape.writer with
    | some client =>
      simp only [createSegment, halign, hwriter]
      rcases supplied_cases client (Layout.roundUp minimum) s with
        ⟨h, s', heq, hkeeps⟩ | ⟨segment, s', heq, hadds, hsize, haligned⟩
      · exact Or.inl ⟨h, s', heq, hkeeps⟩
      · exact Or.inr ⟨segment, s', heq, hadds, Nat.le_trans hle hsize, haligned⟩
    | none =>
      simp only [createSegment, halign, hwriter, allocated]
      rcases s.allocate_cases (max (Layout.roundUp minimum) tape.segmentCapacity) with
        ⟨h, heq⟩ | ⟨segment, s', heq, hadds, hcapacity, haligned, -⟩
      · rw [heq]
        exact Or.inl ⟨h, s, rfl, .refl s⟩
      · rw [heq]
        refine Or.inr ⟨segment, _, rfl, hadds.note _, ?_, haligned⟩
        rw [hcapacity]
        exact Nat.le_trans hle (Nat.le_max_left _ _)
  · have halign := Word.alignUp_of_le (Nat.le_of_not_lt hlt)
    simp only [createSegment, halign]
    exact Or.inl ⟨_, s, rfl, .refl s⟩

theorem keptIn_createSegment (tape : Tape σ) (minimum : Nat) (s : Session σ) :
    s.Keeps (tape.createSegment minimum s).2 := by
  rcases tape.createSegment_cases minimum s with
    ⟨h, s', heq, hkeeps⟩ | ⟨segment, s', heq, hadds, -, -⟩
  · rw [heq]
    exact hkeeps
  · rw [heq]
    exact hadds.keeps

/-- A segment that is installed begins a new chapter. -/
theorem Has.install (h : tape.Has s.store c) {segment : Segment} (hlies : segment.LiesIn s.store)
    (haligned : segment.isAligned = true)
    (hnew : ∀ other ∈ tape.frozen ++ tape.writable.toList,
      other.mapping.block ≠ segment.mapping.block) :
    ∃ next s', tape.install segment s = (.ok (), next, s') ∧ s.Keeps s' ∧ s'.store = s.store ∧
      next.Has s'.store (c.turn segment) ∧ tape.SameSetup next := by
  cases hc : c.current with
  | none =>
    have hwritable : tape.writable = none := by rw [h.writable, hc]; rfl
    have hleft : c.left = c.full := by simp [Contents.left, hc]
    have hfrozen : tape.frozen = c.given ++ c.left.map Chapter.segment := by rw [hleft, h.frozen]
    simp only [Tape.install, hwritable]
    exact ⟨_, s, rfl, .refl s, rfl, h.turn hlies haligned hnew hfrozen rfl rfl rfl, rfl, rfl, rfl⟩
  | some chapter =>
    have hwritable : tape.writable = some chapter.segment := by rw [h.writable, hc]; rfl
    have hchapter := h.chapters chapter (mem_chapters_of_current hc)
    simp only [Tape.install, hwritable, h.written_eq hc]
    by_cases hempty : chapter.records = []
    · have hzero : chapter.text.length = 0 := Recorded.length_text_eq_zero_iff.2 hempty
      have hleft : c.left = c.full := by simp [Contents.left, hc, hempty]
      have hfrozen : tape.frozen = c.given ++ c.left.map Chapter.segment := by rw [hleft, h.frozen]
      rw [if_pos hzero]
      exact ⟨_, s, rfl, .refl s, rfl, h.turn hlies haligned hnew hfrozen rfl rfl rfl, rfl, rfl, rfl⟩
    · have hpos : ¬chapter.text.length = 0 := fun hzero =>
        hempty (Recorded.length_text_eq_zero_iff.1 hzero)
      have hleft : c.left = c.full ++ [chapter.close] := by simp [Contents.left, hc, hempty]
      have hfrozen : tape.frozen ++ [chapter.segment.cut chapter.text.length] =
          c.given ++ c.left.map Chapter.segment := by
        rw [hleft, h.frozen, List.map_append, List.append_assoc]
        rfl
      rw [if_neg hpos, Segment.truncate_eq_cut hchapter.length_le]
      exact ⟨_, _, rfl, (Session.Keeps.refl s).note _, rfl,
        h.turn hlies haligned hnew hfrozen rfl rfl rfl, rfl, rfl, rfl⟩

/-! ## Places -/

/-- What finding a place for `size` bytes comes to, on a tape with given contents. -/
inductive Reserved (tape : Tape σ) (s : Session σ) (c : Contents) (size : Nat) :
    Outcome Failure Place × Tape σ × Session σ → Prop where
  /-- There is none, and the tape stays as it was. -/
  | refused (h : Halt Failure) (s' : Session σ) (hkeeps : s.Keeps s') :
      Reserved tape s c size (.error h, tape, s')
  /-- The page was turned to a segment that may not be written to. -/
  | readOnly (next : Tape σ) (s' : Session σ) (segment : Segment)
      (hreadOnly : segment.mapping.writable = false) (hkeeps : s.Keeps s')
      (hsame : tape.SameSetup next) (hhas : next.Has s'.store (c.turn segment)) :
      Reserved tape s c size (.error (.fault .readOnly), next, s')
  /-- There is one in the current chapter, or in a new one. -/
  | found (next : Tape σ) (s' : Session σ) (c' : Contents) (chapter : Chapter)
      (hkeeps : s.Keeps s') (hsame : tape.SameSetup next)
      (hturn : c' = c ∨ ∃ segment, c' = c.turn segment) (hhas : next.Has s'.store c')
      (hc : c'.current = some chapter)
      (hfits : chapter.text.length + size ≤ chapter.segment.capacity)
      (hwritable : chapter.segment.mapping.writable = true) :
      Reserved tape s c size
        (.ok ⟨chapter.segment, chapter.text.length, chapter.text.length + size⟩, next, s')

/-- The next place is behind the records of the current chapter, if its segment may be written
to. -/
theorem Has.nextPlace (h : tape.Has s.store c) {chapter : Chapter} {size : Nat}
    (hc : c.current = some chapter)
    (hfits : chapter.text.length + size ≤ chapter.segment.capacity) :
    tape.nextPlace size =
      if chapter.segment.mapping.writable then
        .ok ⟨chapter.segment, chapter.text.length, chapter.text.length + size⟩
      else .error .readOnly := by
  have hwritable : tape.writable = some chapter.segment := by rw [h.writable, hc]; rfl
  have hcap := chapter.segment.capacity_le
  have hmap := Nat.lt_trans chapter.segment.mapping.length_lt Word.memoryLimit_lt
  have hadd : Word.add chapter.text.length size = .ok (chapter.text.length + size) :=
    Word.add_of_lt (by omega)
  have hrange : Word.checkRange chapter.text.length (chapter.text.length + size)
      chapter.segment.capacity = .ok () := Word.checkRange_eq_ok_iff.2 ⟨by omega, hfits⟩
  simp only [Tape.nextPlace, hwritable, h.written_eq hc, hadd, hrange]

/-- If there is room, it is in the current chapter. -/
theorem Has.of_hasRoom (h : tape.Has s.store c) {size : Nat}
    (hroom : tape.hasRoom size = .ok true) :
    ∃ chapter, c.current = some chapter ∧
      chapter.text.length + size ≤ chapter.segment.capacity := by
  cases hc : c.current with
  | none =>
    have hwritable : tape.writable = none := by rw [h.writable, hc]; rfl
    simp [Tape.hasRoom, hwritable] at hroom
  | some chapter =>
    have hwritable : tape.writable = some chapter.segment := by rw [h.writable, hc]; rfl
    refine ⟨chapter, rfl, ?_⟩
    simp only [Tape.hasRoom, hwritable, h.written_eq hc, Word.add] at hroom
    split at hroom
    · exact absurd hroom (by simp)
    · rename_i stop hadd
      split at hadd
      · injection hadd with hstop
        injection hroom with hle
        rw [hstop]
        exact of_decide_eq_true hle
      · exact absurd hadd (by simp)

/-- A segment that was added lies in none of the tape's blocks. -/
theorem Has.ne_of_adds (h : tape.Has s.store c) {s' : Session σ} {segment : Segment}
    (hadds : s.Adds s' segment) :
    ∀ other ∈ tape.frozen ++ tape.writable.toList,
      other.mapping.block ≠ segment.mapping.block := by
  intro other hmem
  rw [hadds.block_eq]
  exact Nat.ne_of_lt (h.lies hmem).block_lt

/-- A segment that is obtained is the next to be written to, if that is allowed. -/
theorem Has.reserve_created (h : tape.Has s.store c) {size : Nat} {segment : Segment}
    {s' : Session σ} (hroom : tape.hasRoom size = .ok false)
    (hcreate : tape.createSegment size s = (.ok segment, s')) :
    ∃ next s'', s.Keeps s'' ∧ tape.SameSetup next ∧ next.Has s''.store (c.turn segment) ∧
      size ≤ segment.capacity ∧ tape.reserve size s =
        (if segment.mapping.writable then .ok ⟨segment, 0, 0 + size⟩
          else .error (.fault .readOnly), next, s'') := by
  rcases tape.createSegment_cases size s with
    ⟨h', t, heq, -⟩ | ⟨other, t, heq, hadds, hsize, haligned⟩
  · cases hcreate.symm.trans heq
  · obtain ⟨hsegment, rfl⟩ := Prod.mk.inj (hcreate.symm.trans heq)
    obtain rfl := Except.ok.inj hsegment
    obtain ⟨next, s'', hinstall, hkeeps, -, hnext, hsame⟩ :=
      (h.mono hadds.keeps.kept).install hadds.lies haligned (h.ne_of_adds hadds)
    have hc : (c.turn segment).current = some ⟨segment, []⟩ := rfl
    have hfits : (⟨segment, []⟩ : Chapter).text.length + size ≤ segment.capacity := by
      rw [Chapter.text, Recorded.text_nil, List.length_nil, Nat.zero_add]
      exact hsize
    refine ⟨next, s'', hadds.keeps.trans hkeeps, hsame, hnext, hsize, ?_⟩
    simp only [Tape.reserve, makeRoom, hroom, hcreate, hinstall, Outcome.ofFaulty_ok,
      hnext.nextPlace hc hfits]
    by_cases hwritable : segment.mapping.writable = true
    · rw [if_pos hwritable, if_pos hwritable]
      rfl
    · rw [if_neg hwritable, if_neg hwritable]
      rfl

theorem Has.reserve (h : tape.Has s.store c) (size : Nat) :
    tape.Reserved s c size (tape.reserve size s) := by
  cases hroom : tape.hasRoom size with
  | error f =>
    simp only [Tape.reserve, makeRoom, hroom]
    exact .refused _ s (.refl s)
  | ok fits =>
    cases fits with
    | true =>
      obtain ⟨chapter, hc, hfits⟩ := h.of_hasRoom hroom
      simp only [Tape.reserve, makeRoom, hroom, h.nextPlace hc hfits]
      by_cases hwritable : chapter.segment.mapping.writable = true
      · rw [if_pos hwritable]
        exact .found tape s c chapter (.refl s) (.refl tape) (Or.inl rfl) h hc hfits hwritable
      · rw [if_neg hwritable]
        exact .refused _ s (.refl s)
    | false =>
      rcases hcreate : tape.createSegment size s with ⟨h' | segment, s'⟩
      · have hkeeps := tape.keptIn_createSegment size s
        rw [hcreate] at hkeeps
        simp only [Tape.reserve, makeRoom, hroom, hcreate]
        exact .refused h' s' hkeeps
      · obtain ⟨next, s'', hkeeps, hsame, hnext, hsize, heq⟩ := h.reserve_created hroom hcreate
        rw [heq]
        by_cases hwritable : segment.mapping.writable = true
        · rw [if_pos hwritable]
          refine .found next s'' _ ⟨segment, []⟩ hkeeps hsame (Or.inr ⟨segment, rfl⟩) hnext rfl ?_
            hwritable
          rw [Chapter.text, Recorded.text_nil, List.length_nil, Nat.zero_add]
          exact hsize
        · rw [if_neg hwritable]
          exact .readOnly next s'' segment (Bool.eq_false_iff.2 hwritable) hkeeps hsame hnext

/-! ## Records -/

/-- What storing a record comes to, on a tape with given contents. -/
inductive Stored (tape : Tape σ) (s : Session σ) (c : Contents) (r : Recorded) :
    Outcome Failure Unit × Tape σ × Session σ → Prop where
  /-- There is no place for it, and the tape stays as it was. -/
  | refused (h : Halt Failure) (s' : Session σ) (hkeeps : s.Keeps s') :
      Stored tape s c r (.error h, tape, s')
  /-- The page was turned to a segment that may not be written to. -/
  | readOnly (next : Tape σ) (s' : Session σ) (segment : Segment)
      (hreadOnly : segment.mapping.writable = false) (hkeeps : s.Keeps s')
      (hsame : tape.SameSetup next) (hhas : next.Has s'.store (c.turn segment)) :
      Stored tape s c r (.error (.fault .readOnly), next, s')
  /-- It is written behind the current chapter, or into a new one. -/
  | written (next : Tape σ) (s' : Session σ) (c' : Contents) (chapter : Chapter)
      (hkeeps : s.Keeps s') (hsame : tape.SameSetup next)
      (hturn : c' = c ∨ ∃ segment, c' = c.turn segment) (hc : c'.current = some chapter)
      (hhas : next.Has (s'.store.write chapter.segment.mapping.block chapter.text.length r.bytes)
        (c'.write r)) :
      Stored tape s c r (.ok (), next,
        { s' with
          store := s'.store.write chapter.segment.mapping.block chapter.text.length r.bytes })

/-- Records of a tape's own start at multiples of eight. -/
theorem isAligned_place {chapter : Chapter} (haligned : chapter.segment.isAligned = true)
    (stop : Nat) : Place.isAligned ⟨chapter.segment, chapter.text.length, stop⟩ = true := by
  have hmod := Recorded.length_text_mod chapter.records
  have haddress : chapter.segment.mapping.address % 8 = 0 := of_decide_eq_true haligned
  refine decide_eq_true ?_
  show (chapter.segment.mapping.address + chapter.text.length) % 8 = 0
  rw [Chapter.text]
  omega

/-- The record of an inline item goes to the place that is found for it. -/
theorem storeInline_of_found {next : Tape σ} {s' : Session σ} {c' : Contents} {chapter : Chapter}
    {item : Item} (hinline : item.kind.isInline = true) (hhas : next.Has s'.store c')
    (hc : c'.current = some chapter)
    (hfits : chapter.text.length + item.kind.recordSize ≤ chapter.segment.capacity)
    (hwritable : chapter.segment.mapping.writable = true)
    (hreserve : tape.reserve item.kind.recordSize s =
      (.ok (chapter.nextPlace item.kind.recordSize), next, s')) :
    ∃ last, tape.storeInline item s =
        (.ok (), last, fill s' (chapter.nextPlace item.kind.recordSize) (Record.inline item)) ∧
      last.Has (fill s' (chapter.nextPlace item.kind.recordSize) (Record.inline item)).store
        (c'.write (.inline item hinline)) ∧ next.SameSetup last := by
  have hsize := Record.length_inline item
  have haligned := isAligned_place (hhas.chapters chapter (Has.mem_chapters_of_current hc)).aligned
    (chapter.text.length + item.kind.recordSize)
  have haligned : (chapter.nextPlace item.kind.recordSize).isAligned = true := haligned
  simp only [storeInline, hreserve, haligned, ↓reduceIte]
  refine ⟨_, rfl, ?_, rfl, rfl, rfl⟩
  rw [← hsize] at hfits
  refine Has.write (r := .inline item hinline) hhas hc hfits hwritable rfl rfl ?_ ?_
  · rw [Recorded.bytes, hsize]
    rfl
  · by_cases hdrop : item.kind.needsDrop = true
    · simp only [hdrop, ↓reduceIte, Journal.toList_add, Recorded.pending, Place.location,
        Chapter.nextPlace]
    · simp only [hdrop, Bool.false_eq_true, ↓reduceIte, Recorded.pending, List.append_nil]

/-- The record of a blob goes to the place that is found for it. -/
theorem storeBlob_of_found {next : Tape σ} {s' : Session σ} {c' : Contents} {chapter : Chapter}
    {item : Item} {blob : Bytes} (hinline : item.kind.isInline = false)
    (hlen : blob.length < Layout.blobLimit) (hhas : next.Has s'.store c')
    (hc : c'.current = some chapter)
    (hfits : chapter.text.length + Layout.encodedSize blob.length ≤ chapter.segment.capacity)
    (hwritable : chapter.segment.mapping.writable = true)
    (hreserve : tape.reserve (Layout.encodedSize blob.length) s =
      (.ok (chapter.nextPlace (Layout.encodedSize blob.length)), next, s')) :
    ∃ last, tape.storeBlob item.kind.tag blob s =
        (.ok (), last, fill s' (chapter.nextPlace (Layout.encodedSize blob.length))
          (Record.encoded item.kind.tag blob)) ∧
      last.Has (fill s' (chapter.nextPlace (Layout.encodedSize blob.length))
        (Record.encoded item.kind.tag blob)).store (c'.write (.encoded item blob hinline hlen)) ∧
      next.SameSetup last := by
  have hsize := Record.length_encoded item.kind.tag blob
  simp only [storeBlob, hlen, Word.encodedSize_of_lt hlen, hreserve, ↓reduceIte]
  refine ⟨_, rfl, ?_, rfl, rfl, rfl⟩
  rw [← hsize] at hfits
  refine Has.write (r := .encoded item blob hinline hlen) hhas hc hfits hwritable rfl rfl ?_
    (List.append_nil _).symm
  rw [Recorded.bytes, hsize]
  rfl

theorem Has.storeInline (h : tape.Has s.store c) {item : Item}
    (hinline : item.kind.isInline = true) :
    tape.Stored s c (.inline item hinline) (tape.storeInline item s) := by
  have hreserve := h.reserve item.kind.recordSize
  generalize heq : tape.reserve item.kind.recordSize s = reserved at hreserve
  cases hreserve with
  | refused h' s' hkeeps =>
    simp only [Tape.storeInline, heq]
    exact .refused h' s' hkeeps
  | readOnly next s' segment hreadOnly hkeeps hsame hhas =>
    simp only [Tape.storeInline, heq]
    exact .readOnly next s' segment hreadOnly hkeeps hsame hhas
  | found next s' c' chapter hkeeps hsame hturn hhas hc hfits hwritable =>
    obtain ⟨last, hstored, hlast, hsame'⟩ :=
      storeInline_of_found hinline hhas hc hfits hwritable heq
    rw [hstored]
    exact .written last s' c' chapter hkeeps (hsame.trans hsame') hturn hc hlast

theorem Has.storeBlob (h : tape.Has s.store c) {item : Item} {blob : Bytes}
    (hinline : item.kind.isInline = false) (hlen : blob.length < Layout.blobLimit) :
    tape.Stored s c (.encoded item blob hinline hlen) (tape.storeBlob item.kind.tag blob s) := by
  have hreserve := h.reserve (Layout.encodedSize blob.length)
  generalize heq : tape.reserve (Layout.encodedSize blob.length) s = reserved at hreserve
  cases hreserve with
  | refused h' s' hkeeps =>
    simp only [Tape.storeBlob, if_pos hlen, Word.encodedSize_of_lt hlen, heq]
    exact .refused h' s' hkeeps
  | readOnly next s' segment hreadOnly hkeeps hsame hhas =>
    simp only [Tape.storeBlob, if_pos hlen, Word.encodedSize_of_lt hlen, heq]
    exact .readOnly next s' segment hreadOnly hkeeps hsame hhas
  | found next s' c' chapter hkeeps hsame hturn hhas hc hfits hwritable =>
    obtain ⟨last, hstored, hlast, hsame'⟩ :=
      storeBlob_of_found hinline hlen hhas hc hfits hwritable heq
    rw [hstored]
    exact .written last s' c' chapter hkeeps (hsame.trans hsame') hturn hc hlast

/-! ## Items -/

/-- What a writing client makes of an item, which it is shown in a slot of its own. -/
def blobFor (client : WritingClient σ) (item : Item) (s : Session σ) :
    Except Fault (Option Bytes) × σ :=
  client.encode (View.ofItem item Slot.empty.location) s.clients

/-- The item is destroyed once it is encoded, whatever the client makes of it. -/
theorem encode_of_fits (client : WritingClient σ) {item : Item} (h : item.kind.fits = true)
    (s : Session σ) :
    encode client item s = ((blobFor client item s).1,
      ({ s with clients := (blobFor client item s).2 } : Session σ).destroy item.remains) := by
  obtain ⟨next, hemplace, hheld, hview⟩ := Slot.empty.emplace_of_fits h
  rw [Slot.held] at hheld
  simp only [encode, hemplace, hview, hheld, Slot.held_empty, List.nil_append, blobFor]

/-- The session once a client was asked for the blob of an item. -/
def encoded (client : WritingClient σ) (item : Item) (s : Session σ) : Session σ :=
  ({ s with clients := (blobFor client item s).2 } : Session σ).destroy item.remains

theorem tryAppend_of_encoded {item : Item} {client : WritingClient σ}
    (hfits : item.kind.fits = true) (hinline : item.kind.isInline = false)
    (hwriter : tape.writer = some client) (s : Session σ) :
    tape.tryAppend item s =
      match (blobFor client item s).1 with
      | .error f => (.error (.fault f), tape, encoded client item s)
      | .ok none => (.ok (), tape, (encoded client item s).note (.notEncoded item.kind.name))
      | .ok (some blob) => tape.storeBlob item.kind.tag blob (encoded client item s) := by
  simp only [tryAppend, hfits, hinline, hwriter, storeEncoded, encode_of_fits client hfits,
    ↓reduceIte, Bool.false_eq_true, encoded]
  rcases (blobFor client item s).1 with f | _ | blob <;> rfl

/-- The record that an item goes into: none if it needs a client that makes a blob of it, and there
is none. -/
def recordOf (tape : Tape σ) (item : Item) (s : Session σ) : Option Recorded :=
  if h : item.kind.isInline = true then some (.inline item h)
  else
    match tape.writer with
    | none => none
    | some client =>
      match (blobFor client item s).1 with
      | .ok (some blob) =>
        if hlen : blob.length < Layout.blobLimit then
          some (.encoded item blob (Bool.eq_false_iff.2 h) hlen)
        else none
      | _ => none

theorem recordOf_of_blob {item : Item} {client : WritingClient σ} {blob : Bytes}
    (hinline : item.kind.isInline = false) (hwriter : tape.writer = some client)
    (hblob : (blobFor client item s).1 = .ok (some blob)) (hlen : blob.length < Layout.blobLimit) :
    tape.recordOf item s = some (.encoded item blob hinline hlen) := by
  have hnot : ¬item.kind.isInline = true := Bool.eq_false_iff.1 hinline
  rw [recordOf, dif_neg hnot, hwriter]
  dsimp only
  rw [hblob]
  exact dif_pos hlen

/-- What recording an item puts on the tape. -/
def recorded (tape : Tape σ) (item : Item) (s : Session σ) : List Recorded :=
  match (tape.tryAppend item s).1 with
  | .ok () => (tape.recordOf item s).toList
  | .error _ => []

/-- The record of an item is the item's own, or one of a blob that the writing client made of it. -/
theorem recordOf_eq_some {item : Item} {s : Session σ} {r : Recorded}
    (h : tape.recordOf item s = some r) :
    (∃ hinline, r = .inline item hinline) ∨
    ∃ client blob hinline hlen, tape.writer = some client ∧
      (blobFor client item s).1 = .ok (some blob) ∧ r = .encoded item blob hinline hlen := by
  unfold recordOf at h
  split at h
  · rename_i hinline
    exact Or.inl ⟨hinline, (Option.some.inj h).symm⟩
  · rename_i hinline
    split at h
    · exact absurd h (by simp)
    · rename_i client hwriter
      split at h
      · rename_i blob hblob
        split at h
        · exact Or.inr ⟨client, blob, _, _, hwriter, hblob, (Option.some.inj h).symm⟩
        · exact absurd h (by simp)
      · exact absurd h (by simp)

/-- What is put on the tape is the record of the item. -/
theorem mem_recorded {item : Item} {s : Session σ} {r : Recorded} (h : r ∈ tape.recorded item s) :
    tape.recordOf item s = some r := by
  unfold recorded at h
  cases hout : (tape.tryAppend item s).1 with
  | error h' =>
    rw [hout] at h
    exact absurd h List.not_mem_nil
  | ok u =>
    rw [hout] at h
    exact Option.mem_toList.1 h

/-- Whether the item needs a client, and that has no blob for it. -/
def drops (tape : Tape σ) (item : Item) (s : Session σ) : Bool :=
  !item.kind.isInline &&
    match tape.writer with
    | none => false
    | some client =>
      match (blobFor client item s).1 with
      | .ok none => true
      | _ => false

/-- The item, if it is recorded when that is tried: it is not if that fails, nor if the writing
client drops it. -/
def kept (tape : Tape σ) (item : Item) (s : Session σ) : List Item :=
  match (tape.tryAppend item s).1 with
  | .ok () => if tape.drops item s then [] else [item]
  | .error _ => []

/-- The records on a tape are those of the items that were recorded. -/
theorem map_item_recorded (tape : Tape σ) (item : Item) (s : Session σ) :
    (tape.recorded item s).map Recorded.item = tape.kept item s := by
  have hstored {r : Recorded} (hrecord : tape.recordOf item s = some r) (hitem : r.item = item)
      (hdrops : tape.drops item s = false) :
      (tape.recorded item s).map Recorded.item = tape.kept item s := by
    unfold recorded kept
    cases (tape.tryAppend item s).1 with
    | error h => rfl
    | ok u => simp [hrecord, hitem, hdrops]
  by_cases hinline : item.kind.isInline = true
  · exact hstored (r := .inline item hinline) (by simp [recordOf, hinline]) rfl
      (by simp [drops, hinline])
  · have hinline : item.kind.isInline = false := Bool.eq_false_iff.2 hinline
    by_cases hfits : item.kind.fits = true
    · cases hwriter : tape.writer with
      | none => simp [recorded, kept, tryAppend, hfits, hinline, hwriter]
      | some client =>
        rcases hblob : (blobFor client item s).1 with f | _ | blob
        · simp [recorded, kept, tryAppend_of_encoded hfits hinline hwriter, hblob]
        · simp [recorded, kept, tryAppend_of_encoded hfits hinline hwriter, hblob, recordOf, drops,
            hinline, hwriter]
        · by_cases hlen : blob.length < Layout.blobLimit
          · exact hstored (recordOf_of_blob hinline hwriter hblob hlen) rfl
              (by simp [drops, hwriter, hblob])
          · have hlong : tape.storeBlob item.kind.tag blob (encoded client item s) =
                (.error (.failed (.blobTooLong blob.length)), tape, encoded client item s) :=
              if_neg hlen
            simp [recorded, kept, tryAppend_of_encoded hfits hinline hwriter, hblob, hlong]
    · simp [recorded, kept, tryAppend, hfits]

/-- What recording an item comes to, on a tape with given contents. -/
inductive Appended (tape : Tape σ) (item : Item) (s : Session σ) (c : Contents) :
    Outcome Failure Unit × Tape σ × Session σ → Prop where
  /-- The item is not recorded, and the tape stays as it was. -/
  | refused (h : Halt Failure) (s' : Session σ) (hkept : s.store.KeptIn s'.store)
      (hgone : s'.destroyed.toList = s.destroyed.toList ++ item.remains) :
      Appended tape item s c (.error h, tape, s')
  /-- The page was turned to a segment that may not be written to. -/
  | readOnly (next : Tape σ) (s' : Session σ) (segment : Segment)
      (hreadOnly : segment.mapping.writable = false) (hkept : s.store.KeptIn s'.store)
      (hsame : tape.SameSetup next) (hhas : next.Has s'.store (c.turn segment))
      (hgone : s'.destroyed.toList = s.destroyed.toList ++ item.remains) :
      Appended tape item s c (.error (.fault .readOnly), next, s')
  /-- The writing client drops the item. -/
  | dropped (s' : Session σ) (hinline : item.kind.isInline = false)
      (hrecord : tape.recordOf item s = none) (hkept : s.store.KeptIn s'.store)
      (hgone : s'.destroyed.toList = s.destroyed.toList ++ item.remains) :
      Appended tape item s c (.ok (), tape, s')
  /-- The item's record is written behind the current chapter, or into a new one. -/
  | stored (r : Recorded) (next : Tape σ) (s' : Session σ) (c' : Contents) (chapter : Chapter)
      (hrecord : tape.recordOf item s = some r) (hkept : s.store.KeptIn s'.store)
      (hsame : tape.SameSetup next) (hturn : c' = c ∨ ∃ segment, c' = c.turn segment)
      (hc : c'.current = some chapter)
      (hhas : next.Has (s'.store.write chapter.segment.mapping.block chapter.text.length r.bytes)
        (c'.write r))
      (hgone : s'.destroyed.toList = s.destroyed.toList ++
        if item.kind.isInline then [] else item.remains) :
      Appended tape item s c (.ok (), next,
        { s' with
          store := s'.store.write chapter.segment.mapping.block chapter.text.length r.bytes })

theorem Has.tryAppend_inline (h : tape.Has s.store c) {item : Item}
    (hfits : item.kind.fits = true) (hinline : item.kind.isInline = true) :
    tape.Appended item s c (tape.tryAppend item s) := by
  have hstored := h.storeInline hinline
  have hrecord : tape.recordOf item s = some (.inline item hinline) := by
    rw [recordOf, dif_pos hinline]
  simp only [Tape.tryAppend, hfits, hinline, ↓reduceIte]
  generalize tape.storeInline item s = stored at hstored
  cases hstored with
  | refused h' s' hkeeps =>
    refine .refused h' _ hkeeps.kept ?_
    rw [Session.toList_destroyed_destroy, hkeeps.destroyed_eq]
  | readOnly next s' segment hreadOnly hkeeps hsame hhas =>
    refine .readOnly next _ segment hreadOnly hkeeps.kept hsame hhas ?_
    rw [Session.toList_destroyed_destroy, hkeeps.destroyed_eq]
  | written next s' c' chapter hkeeps hsame hturn hc hhas =>
    refine .stored _ next s' c' chapter hrecord hkeeps.kept hsame hturn hc hhas ?_
    rw [hkeeps.destroyed_eq, if_pos hinline, List.append_nil]

theorem toList_destroyed_encoded (client : WritingClient σ) (item : Item) (s : Session σ) :
    (encoded client item s).destroyed.toList = s.destroyed.toList ++ item.remains :=
  Session.toList_destroyed_destroy _ _

/-- The item is destroyed before its blob is stored, whatever that comes to. -/
theorem Has.appended_storeBlob (h : tape.Has s.store c) {item : Item} {client : WritingClient σ}
    {blob : Bytes} (hinline : item.kind.isInline = false) (hlen : blob.length < Layout.blobLimit)
    (hrecord : tape.recordOf item s = some (.encoded item blob hinline hlen)) :
    tape.Appended item s c (tape.storeBlob item.kind.tag blob (encoded client item s)) := by
  have hgone := toList_destroyed_encoded client item s
  have hafter : tape.Has (encoded client item s).store c := h
  have hstored := hafter.storeBlob hinline hlen
  generalize tape.storeBlob item.kind.tag blob (encoded client item s) = stored at hstored
  cases hstored with
  | refused h' s' hkeeps => exact .refused h' s' hkeeps.kept (hkeeps.destroyed_eq ▸ hgone)
  | readOnly next s' segment hreadOnly hkeeps hsame hhas =>
    exact .readOnly next s' segment hreadOnly hkeeps.kept hsame hhas (hkeeps.destroyed_eq ▸ hgone)
  | written next s' c' chapter hkeeps hsame hturn hc hhas =>
    refine .stored _ next s' c' chapter hrecord hkeeps.kept hsame hturn hc hhas ?_
    rw [hkeeps.destroyed_eq, hgone, hinline, if_neg Bool.false_ne_true]

theorem Has.tryAppend (h : tape.Has s.store c) (item : Item) :
    tape.Appended item s c (tape.tryAppend item s) := by
  by_cases hfits : item.kind.fits = true
  · by_cases hinline : item.kind.isInline = true
    · exact h.tryAppend_inline hfits hinline
    · have hinline : item.kind.isInline = false := Bool.eq_false_iff.2 hinline
      cases hwriter : tape.writer with
      | none =>
        simp only [Tape.tryAppend, hfits, hinline, hwriter, ↓reduceIte, Bool.false_eq_true]
        exact .refused _ _ (.refl _) (s.toList_destroyed_destroy _)
      | some client =>
        have hgone := toList_destroyed_encoded client item s
        rw [tryAppend_of_encoded hfits hinline hwriter]
        rcases hblob : (blobFor client item s).1 with f | _ | blob
        · exact .refused _ _ (.refl _) hgone
        · have hrecord : tape.recordOf item s = none := by
            simp [recordOf, hinline, hwriter, hblob]
          exact .dropped _ hinline hrecord (.refl _) hgone
        · by_cases hlen : blob.length < Layout.blobLimit
          · exact h.appended_storeBlob hinline hlen (recordOf_of_blob hinline hwriter hblob hlen)
          · dsimp only
            rw [Tape.storeBlob, if_neg hlen]
            exact .refused _ _ (.refl _) hgone
  · simp only [Tape.tryAppend, hfits, ↓reduceIte, Bool.false_eq_true]
    exact .refused _ _ (.refl _) (s.toList_destroyed_destroy _)

/-- Recording changes neither the clients nor the capacity of segments. -/
theorem Has.sameSetup_tryAppend (h : tape.Has s.store c) (item : Item) :
    tape.SameSetup (tape.tryAppend item s).2.1 := by
  have happended := h.tryAppend item
  generalize tape.tryAppend item s = result at happended
  cases happended with
  | refused h' s' hkept hgone => exact .refl tape
  | readOnly next s' segment hreadOnly hkept hsame hhas hgone => exact hsame
  | dropped s' hinline hrecord hkept hgone => exact .refl tape
  | stored r next s' c' chapter hrecord hkept hsame hturn hc hhas hgone => exact hsame

/-! ## Items in a row -/

variable {item : Item} {rest : List Item}

end Tape

end CommandTape
