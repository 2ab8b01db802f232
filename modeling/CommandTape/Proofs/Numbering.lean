import CommandTape.Proofs.Mappings
import CommandTape.Proofs.Showing

/-!
# How segments are numbered

Segments are told apart by their identifiers, which one counter gives out, and lie in blocks that
memory numbers. A step on a tape obtains one segment at the most. It puts that behind the segments
that there are, and it may drop some of these, but neither adds another nor changes their order
(`Step.numbers_perform`). If clients leave the numbering to the session, the identifier of a segment
that is obtained is one of those that are given out in the course of the step (`Session.Issues`). It
need not be the only one: a segment that is turned down or used elsewhere has one too, and a client
may make more segments than it supplies.
-/

namespace CommandTape

variable {σ : Type}

/-- What the client supplies takes the next identifier, as it does if the client leaves the
numbering to the session. -/
def WritingClient.TakesNextId (client : WritingClient σ) : Prop :=
  ∀ size next state supply clients offer, client.supply size next state = (.ok supply, clients) →
    supply.offer = some offer → offer.id = none

/-- The identifier is one of those that were given out from the one session to the other. -/
def Session.Issues (before after : Session σ) (id : SegmentId) : Prop :=
  ∃ count, before.issued ≤ count ∧ count < after.issued ∧ id = .ofCount count

namespace Session

variable {s s' s₁ s₂ : Session σ} {id : SegmentId}

/-- What was given out in a part of the time was given out in all of it. -/
theorem Issues.mono (h : s.Issues s' id) (hbefore : s₁.issued ≤ s.issued)
    (hafter : s'.issued ≤ s₂.issued) : s₁.Issues s₂ id := by
  obtain ⟨count, hle, hlt, rfl⟩ := h
  exact ⟨count, Nat.le_trans hbefore hle, Nat.lt_of_lt_of_le hlt hafter, rfl⟩

theorem Issues.issued_le (h : s.Issues s' id) : s.issued ≤ s'.issued := by
  obtain ⟨count, hle, hlt, -⟩ := h
  exact Nat.le_trans hle (Nat.le_of_lt hlt)

theorem issued_le_adopt (s : Session σ) (offer : Offer) :
    s.issued ≤ (s.adopt offer).2.issued := by
  unfold adopt
  cases offer.id with
  | none => exact Nat.le_succ _
  | some id => exact Nat.le_refl _

/-- A segment without an identifier of its own takes the next one. -/
theorem issues_adopt (s : Session σ) {offer : Offer} (h : offer.id = none) :
    s.Issues (s.adopt offer).2 (s.adopt offer).1.id := by
  unfold adopt
  rw [h]
  exact ⟨s.issued, Nat.le_refl _, Nat.lt_succ_self _, rfl⟩

/-- The tape's own memory takes the next identifier, if there is any. -/
theorem issues_allocate (s : Session σ) (capacity : Nat) :
    (∃ h, s.allocate capacity = (.error h, s)) ∨
    ∃ segment s', s.allocate capacity = (.ok segment, s') ∧ s.Issues s' segment.id := by
  unfold allocate
  split
  · exact Or.inl ⟨_, rfl⟩
  · split
    · exact Or.inr ⟨_, _, rfl, s.issued, Nat.le_refl _, Nat.lt_succ_self _, rfl⟩
    · exact Or.inl ⟨_, rfl⟩

/-- A client that is asked for memory may take identifiers before it makes a segment. -/
theorem issued_le_asked (s : Session σ) (supply : Supply) (clients : σ) :
    s.issued ≤ (s.asked supply clients).issued := Nat.le_add_right _ _

/-- And behind that. -/
theorem issued_le_answered (s : Session σ) (supply : Supply) :
    s.issued ≤ (s.answered supply).issued := Nat.le_add_right _ _

end Session

namespace Tape

variable {tape next last : Tape σ} {s s' s'' : Session σ} {segment : Segment}

/-- If there is a writing client, it leaves the numbering of segments to the session. -/
def TakesNextId (tape : Tape σ) : Prop := ∀ client ∈ tape.writer, client.TakesNextId

/-! ## Obtaining a segment -/

theorem issued_le_supplied (client : WritingClient σ) (size : Nat) (s : Session σ) :
    s.issued ≤ (supplied client size s).2.issued := by
  unfold supplied
  rcases client.supply size s.nextId s.clients with ⟨f | supply, clients⟩
  · exact Nat.le_refl _
  · have hasked := s.issued_le_asked supply clients
    dsimp only
    cases supply.offer with
    | none => exact Nat.le_trans hasked (Session.issued_le_answered _ supply)
    | some offer =>
      have hadopt := Nat.le_trans hasked ((s.asked supply clients).issued_le_adopt offer)
      dsimp only
      generalize (s.asked supply clients).adopt offer = made at hadopt ⊢
      obtain ⟨segment, s'⟩ := made
      have hanswered := Nat.le_trans hadopt (s'.issued_le_answered supply)
      dsimp only
      split
      · exact hanswered
      · split <;> exact hanswered

theorem issues_supplied {client : WritingClient σ} (hclient : client.TakesNextId) {size : Nat}
    (h : supplied client size s = (.ok segment, s')) : s.Issues s' segment.id := by
  unfold supplied at h
  rcases hsupply : client.supply size s.nextId s.clients with ⟨f | supply, clients⟩
  · rw [hsupply] at h
    cases h
  · rw [hsupply] at h
    dsimp only at h
    cases hoffer : supply.offer with
    | none =>
      rw [hoffer] at h
      cases h
    | some offer =>
      have hadopt := (s.asked supply clients).issues_adopt
        (hclient _ _ _ _ _ _ hsupply hoffer)
      have hissued := hadopt.mono (s.issued_le_asked supply clients)
        (Session.issued_le_answered _ supply)
      rw [hoffer] at h
      dsimp only at h
      split at h
      · cases h
      · split at h
        · cases h
          exact hissued
        · cases h

theorem issued_le_createSegment (tape : Tape σ) (minimum : Nat) (s : Session σ) :
    s.issued ≤ (tape.createSegment minimum s).2.issued := by
  unfold createSegment
  cases Word.alignUp minimum with
  | error f => exact Nat.le_refl _
  | ok size =>
    dsimp only
    cases tape.writer with
    | some client => exact issued_le_supplied client size s
    | none =>
      dsimp only [allocated]
      rcases s.issues_allocate (max size tape.segmentCapacity) with
        ⟨h, heq⟩ | ⟨segment, s', heq, hissues⟩
      · exact Nat.le_of_eq (by rw [heq])
      · rw [heq]
        exact hissues.issued_le

/-- A segment that is obtained lies in the next block, and has an identifier that was just given
out. -/
theorem issues_createSegment {minimum : Nat}
    (h : tape.createSegment minimum s = (.ok segment, s')) :
    segment.mapping.block = s.store.next ∧ (tape.TakesNextId → s.Issues s' segment.id) := by
  constructor
  · rcases tape.createSegment_cases minimum s with ⟨h', t, heq, -⟩ | ⟨other, t, heq, hadds, -⟩
    · cases h.symm.trans heq
    · cases h.symm.trans heq
      exact hadds.block_eq
  · intro htakes
    unfold createSegment at h
    cases halign : Word.alignUp minimum with
    | error f =>
      rw [halign] at h
      cases h
    | ok size =>
      rw [halign] at h
      dsimp only at h
      cases hwriter : tape.writer with
      | some client =>
        rw [hwriter] at h
        exact issues_supplied (htakes client hwriter) h
      | none =>
        rw [hwriter] at h
        dsimp only [allocated] at h
        rcases s.issues_allocate (max size tape.segmentCapacity) with
          ⟨h', heq⟩ | ⟨own, t, heq, hissues⟩
        · rw [heq] at h
          cases h
        · rw [heq] at h
          cases h
          exact hissues

end Tape

/-! ## Marks -/

/-- What tells a segment from others: its identifier, and the block that it lies in. -/
structure Mark where
  id : SegmentId
  block : Nat

/-- The mark of a segment. -/
def Segment.mark (segment : Segment) : Mark := ⟨segment.id, segment.mapping.block⟩

namespace Tape

variable {tape next last : Tape σ} {s s' s'' : Session σ} {segment : Segment}

/-- The marks of the tape's segments, in order. -/
def marks (tape : Tape σ) : List Mark :=
  (tape.frozen ++ tape.writable.toList).map Segment.mark

theorem marks_of_eq (hfrozen : next.frozen = tape.frozen)
    (hwritable : next.writable = tape.writable) : next.marks = tape.marks := by
  rw [marks, marks, hfrozen, hwritable]

/-- An operation leaves at the most the segments that there were and, behind them, one that it
obtained: that lies in the next block, and has an identifier that was given out meanwhile. -/
structure Numbers (tape : Tape σ) (s : Session σ) (next : Tape σ) (s' : Session σ) : Prop where
  issued_le : s.issued ≤ s'.issued
  marks_le : next.marks.Sublist tape.marks ∨
    ∃ id, next.marks.Sublist (tape.marks ++ [⟨id, s.store.next⟩]) ∧
      (tape.TakesNextId → s.Issues s' id)

namespace Numbers

theorem of_marks (hissued : s.issued ≤ s'.issued) (hmarks : next.marks.Sublist tape.marks) :
    tape.Numbers s next s' := ⟨hissued, Or.inl hmarks⟩

theorem of_tape (hissued : s.issued ≤ s'.issued) : tape.Numbers s tape s' :=
  of_marks hissued (List.Sublist.refl _)

/-- What happens to the rest of the tape and of the session does not matter. -/
theorem trans_eq (h : tape.Numbers s next s') (hfrozen : last.frozen = next.frozen)
    (hwritable : last.writable = next.writable) (hissued : s''.issued = s'.issued) :
    tape.Numbers s last s'' := by
  obtain ⟨hle, hmarks⟩ := h
  rw [← hissued] at hle
  rw [← marks_of_eq hfrozen hwritable] at hmarks
  simp only [Session.Issues, ← hissued] at hmarks
  exact ⟨hle, hmarks⟩

/-- Nor does what happens to the session before. -/
theorem of_session (h : tape.Numbers s next s') (hissued : s.issued = s''.issued)
    (hstore : s.store = s''.store) : tape.Numbers s'' next s' := by
  obtain ⟨hle, hmarks⟩ := h
  rw [hissued] at hle
  simp only [Session.Issues, hissued, hstore] at hmarks
  exact ⟨hle, hmarks⟩

end Numbers

/-- The segment that is installed comes behind the others, of which the last is dropped if nothing
was written to it. -/
theorem marks_install (tape : Tape σ) (segment : Segment) (s : Session σ) :
    (tape.install segment s).2.1.marks.Sublist (tape.marks ++ [segment.mark]) := by
  rw [marks, marks, ← List.map_singleton, ← List.map_append]
  rcases tape.segments_install segment s with heq | ⟨previous, hprevious, heq⟩ | heq
  · rw [heq, List.append_assoc]
    refine List.Sublist.map _ ((List.Sublist.refl _).append ?_)
    exact List.sublist_append_right _ _
  · rw [heq, hprevious, Option.toList_some, List.append_assoc, List.map_append, List.map_append]
    exact List.Sublist.refl _
  · rw [heq, List.append_assoc]
    exact List.Sublist.map _ (List.sublist_append_left _ _)

theorem issued_install (tape : Tape σ) (segment : Segment) (s : Session σ) :
    (tape.install segment s).2.2.issued = s.issued := by
  unfold install
  cases tape.writable with
  | none => rfl
  | some previous =>
    dsimp only
    split
    · rfl
    · cases previous.truncate tape.written <;> rfl

theorem numbers_makeRoom (tape : Tape σ) (size : Nat) (s : Session σ) :
    tape.Numbers s (tape.makeRoom size s).2.1 (tape.makeRoom size s).2.2 := by
  unfold makeRoom
  cases tape.hasRoom size with
  | error f => exact .of_tape (Nat.le_refl _)
  | ok fits =>
    cases fits with
    | true => exact .of_tape (Nat.le_refl _)
    | false =>
      have hle := tape.issued_le_createSegment size s
      dsimp only
      rcases hcreate : tape.createSegment size s with ⟨h | segment, s'⟩
      · rw [hcreate] at hle
        exact .of_tape hle
      · obtain ⟨hblock, hissues⟩ := issues_createSegment hcreate
        have hmarks := tape.marks_install segment s'
        have hinstall := Nat.le_of_eq (tape.issued_install segment s').symm
        rw [hcreate] at hle
        rw [Segment.mark, hblock] at hmarks
        exact ⟨Nat.le_trans hle hinstall, Or.inr ⟨segment.id, hmarks, fun htakes =>
          (hissues htakes).mono (Nat.le_refl _) hinstall⟩⟩

theorem numbers_reserve (tape : Tape σ) (size : Nat) (s : Session σ) :
    tape.Numbers s (tape.reserve size s).2.1 (tape.reserve size s).2.2 := by
  have hroom := tape.numbers_makeRoom size s
  unfold reserve
  generalize tape.makeRoom size s = made at hroom ⊢
  rcases made with ⟨h | u, next, s'⟩ <;> exact hroom

theorem numbers_storeInline (tape : Tape σ) (item : Item) (s : Session σ) :
    tape.Numbers s (tape.storeInline item s).2.1 (tape.storeInline item s).2.2 := by
  have hreserve := tape.numbers_reserve item.kind.recordSize s
  unfold storeInline
  generalize tape.reserve item.kind.recordSize s = made at hreserve ⊢
  rcases made with ⟨h | p, next, s'⟩
  · exact hreserve
  · dsimp only
    by_cases haligned : p.isAligned = true
    · rw [if_pos haligned]
      exact hreserve.trans_eq rfl rfl rfl
    · rw [if_neg haligned]
      exact hreserve

theorem numbers_storeBlob (tape : Tape σ) (tag : Tag) (blob : Bytes) (s : Session σ) :
    tape.Numbers s (tape.storeBlob tag blob s).2.1 (tape.storeBlob tag blob s).2.2 := by
  unfold storeBlob
  by_cases hlen : blob.length < Layout.blobLimit
  · rw [if_pos hlen, Word.encodedSize_of_lt hlen]
    have hreserve := tape.numbers_reserve (Layout.encodedSize blob.length) s
    dsimp only
    generalize tape.reserve (Layout.encodedSize blob.length) s = made at hreserve ⊢
    rcases made with ⟨h | p, next, s'⟩
    · exact hreserve
    · exact hreserve.trans_eq rfl rfl rfl
  · rw [if_neg hlen]
    exact .of_tape (Nat.le_refl _)

/-- Recording an item obtains one segment at the most, however it comes out. -/
theorem numbers_tryAppend (tape : Tape σ) (item : Item) (s : Session σ) :
    tape.Numbers s (tape.tryAppend item s).2.1 (tape.tryAppend item s).2.2 := by
  by_cases hfits : item.kind.fits = true
  · by_cases hinline : item.kind.isInline = true
    · have hstored := tape.numbers_storeInline item s
      rw [tryAppend, if_pos hfits, if_pos hinline]
      generalize tape.storeInline item s = made at hstored ⊢
      rcases made with ⟨h | u, next, s'⟩
      · exact hstored.trans_eq rfl rfl rfl
      · exact hstored
    · cases hwriter : tape.writer with
      | none =>
        rw [tryAppend, if_pos hfits, if_neg hinline, hwriter]
        exact .of_tape (Nat.le_refl _)
      | some client =>
        rw [tryAppend_of_encoded hfits (Bool.eq_false_iff.2 hinline) hwriter]
        rcases (blobFor client item s).1 with f | _ | blob
        · exact .of_tape (Nat.le_refl _)
        · exact .of_tape (Nat.le_refl _)
        · exact (tape.numbers_storeBlob item.kind.tag blob (encoded client item s)).of_session
            rfl rfl
  · rw [tryAppend, if_neg hfits]
    exact .of_tape (Nat.le_refl _)

theorem issued_destroyAll (tape : Tape σ) (pending : List Pending) (s : Session σ) :
    (tape.destroyAll pending s).2.issued = s.issued := by
  induction pending generalizing s with
  | nil => rfl
  | cons p rest ih =>
    have hdestroyed : (tape.destroyPending p s).2.issued = s.issued := by
      unfold destroyPending
      split
      · rfl
      · split <;> rfl
    rw [destroyAll]
    rcases heq : tape.destroyPending p s with ⟨f | u, s'⟩
    · rw [heq] at hdestroyed
      exact hdestroyed
    · rw [heq] at hdestroyed
      exact (ih s').trans hdestroyed

/-- Clearing obtains no segment, and lets go of those that there are unless it comes to a fault. -/
theorem numbers_clear (tape : Tape σ) (s : Session σ) :
    tape.Numbers s (tape.clear s).2.1 (tape.clear s).2.2 := by
  have hstart : (if tape.pending.isEmpty then s else
      s.note (.destroying tape.pending.length)).issued = s.issued := by
    split <;> rfl
  have hissued := tape.issued_destroyAll tape.pending.toList
    (if tape.pending.isEmpty then s else s.note (.destroying tape.pending.length))
  rw [hstart] at hissued
  simp only [clear]
  rcases heq : tape.destroyAll tape.pending.toList
    (if tape.pending.isEmpty then s else s.note (.destroying tape.pending.length)) with ⟨f | u, s'⟩
  · rw [heq] at hissued
    exact .of_marks (Nat.le_of_eq hissued.symm) (List.Sublist.refl _)
  · rw [heq] at hissued
    exact .of_marks (Nat.le_of_eq hissued.symm) (List.nil_sublist _)

theorem issued_handOff (tape : Tape σ) (sender : UInt64) (s : Session σ) :
    (tape.handOff sender s).2.issued = s.issued := by
  unfold handOff
  cases Message.ofViews sender (tape.views s.store) <;> rfl

end Tape

/-- Every step obtains one segment at the most. -/
theorem Step.numbers_perform (d : TapeState σ) (step : Step σ) :
    d.tape.Numbers d.session (step.perform d).tape (step.perform d).session := by
  cases step with
  | tryAppend item => exact d.tape.numbers_tryAppend item d.session
  | append item =>
    rw [perform, Tape.ofResult_append]
    exact d.tape.numbers_tryAppend item d.session
  | setWriter client => exact .of_marks (Nat.le_refl _) (List.Sublist.refl _)
  | setReader client => exact .of_marks (Nat.le_refl _) (List.Sublist.refl _)
  | createSegment minimum => exact .of_tape (d.tape.issued_le_createSegment minimum d.session)
  | forEach v f start => exact .of_tape (Nat.le_of_eq (d.tape.issued_forEach v f start _).symm)
  | replay v context =>
    refine .of_tape (Nat.le_of_eq ?_)
    rw [perform, d.tape.session_replay]
    exact (d.tape.issued_forEach v _ _ d.session).symm
  | handOff sender => exact .of_tape (Nat.le_of_eq (d.tape.issued_handOff sender _).symm)
  | clear => exact d.tape.numbers_clear d.session

end CommandTape
