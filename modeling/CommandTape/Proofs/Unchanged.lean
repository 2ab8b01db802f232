import CommandTape.Proofs.Steps

/-!
# What a failed recording leaves

A tape on which an item could not be recorded is what it was, and so is all memory of its segments.
The one exception is a tape that went on to a segment that may not be written to: it has another
segment to write to than before, but shows what it showed.
-/

namespace CommandTape.Tape

variable {σ : Type}

/-- The tape is the same, and all of its segments show the same, up to their capacity. -/
structure Untouched (tape next : Tape σ) (before after : Store) : Prop where
  tape_eq : next = tape
  data_eq : ∀ segment ∈ tape.frozen ++ tape.writable.toList,
    segment.data after = segment.data before

/-- What the tape shows and remembers is the same, and so is all that it was set up with. -/
structure ShowsAs (tape next : Tape σ) (before after : Store) : Prop where
  views_eq : next.views after = tape.views before
  size_eq : next.size = tape.size
  isEmpty_eq : next.isEmpty = tape.isEmpty
  segmentCount_eq : next.segmentCount = tape.segmentCount
  pending_eq : next.pending = tape.pending
  sameSetup : tape.SameSetup next

variable {tape next : Tape σ} {s s' : Session σ} {c : Contents}

theorem Has.untouched (h : tape.Has s.store c) (hkept : s.store.KeptIn s'.store) :
    tape.Untouched tape s.store s'.store :=
  ⟨rfl, fun _ hmem => h.data_eq hkept hmem⟩

/-- It does not show that a new chapter begins. -/
theorem Has.showsAs_turn (h : tape.Has s.store c) (hkept : s.store.KeptIn s'.store)
    (hsame : tape.SameSetup next) {segment : Segment}
    (hnext : next.Has s'.store (c.turn segment)) :
    tape.ShowsAs next s.store s'.store := by
  have hviews : (c.turn segment).views s'.store = c.views s.store := by
    rw [c.views_turn segment, h.views_mono hkept]
  have hpending : next.pending.toList = tape.pending.toList := by
    rw [hnext.pending, h.pending, c.pending_turn segment]
  refine ⟨?_, ?_, ?_, ?_, Journal.toList_inj.1 hpending, hsame⟩
  · rw [hnext.views_eq, h.views_eq, hviews]
  · rw [hnext.size_eq, h.size_eq, c.records_turn segment]
    rfl
  · rw [hnext.isEmpty_eq, h.isEmpty_eq, hviews]
  · rw [hnext.segmentCount_eq, h.segmentCount_eq, hviews]

/-- What a recording that came to nothing leaves: the tape as it was, or one that was turned to a
segment for reading only. -/
theorem Has.untouched_of_error (h : tape.Has s.store c) {item : Item} {halt : Halt Failure}
    (hout : tape.tryAppend item s = (.error halt, next, s')) :
    tape.Untouched next s.store s'.store ∨
      halt = .fault .readOnly ∧
      (∃ segment, next.writable = some segment ∧ segment.mapping.writable = false) ∧
      tape.ShowsAs next s.store s'.store := by
  have happended := h.tryAppend item
  rw [hout] at happended
  cases happended with
  | refused h' s' hkept hgone => exact Or.inl (h.untouched hkept)
  | readOnly next s' segment hreadOnly hkept hsame hnext hgone =>
    exact Or.inr ⟨rfl, ⟨segment, hnext.writable, hreadOnly⟩, h.showsAs_turn hkept hsame hnext⟩

/-- Whatever was done with a tape before, recording an item that fails for a reason, or is ended by
a fault, leaves the tape untouched, unless the fault is that a new segment is for reading only; and
so it is if the writing client has no blob for the item, or gives up. Where failing is a fault, the
same is left. -/
theorem untouched_of_not_recorded {d : TapeState σ} {segments : List Segment}
    (hfresh : d.tape.Fresh d.session.store segments) (steps : List (Step σ)) (item : Item) :
    let tape := (d.run steps).tape
    let s := (d.run steps).session
    (∀ reason next s', tape.tryAppend item s = (.error (.failed reason), next, s') →
      tape.Untouched next s.store s'.store ∧
      tape.append item s = (.error (.appendFailed item.kind.name reason), next, s')) ∧
    (∀ f next s', tape.tryAppend item s = (.error (.fault f), next, s') →
      (tape.Untouched next s.store s'.store ∨
        f = .readOnly ∧
        (∃ segment, next.writable = some segment ∧ segment.mapping.writable = false) ∧
        tape.ShowsAs next s.store s'.store) ∧
      tape.append item s = (.error f, next, s')) ∧
    (∀ client, item.kind.fits = true → item.kind.isInline = false → tape.writer = some client →
      (∀ f, (blobFor client item s).1 = .error f →
        ∃ s', tape.tryAppend item s = (.error (.fault f), tape, s') ∧
          tape.Untouched tape s.store s'.store) ∧
      ((blobFor client item s).1 = .ok none →
        ∃ s', tape.tryAppend item s = (.ok (), tape, s') ∧
          tape.Untouched tape s.store s'.store ∧
          s'.notices = s.notices.add (.notEncoded item.kind.name))) := by
  intro tape s
  obtain ⟨c, hhas, -, -⟩ := TapeState.holds_run (d := d) hfresh.holds steps
  refine ⟨?_, ?_, ?_⟩
  · intro reason next s' hout
    refine ⟨?_, ?_⟩
    · rcases hhas.untouched_of_error hout with hsame | ⟨hhalt, -⟩
      · exact hsame
      · exact absurd hhalt (by simp)
    · simp only [append, hout]
  · intro f next s' hout
    refine ⟨?_, ?_⟩
    · rcases hhas.untouched_of_error hout with hsame | ⟨hhalt, hturned⟩
      · exact Or.inl hsame
      · exact Or.inr ⟨Halt.fault.inj hhalt, hturned⟩
    · simp only [append, hout]
  · intro client hfits hinline hwriter
    have hout := tryAppend_of_encoded hfits hinline hwriter s
    refine ⟨?_, ?_⟩
    · intro f hblob
      rw [hblob] at hout
      exact ⟨_, hout, hhas.untouched (.refl _)⟩
    · intro hblob
      rw [hblob] at hout
      exact ⟨_, hout, hhas.untouched (.refl _), rfl⟩

/-- Behind items that were recorded: an item that a client is missing for, and one for which the
page is turned to a segment for reading only. -/
theorem untouched_of_not_recorded_sample :
    (let d := Sample.tapeState.run (Sample.steps ++ [.setWriter none])
      let item := Sample.blob [1, 2, 3]
      let result := d.tape.tryAppend item d.session
      result.1 = .error (.failed (.clientNeeded item.kind.name)) ∧
        d.tape.Untouched result.2.1 d.session.store result.2.2.store ∧
        (d.tape.append item d.session).1 =
          .error (.appendFailed item.kind.name (.clientNeeded item.kind.name))) ∧
    (let d := Sample.tapeState.run (Sample.steps ++ [.setWriter (some Sample.readOnlyClient)])
      let result := d.tape.tryAppend (Sample.uniform Sample.trackedBytesKind 1) d.session
      result.1 = .error (.fault .readOnly) ∧
        d.tape.ShowsAs result.2.1 d.session.store result.2.2.store) := by
  have hmade : withCapacity 12 = .ok Sample.tapeState.tape := rfl
  refine ⟨?_, ?_⟩
  · intro d item result
    have hreason : result.1 = .error (.failed (.clientNeeded item.kind.name)) := rfl
    have hout : d.tape.tryAppend item d.session =
        (.error (.failed (.clientNeeded item.kind.name)), result.2.1, result.2.2) :=
      Prod.ext hreason rfl
    obtain ⟨hfailed, -, -⟩ := untouched_of_not_recorded (d := Sample.tapeState)
      (.withCapacity hmade) (Sample.steps ++ [.setWriter none]) item
    obtain ⟨hsame, happend⟩ := hfailed _ _ _ hout
    exact ⟨hreason, hsame, congrArg Prod.fst happend⟩
  · intro d result
    have hfault : result.1 = .error (.fault .readOnly) := rfl
    have hout : d.tape.tryAppend (Sample.uniform Sample.trackedBytesKind 1) d.session =
        (.error (.fault .readOnly), result.2.1, result.2.2) := Prod.ext hfault rfl
    obtain ⟨-, hfaulty, -⟩ := untouched_of_not_recorded (d := Sample.tapeState)
      (.withCapacity hmade) (Sample.steps ++ [.setWriter (some Sample.readOnlyClient)])
      (Sample.uniform Sample.trackedBytesKind 1)
    refine ⟨hfault, ?_⟩
    rcases (hfaulty _ _ _ hout).1 with hsame | ⟨-, -, hshows⟩
    · -- the new segment may not be written to, and the one before it could be
      have hnext : result.2.1.writable.map (fun segment => segment.mapping.writable) =
          some false := rfl
      have hbefore : d.tape.writable.map (fun segment => segment.mapping.writable) =
          some true := rfl
      rw [hsame.tape_eq, hbefore] at hnext
      exact absurd hnext (by decide)
    · exact hshows

end CommandTape.Tape
