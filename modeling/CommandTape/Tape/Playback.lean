import CommandTape.Frame
import CommandTape.Tape

/-!
# Playback

Visits the items of a tape in the order in which they were recorded (`for_each_item`), or applies
them (`replay`). Encoded items are decoded into one slot, which serves the whole playback: an item
stays there while it is visited, and is destroyed before the next record is read. Playback ends at
the first record that cannot be read, and at a fault of the reading client or of the visitor. What a
segment plays is what its frames play, read in one go (`Playback.playRecords_eq`).
-/

namespace CommandTape

/-- What is done with each item. A visitor has a state of its own, and sees the session as it is
while the item is visited. -/
abbrev Visitor (σ γ : Type) := View → Session σ → γ → Except Fault Unit × γ

/-- A playback under way. -/
structure Playback (σ γ : Type) where
  session : Session σ
  slot : Slot
  /-- The state of the visitor. -/
  visited : γ

namespace Playback

variable {σ γ C : Type}

/-- Visits an item. -/
def visit (f : Visitor σ γ) (view : View) (p : Playback σ γ) : Except Fault Unit × Playback σ γ :=
  let (outcome, visited) := f view p.session p.visited
  (outcome, { p with visited := visited })

/-- Destroys what is in the slot. -/
def resetSlot (p : Playback σ γ) : Playback σ γ :=
  let (slot, gone) := p.slot.reset
  { p with slot := slot, session := p.session.destroy gone }

/-- Has a blob decoded into the slot, which shows the location of the record. -/
def decode (client : ReadingClient σ) (tag : Tag) (blob : Bytes) (location : Location)
    (p : Playback σ γ) : Outcome DecodeError Unit × Playback σ γ :=
  let p := p.resetSlot
  let (decoding, clients) := client.decode blob tag location p.session.clients
  let (outcome, slot, gone) := decoding.runOn { p.slot with location := location }
  let session := { p.session with clients := clients }.destroy gone
  (outcome, { p with slot := slot, session := session })

/-- Visits the item in the slot, which must have the tag of its record, and destroys it. -/
def visitSlot (f : Visitor σ γ) (tag : Tag) (p : Playback σ γ) :
    Outcome DecodeError Unit × Playback σ γ :=
  match p.slot.view? with
  | none =>
    let reason := "reading client produced no item for type " ++ Hexadecimal.ofTag tag
    (.error (.failed (.malformed reason)), p)
  | some view =>
    if view.tag = tag then
      match p.visit f view with
      | (.error e, p) => (.error (.fault e), p)
      | (.ok (), p) => (.ok (), p.resetSlot)
    else (.error (.failed (.tagMismatch tag view.tag)), p.resetSlot)

/-- Plays one record. -/
def playFrame (client? : Option (ReadingClient σ)) (f : Visitor σ γ) (frame : Frame)
    (p : Playback σ γ) : Outcome DecodeError Unit × Playback σ γ :=
  match frame.body with
  | .inline view =>
    let (outcome, p) := p.visit f view
    (.ofFaulty outcome, p)
  | .encoded tag blob =>
    match client? with
    | none => (.error (.failed .missingReadingClient), p)
    | some client =>
      match p.decode client tag blob frame.location with
      | (.error h, p) => (.error h, p)
      | (.ok (), p) => p.visitSlot f tag

/-- Plays the records in what is left of a segment from `offset` on, after `count` records before
them. Each record is played before the next one is read. -/
def playRecords (v : Vocabulary C) (client? : Option (ReadingClient σ)) (f : Visitor σ γ)
    (segment : SegmentId) (offset count : Nat) (rest : Extent) (p : Playback σ γ) :
    Outcome DecodeError Nat × Playback σ γ :=
  if rest.length = 0 then (.ok count, p)
  else
    match Frame.read v client?.isSome ⟨segment, offset⟩ rest with
    | .error h => (.error h, p)
    | .ok frame =>
      match p.playFrame client? f frame with
      | (.error h, p) => (.error h, p)
      | (.ok (), p) =>
        match Word.add offset frame.size with
        | .error e => (.error (.fault e), p)
        | .ok next => playRecords v client? f segment next (count + 1) (rest.drop frame.size) p
termination_by rest.length
decreasing_by
  have := frame.size_pos
  rw [Extent.length_drop]
  omega

/-- Plays one segment. -/
def playSegment (v : Vocabulary C) (client? : Option (ReadingClient σ)) (f : Visitor σ γ)
    (segment : SegmentId) (data : Extent) (p : Playback σ γ) :
    Outcome DecodeError Nat × Playback σ γ :=
  playRecords v client? f segment 0 0 data p

/-- Plays segments in order, after `count` items of segments before them. -/
def playViews (v : Vocabulary C) (client? : Option (ReadingClient σ)) (f : Visitor σ γ) :
    List SegmentView → (count : Nat) → Playback σ γ → Outcome DecodeError Nat × Playback σ γ
  | [], count, p => (.ok count, p)
  | view :: rest, count, p =>
    match p.playSegment v client? f view.id view.data with
    | (.ok n, p) => playViews v client? f rest (count + n) p
    | (.error (.fault e), p) => (.error (.fault e), p)
    | (.error (.failed reason), p) =>
      let session := p.session.note (.stopped view.id count reason)
      (.error (.failed reason), { p with session := session })

/-! ## Frames first -/

/-- Plays frames in order, after `count` records before them. -/
def playFrames (client? : Option (ReadingClient σ)) (f : Visitor σ γ) :
    List Frame → (count : Nat) → Playback σ γ → Outcome DecodeError Nat × Playback σ γ
  | [], count, p => (.ok count, p)
  | frame :: rest, count, p =>
    match p.playFrame client? f frame with
    | (.error h, p) => (.error h, p)
    | (.ok (), p) => playFrames client? f rest (count + 1) p

/-- What playing frames comes to if their reading was stopped. -/
def haltedBy (played : Outcome DecodeError Nat × Playback σ γ) (halt : Option (Halt DecodeError)) :
    Outcome DecodeError Nat × Playback σ γ :=
  match played, halt with
  | (.ok _, p), some h => (.error h, p)
  | (outcome, p), _ => (outcome, p)

/-- Playing each record before the next one is read is the same as reading all frames first. -/
theorem playRecords_eq (v : Vocabulary C) (client? : Option (ReadingClient σ)) (f : Visitor σ γ)
    (segment : SegmentId) (offset count : Nat) (rest : Extent) (p : Playback σ γ) :
    p.playRecords v client? f segment offset count rest =
      let (frames, halt) := Frame.split v client?.isSome segment offset rest
      haltedBy (p.playFrames client? f frames count) halt := by
  fun_induction playRecords v client? f segment offset count rest p with
  | case1 offset count rest p hrest =>
    rw [Frame.split, if_pos hrest]
    rfl
  | case2 offset count rest p hrest h hread =>
    rw [Frame.split, if_neg hrest, hread]
    rfl
  | case3 offset count rest p hrest frame hread h q hplay =>
    rw [Frame.split, if_neg hrest, hread]
    cases hadd : Word.add offset frame.size <;> simp [hadd, playFrames, hplay, haltedBy]
  | case4 offset count rest p hrest frame hread q hplay e hadd =>
    rw [Frame.split, if_neg hrest, hread]
    simp [hadd, playFrames, hplay, haltedBy]
  | case5 offset count rest p hrest frame hread q hplay next hadd ih =>
    rw [ih, Frame.split.eq_def v client?.isSome segment offset rest, if_neg hrest, hread]
    simp [hadd, playFrames, hplay]

end Playback

namespace Tape

variable {σ γ C : Type}

/-- Visits every item in the order of recording, and counts them. -/
def forEach (tape : Tape σ) (v : Vocabulary C) (f : Visitor σ γ) (visited : γ) (s : Session σ) :
    Outcome DecodeError Nat × γ × Session σ :=
  let start : Playback σ γ := ⟨s, .empty, visited⟩
  let (outcome, p) := start.playViews v tape.reader f (tape.views s.store) 0
  let p := p.resetSlot
  (outcome, p.visited, p.session)

/-- Applies an item, unless one before it could not be applied. -/
def applyUnlessFailed (v : Vocabulary C) : Visitor σ (Option DecodeError × C) :=
  fun view _ (failure, context) =>
    match failure with
    | some reason => (.ok (), some reason, context)
    | none =>
      match v.apply view context with
      | (.ok (), context) => (.ok (), none, context)
      | (.error (.failed reason), context) => (.ok (), some reason, context)
      | (.error (.fault e), context) => (.error e, none, context)

/-- Applies every item to a context in the order of recording, and counts them. -/
def replay (tape : Tape σ) (v : Vocabulary C) (context : C) (s : Session σ) :
    Outcome DecodeError Nat × C × Session σ :=
  match tape.forEach v (applyUnlessFailed v) (none, context) s with
  | (.ok _, (some reason, context), s) => (.error (.failed reason), context, s)
  | (outcome, (_, context), s) => (outcome, context, s)

end Tape

end CommandTape
