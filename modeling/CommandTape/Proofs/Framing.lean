import CommandTape.Proofs.Walking

/-!
# Walking any bytes

Reading the record at the front of bytes never faults, whatever the bytes are: it fails for a reason
that it reports, or comes to a frame that lies within the bytes and whose tag the consumer knows
(`Frame.read_cases`). So the frames of a segment lie one behind the other from its start, each takes
eight bytes or more, and none goes over the end (`Frame.split_tiled`). If neither the reading client
nor the visitor gives up, playing the segment does not fault either, and visits at most one item for
every eight bytes (`Playback.playSegment_safe`).
-/

namespace CommandTape

variable {σ γ C : Type}

/-! ## Reading frames -/

/-- A tag stands for a kind that has it. -/
theorem Vocabulary.tag_of_kind? {v : Vocabulary C} {tag : Tag} {kind : Kind}
    (h : v.kind? tag = some kind) : kind.tag = tag := by
  obtain ⟨entry, hfind, rfl⟩ := Option.map_eq_some_iff.1 h
  exact eq_of_beq (List.find?_some hfind :)

namespace View

theorem record_of_ofRecord {record owned : Bytes} {location : Location} {view : View}
    (h : ofRecord record owned location = .ok view) : view.record = record := by
  unfold ofRecord at h
  split at h
  · rw [← Except.ok.inj h]
  · exact absurd h (by simp)

theorem tag_of_head? {view : View} {tag : Tag} (h : view.record.head? = some tag) :
    view.tag = tag := by
  obtain ⟨record, owned, location, hheader⟩ := view
  obtain ⟨more, rfl⟩ := List.head?_eq_some_iff.1 h
  rfl

/-- A record of the right tag and size can be seen as one of the kind. -/
theorem exists_get {view : View} {kind : Kind} (htag : view.tag = kind.tag)
    (hsize : kind.recordSize ≤ view.length) : ∃ item, view.get kind = .ok item := by
  have hkind : view.hasKind kind = true := decide_eq_true htag
  rw [get, if_pos hkind, if_pos hsize]
  exact ⟨_, rfl⟩

end View

/-- The only faults among the reasons why bytes are illegible are those of the reading client. -/
theorem Illegible.exists_reason {v : Vocabulary C} {decode? : Option (Bytes → Tag → Decoding)}
    (hquiet : ∀ decode, decode? = some decode → ∀ blob tag e,
      (decode blob tag).result ≠ .error (.fault e))
    {bs : Bytes} {halt : Halt DecodeError} (h : Illegible v decode? bs halt) :
    ∃ reason, halt = .failed reason := by
  cases halt with
  | failed reason => exact ⟨reason, rfl⟩
  | fault e =>
    cases h with
    | undecodable hstart hinline hdecode hsize hchecksum hwhy =>
      cases hwhy with
      | rejected hresult => exact absurd hresult (hquiet _ hdecode _ _ e)

namespace Frame

/-- The record's tag stands for a kind. An item that lies in the record can be seen as one of it. -/
def KnownBy (v : Vocabulary C) (frame : Frame) : Prop :=
  match frame.body with
  | .inline view => ∃ kind item, v.kind? view.tag = some kind ∧ kind.isInline = true ∧
      view.get kind = .ok item
  | .encoded tag _ => ∃ kind, v.kind? tag = some kind ∧ kind.isInline = false

/-- The frame is one of a record that starts at the location, where so many bytes are left. -/
structure LiesAt (v : Vocabulary C) (location : Location) (room : Nat) (frame : Frame) : Prop where
  location_eq : frame.location = location
  header_le : Layout.headerSize ≤ frame.size
  size_le : frame.size ≤ room
  known : frame.KnownBy v

variable {v : Vocabulary C}

/-- An inline record lies where it is read, and its item is one of the kind that its tag stands
for. -/
theorem liesAt_inline {bs : Bytes} {tag : Tag} {kind : Kind} {view : View} {location : Location}
    (hstart : StartsWith v bs tag kind) (hinline : kind.isInline = true)
    (hsize : kind.recordSize ≤ bs.length)
    (hview : View.ofRecord (bs.take kind.recordSize) [] location = .ok view) :
    LiesAt v location bs.length ⟨location, .inline view⟩ := by
  have hheader := kind.headerSize_le_recordSize
  have hrecord := View.record_of_ofRecord hview
  have hlength : view.length = kind.recordSize := by
    rw [View.length, hrecord, List.length_take_of_le hsize]
  have htag : view.tag = tag := by
    refine View.tag_of_head? ?_
    rw [hrecord]
    exact (hstart.take hheader hsize).head_eq
  have hkind : v.kind? view.tag = some kind := by
    rw [htag]
    exact hstart.kind_eq
  obtain ⟨item, hitem⟩ := View.exists_get (Vocabulary.tag_of_kind? hkind).symm
    (Nat.le_of_eq hlength.symm)
  exact ⟨rfl, Nat.le_trans hheader (Nat.le_of_eq hlength.symm),
    Nat.le_trans (Nat.le_of_eq hlength) hsize, kind, item, hkind, hinline, hitem⟩

/-- An encoded record lies where it is read. -/
theorem liesAt_encoded {bs : Bytes} {tag : Tag} {kind : Kind} (location : Location)
    (hstart : StartsWith v bs tag kind) (hinline : kind.isInline = false)
    (hsize : Layout.encodedSize (Record.blobLength bs) ≤ bs.length) :
    LiesAt v location bs.length ⟨location, .encoded tag (Record.blob bs)⟩ := by
  have hframe : size ⟨location, .encoded tag (Record.blob bs)⟩ =
      Layout.encodedSize (Record.blobLength bs) :=
    congrArg Layout.encodedSize (Record.length_blob hsize)
  refine ⟨rfl, ?_, hframe ▸ hsize, kind, hstart.kind_eq, hinline⟩
  rw [hframe]
  exact Nat.le_trans (by decide) (Nat.le_add_right _ _)

/-- Reading the record at the front of bytes comes to a frame that lies there, or fails. -/
theorem read_cases (v : Vocabulary C) (hasClient : Bool) (location : Location) (rest : Extent) :
    (∃ frame, Frame.read v hasClient location rest = .ok frame ∧
      frame.LiesAt v location rest.length) ∨
    ∃ reason, Frame.read v hasClient location rest = .error (.failed reason) := by
  -- reading asks whether there is a client, and not what it does
  obtain ⟨decode?, rfl, hquiet⟩ : ∃ decode? : Option (Bytes → Tag → Decoding),
      decode?.isSome = hasClient ∧ ∀ decode, decode? = some decode → ∀ blob tag e,
        (decode blob tag).result ≠ .error (.fault e) := by
    cases hasClient with
    | false => exact ⟨none, rfl, by simp⟩
    | true =>
      refine ⟨some fun _ _ => ⟨[], .ok ()⟩, rfl, ?_⟩
      rintro decode ⟨⟩ blob tag e ⟨⟩
  have hfronted := fronted_readBody v decode? location rest
  rw [← rest.length_toList, Frame.read]
  generalize readBody v decode?.isSome location rest = body at hfronted ⊢
  cases hfronted with
  | inline hstart hinline hsize hview =>
    exact Or.inl ⟨_, rfl, liesAt_inline hstart hinline hsize hview⟩
  | encoded hstart hinline hdecode hsize hchecksum =>
    exact Or.inl ⟨_, rfl, liesAt_encoded location hstart hinline hsize⟩
  | illegible h =>
    obtain ⟨reason, rfl⟩ := h.exists_reason hquiet
    exact Or.inr ⟨reason, rfl⟩

/-- Frames lie one behind the other from an offset on, and none goes over the end. -/
inductive Tiled (v : Vocabulary C) (segment : SegmentId) (stop : Nat) : Nat → List Frame → Prop
  | nil {offset : Nat} (h : offset ≤ stop) : Tiled v segment stop offset []
  | cons {offset : Nat} {frame : Frame} {rest : List Frame}
      (h : frame.LiesAt v ⟨segment, offset⟩ (stop - offset))
      (hrest : Tiled v segment stop (offset + frame.size) rest) :
      Tiled v segment stop offset (frame :: rest)

/-- Frames that lie one behind the other are at most as many as there is room for headers. -/
theorem Tiled.length_le {segment : SegmentId} {stop offset : Nat} {frames : List Frame}
    (h : Tiled v segment stop offset frames) : offset + 8 * frames.length ≤ stop := by
  induction h with
  | nil h => exact h
  | cons h hrest ih =>
    have hheader : 8 ≤ Frame.size _ := h.header_le
    rw [List.length_cons]
    omega

/-- What is read at the front of bytes lies there. -/
theorem liesAt_of_read {hasClient : Bool} {location : Location} {rest : Extent} {frame : Frame}
    (h : Frame.read v hasClient location rest = .ok frame) :
    frame.LiesAt v location rest.length := by
  rcases read_cases v hasClient location rest with ⟨other, hother, hlies⟩ | ⟨reason, hfails⟩
  · obtain rfl : other = frame := Except.ok.inj (hother.symm.trans h)
    exact hlies
  · exact absurd (hfails.symm.trans h) (by simp)

/-- Splitting any bytes ends with frames that lie one behind the other, and no fault stops it. -/
theorem split_tiled (v : Vocabulary C) (hasClient : Bool) (segment : SegmentId) (offset : Nat)
    (rest : Extent) (hlimit : offset + rest.length < Word.limit) :
    Tiled v segment (offset + rest.length) offset (split v hasClient segment offset rest).1 ∧
      ∀ e, (split v hasClient segment offset rest).2 ≠ some (.fault e) := by
  fun_induction split v hasClient segment offset rest with
  | case1 offset rest hrest => exact ⟨.nil (Nat.le_add_right _ _), by simp⟩
  | case2 offset rest hrest halt hread =>
    rcases read_cases v hasClient ⟨segment, offset⟩ rest with ⟨frame, hframe, -⟩ | ⟨reason, hfails⟩
    · exact absurd (hframe.symm.trans hread) (by simp)
    · obtain rfl : Halt.failed reason = halt := Except.error.inj (hfails.symm.trans hread)
      exact ⟨.nil (Nat.le_add_right _ _), by simp⟩
  | case3 offset rest hrest frame hread e hadd =>
    have hsize := (liesAt_of_read hread).size_le
    rw [Word.add_of_lt (by omega)] at hadd
    exact absurd hadd (by simp)
  | case4 offset rest hrest frame hread next hadd frames halt hsplit ih =>
    have hlies := liesAt_of_read hread
    have hsize := hlies.size_le
    rw [Word.add_of_lt (by omega)] at hadd
    obtain rfl := Except.ok.inj hadd
    have hstop : offset + frame.size + (rest.drop frame.size).length = offset + rest.length := by
      rw [Extent.length_drop]
      omega
    rw [hstop, hsplit] at ih
    obtain ⟨htiled, hhalt⟩ := ih hlimit
    refine ⟨.cons ?_ htiled, hhalt⟩
    rw [Nat.add_sub_cancel_left]
    exact hlies

end Frame

/-! ## What clients leave in slots -/

namespace Slot

/-- The slot is empty, or has a record with a header. -/
def Headed (slot : Slot) : Prop := slot.isEmpty = true ∨ slot.view?.isSome = true

theorem Headed.step {slot : Slot} (h : slot.Headed) (step : SlotStep) :
    (slot.step step).2.1.Headed := by
  cases step with
  | emplace item =>
    by_cases hfits : item.kind.fits = true
    · obtain ⟨next, hemplace, -, hview⟩ := slot.emplace_of_fits hfits
      rw [Slot.step, hemplace]
      exact Or.inr (Option.isSome_of_eq_some hview)
    · rw [Slot.step, slot.emplace_of_not_fits hfits]
      exact h
  | reset => exact Or.inl rfl
  | swap spare =>
    have hholds := spare.holdsJust_slot
    rw [Slot.step, Headed, hholds.isEmpty_eq, hholds.view_eq]
    cases spare.held? with
    | none => exact Or.inl rfl
    | some item => exact Or.inr rfl

theorem Headed.run {slot : Slot} (h : slot.Headed) (steps : List SlotStep) :
    (slot.run steps).2.1.Headed := by
  induction steps generalizing slot with
  | nil => exact h
  | cons step rest ih =>
    have hstep := h.step step
    rw [Slot.run]
    rcases heq : slot.step step with ⟨e | u, next, gone⟩
    · rw [heq] at hstep
      exact hstep
    · rw [heq] at hstep
      exact ih hstep

end Slot

/-- Whatever a decoding does, what it leaves in an empty slot has a header. -/
theorem Decoding.headed_runOn (d : Decoding) {slot : Slot} (h : slot.isEmpty = true) :
    (d.runOn slot).2.1.Headed := by
  have hrun := Slot.Headed.run (Or.inl h) d.steps
  rw [runOn]
  rcases heq : slot.run d.steps with ⟨e | u, next, gone⟩
  · rw [heq] at hrun
    exact hrun
  · rw [heq] at hrun
    exact hrun

/-! ## Playing -/

/-- The client never gives up, whatever it is asked in whatever state. -/
def ReadingClient.Quiet (client : ReadingClient σ) : Prop :=
  ∀ location state blob tag e, (client.answer location state blob tag).result ≠ .error (.fault e)

/-- The view shows the record: just as it lies there, if it is inline, and as an item of its tag, if
it is encoded. -/
def Frame.ShownBy (frame : Frame) (view : View) : Prop :=
  match frame.body with
  | .inline shown => view = shown
  | .encoded tag _ => view.tag = tag

namespace Playback

variable {reader? : Option (ReadingClient σ)} {f : Visitor σ γ}

/-- Playing a record visits one item, or fails and visits none. -/
theorem playFrame_of_quiet (hquiet : ∀ client, reader? = some client → client.Quiet)
    (hf : ∀ view s state, (f view s state).1 = .ok ()) (frame : Frame) (p : Playback σ γ) :
    (∃ view s p', frame.ShownBy view ∧ p.playFrame reader? f frame = (.ok (), p') ∧
      p'.visited = (f view s p.visited).2) ∨
    ∃ reason p', p.playFrame reader? f frame = (.error (.failed reason), p') ∧
      p'.visited = p.visited := by
  obtain ⟨location, body⟩ := frame
  cases body with
  | inline view =>
    refine Or.inl ⟨view, p.session, { p with visited := (f view p.session p.visited).2 }, rfl, ?_,
      rfl⟩
    simp only [playFrame, visit, hf, Outcome.ofFaulty_ok]
  | encoded tag blob =>
    cases reader? with
    | none => exact Or.inr ⟨_, p, rfl, rfl⟩
    | some client =>
      have hdecoded := decoded_playFrame client f location tag blob p
      generalize p.playFrame (some client) f ⟨location, .encoded tag blob⟩ = played
        at hdecoded ⊢
      cases hdecoded with
      | @visited item m q hresult htag hdecode hview hheld hvisit =>
        have hshows :=
          (client.answer location p.session.clients blob tag).shows_viewOf location item
        obtain ⟨-, rfl⟩ := Prod.mk.inj hvisit
        refine Or.inl ⟨_, m.session, _, hshows.1.trans htag, rfl, ?_⟩
        rw [visited_resetSlot, ← visited_of_decode hdecode]
      | @gaveUp item m q e hresult htag hdecode hview hheld hvisit =>
        have hgiven : (f ((client.answer location p.session.clients blob tag).viewOf location item)
            m.session m.visited).1 = .error e := congrArg Prod.fst hvisit
        rw [hf] at hgiven
        exact absurd hgiven (by simp)
      | @undecodable halt outcome m q hwhy hdecode hq =>
        have hvisited := visited_of_emptied hdecode hq
        cases hwhy with
        | rejected hresult =>
          cases halt with
          | failed reason => exact Or.inr ⟨reason, q, rfl, hvisited⟩
          | fault e => exact absurd hresult (hquiet client rfl _ _ _ _ e)
        | nothing hresult => exact Or.inr ⟨_, q, rfl, hvisited⟩
        | otherTag hresult hitem => exact Or.inr ⟨_, q, rfl, hvisited⟩

/-- Playing frames visits one item for each, up to the first that fails. -/
theorem playFrames_of_quiet (hquiet : ∀ client, reader? = some client → client.Quiet)
    (hf : ∀ view s state, (f view s state).1 = .ok ()) (frames : List Frame) (count : Nat)
    (p : Playback σ γ) :
    ∃ played visits, played <+: frames ∧
      List.Forall₂ (fun frame visit => frame.ShownBy visit.1) played visits ∧
      (p.playFrames reader? f frames count).2.visited = f.after visits p.visited ∧
      ((p.playFrames reader? f frames count).1 = .ok (count + visits.length) ∨
        ∃ reason, (p.playFrames reader? f frames count).1 = .error (.failed reason)) := by
  induction frames generalizing count p with
  | nil => exact ⟨[], [], List.prefix_rfl, .nil, rfl, Or.inl rfl⟩
  | cons frame rest ih =>
    rcases playFrame_of_quiet hquiet hf frame p with
      ⟨view, s, q, hshown, hplayed, hvisited⟩ | ⟨reason, q, hplayed, hvisited⟩
    · obtain ⟨played, visits, hfront, hvisits, hafter, houtcome⟩ := ih (count + 1) q
      refine ⟨frame :: played, (view, s) :: visits, List.cons_prefix_cons.2 ⟨rfl, hfront⟩,
        .cons hshown hvisits, ?_, ?_⟩
      · rw [playFrames, hplayed]
        dsimp only
        rw [hafter, hvisited]
        rfl
      · rw [playFrames, hplayed, List.length_cons, Nat.add_comm visits.length, ← Nat.add_assoc]
        exact houtcome
    · refine ⟨[], [], List.nil_prefix, .nil, ?_, Or.inr ⟨reason, ?_⟩⟩
      · rw [playFrames, hplayed]
        exact hvisited
      · rw [playFrames, hplayed]

/-- What stops the reading of frames ends their playing, if that did not end before. -/
theorem haltedBy_of_unfaulted {played : Outcome DecodeError Nat × Playback σ γ}
    {halt? : Option (Halt DecodeError)} (hhalt : ∀ e, halt? ≠ some (.fault e)) {n : Nat}
    (h : played.1 = .ok n ∨ ∃ reason, played.1 = .error (.failed reason)) :
    (haltedBy played halt?).2 = played.2 ∧
      ((haltedBy played halt?).1 = .ok n ∨
        ∃ reason, (haltedBy played halt?).1 = .error (.failed reason)) := by
  obtain ⟨outcome, q⟩ := played
  rcases h with rfl | ⟨reason, rfl⟩
  · rcases halt? with _ | reason | e
    · exact ⟨rfl, Or.inl rfl⟩
    · exact ⟨rfl, Or.inr ⟨reason, rfl⟩⟩
    · exact absurd rfl (hhalt e)
  · exact ⟨rfl, Or.inr ⟨reason, rfl⟩⟩

/-- Playing a segment is safe whatever bytes it has, if neither the reading client nor the visitor
gives up. The frames that it is split into lie one behind the other from its start; each takes eight
bytes or more, none goes over the end, and an item that lies in its record can be seen as one of the
kind that its tag stands for. No fault stops the splitting: no sum leaves the range of sizes, and no
slice the bytes. Playing visits one item for each frame up to the first that fails, so at most one
for every eight bytes, and it ends well or with a reason. -/
theorem playSegment_safe (v : Vocabulary C)
    (hquiet : ∀ client, reader? = some client → client.Quiet)
    (hf : ∀ view s state, (f view s state).1 = .ok ()) (segment : SegmentId) (data : Extent)
    (p : Playback σ γ) :
    let frames := (Frame.split v reader?.isSome segment 0 data).1
    let halt? := (Frame.split v reader?.isSome segment 0 data).2
    let played := p.playSegment v reader? f segment data
    Frame.Tiled v segment data.length 0 frames ∧ (∀ e, halt? ≠ some (.fault e)) ∧
    (∀ length < Layout.blobLimit, Word.encodedSize length = .ok (Layout.encodedSize length)) ∧
    (∀ client, reader? = some client → ∀ tag blob location (q : Playback σ γ),
      (q.decode client tag blob location).2.slot.Headed) ∧
    ∃ shown visits, shown <+: frames ∧
      List.Forall₂ (fun frame visit => frame.ShownBy visit.1) shown visits ∧
      8 * visits.length ≤ data.length ∧ played.2.visited = f.after visits p.visited ∧
      (played.1 = .ok visits.length ∨ ∃ reason, played.1 = .error (.failed reason)) := by
  intro frames halt? played
  have hlimit : 0 + data.length < Word.limit := by
    have hstop := data.stop_le
    have hblock := Nat.lt_trans data.block.size_lt Word.memoryLimit_lt
    omega
  have hsplit := Frame.split_tiled v reader?.isSome segment 0 data hlimit
  rw [Nat.zero_add] at hsplit
  obtain ⟨htiled, hhalt⟩ : Frame.Tiled v segment data.length 0 frames ∧
      ∀ e, halt? ≠ some (.fault e) := hsplit
  obtain ⟨shown, visits, hfront, hvisits, hafter, houtcome⟩ :=
    playFrames_of_quiet hquiet hf frames 0 p
  have hplayed : played = haltedBy (p.playFrames reader? f frames 0) halt? :=
    p.playRecords_eq v reader? f segment 0 0 data
  rw [Nat.zero_add] at houtcome
  obtain ⟨hq, hends⟩ := haltedBy_of_unfaulted hhalt houtcome
  have hcount : 8 * visits.length ≤ data.length := by
    have hroom := htiled.length_le
    have hshown := hfront.length_le
    rw [← hvisits.length_eq]
    omega
  refine ⟨htiled, hhalt, fun length => Word.encodedSize_of_lt,
    fun client hclient tag blob location q => Decoding.headed_runOn _ rfl, shown, visits, hfront,
    hvisits, hcount, ?_, ?_⟩
  · rw [hplayed, hq]
    exact hafter
  · rw [hplayed]
    exact hends

end Playback

namespace Sample

/-- A client that makes an item of the first blob that it is handed, and rejects those behind it. -/
def weary : ReadingClient Nat :=
  ⟨fun bytes _ _ count => (if count = 0 then .ofItem (blob bytes) else .failed .unexpectedEnd,
    count + 1)⟩

theorem quiet_weary : weary.Quiet := by
  intro location count bytes tag e
  cases count with
  | zero =>
    have hresult : (weary.answer location 0 bytes tag).result = .ok (some (blob bytes)) := rfl
    rw [hresult]
    simp
  | succ count =>
    have hresult : (weary.answer location (count + 1) bytes tag).result =
        .error (.failed .unexpectedEnd) := rfl
    rw [hresult]
    simp

/-- A byte item, an encoded item, and the front of a record that is said to be as long as can be. -/
def endless : Bytes :=
  [7, 0, 0, 0, 0, 0, 0, 0, 9, 0, 0, 0, 0, 0, 0, 0,
    11, 0, 0, 0, 0, 0, 0, 0, 3, 0, 0, 0, 174, 235, 150, 83, 1, 2, 3, 0, 0, 0, 0, 0,
    11, 0, 0, 0, 0, 0, 0, 0, 255, 255, 255, 255, 0, 0, 0, 0, 1, 2, 3]

end Sample

/-- The record that is said to be so long is not visited. -/
theorem Playback.playSegment_safe_sample :
    let data := Extent.ofBlock (.ofBytes Sample.endless (by decide)) 59
    let count : Visitor Nat Nat := fun _ _ seen => (.ok (), seen + 1)
    let start : Playback Nat Nat := ⟨.start Sample.machine 0, .empty, 0⟩
    let played := start.playSegment Sample.coreVocabulary (some Sample.weary) count ⟨1⟩ data
    played.1 = .error (.failed .unexpectedEnd) ∧ played.2.visited = 2 ∧
    ∃ visits, 8 * visits.length ≤ 59 ∧ played.2.visited = count.after visits 0 := by
  intro data count played
  have hquiet : ∀ client, some Sample.weary = some client → client.Quiet := by
    rintro client ⟨⟩
    exact Sample.quiet_weary
  obtain ⟨-, -, -, -, shown, visits, -, -, hroom, hafter, -⟩ :=
    playSegment_safe Sample.coreVocabulary hquiet (f := count) (fun _ _ _ => rfl) ⟨1⟩ data
      ⟨.start Sample.machine 0, .empty, 0⟩
  exact ⟨by decide +kernel, by decide +kernel, visits, hroom, hafter⟩

end CommandTape
