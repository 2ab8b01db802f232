import CommandTape.Proofs.Grammar
import CommandTape.Proofs.Playing
import CommandTape.Samples.Clients

/-!
# Playing any bytes

Playing a segment visits the records that its bytes are read as, in order, and ends behind them, or
for the reason that the first illegible bytes alone give (`Playback.playSegment_reads`). So it
accepts just the bytes that are records in a row.
-/

namespace CommandTape

variable {σ γ C : Type}

/-! ## Reading the front of bytes -/

namespace Frame

/-- What reading the record at the front of bytes comes to. -/
inductive Fronted (v : Vocabulary C) (decode? : Option (Bytes → Tag → Decoding))
    (location : Location) (bs : Bytes) : Outcome DecodeError FrameBody → Prop
  /-- There is an inline record. -/
  | inline {tag : Tag} {kind : Kind} {view : View} (hstart : StartsWith v bs tag kind)
      (hinline : kind.isInline = true) (hsize : kind.recordSize ≤ bs.length)
      (hview : View.ofRecord (bs.take kind.recordSize) [] location = .ok view) :
      Fronted v decode? location bs (.ok (.inline view))
  /-- There is an encoded record with an intact blob, and a reading client. -/
  | encoded {tag : Tag} {kind : Kind} {decode : Bytes → Tag → Decoding}
      (hstart : StartsWith v bs tag kind) (hinline : kind.isInline = false)
      (hdecode : decode? = some decode)
      (hsize : Layout.encodedSize (Record.blobLength bs) ≤ bs.length)
      (hchecksum : (Checksum.crc32 (Record.blob bs)).toNat = Record.blobChecksum bs) :
      Fronted v decode? location bs (.ok (.encoded tag (Record.blob bs)))
  /-- There is none that can be played. -/
  | illegible {halt : Halt DecodeError} (h : Illegible v decode? bs halt) :
      Fronted v decode? location bs (.error halt)

theorem fronted_readBody (v : Vocabulary C) (decode? : Option (Bytes → Tag → Decoding))
    (location : Location) (rest : Extent) :
    Fronted v decode? location rest.toList (readBody v decode?.isSome location rest) := by
  have hlength := rest.length_toList
  rw [readBody]
  by_cases hheader : rest.length < Layout.headerSize
  · rw [if_pos hheader]
    exact .illegible (.header (by omega))
  · rw [if_neg hheader]
    have hheader' : Layout.headerSize ≤ rest.toList.length := by omega
    obtain ⟨tag, more, hcons⟩ : ∃ tag more, rest.toList = tag :: more :=
      List.exists_cons_of_length_pos (Nat.lt_of_lt_of_le (by decide) hheader')
    have htag : rest.toList.head? = some tag := by rw [hcons]; rfl
    have hread : rest.read 0 1 = [tag] := by
      rw [Extent.read_eq, hcons]
      rfl
    rw [hread]
    dsimp only
    cases hkind : v.kind? tag with
    | none => exact .illegible (.unknown hheader' htag hkind)
    | some kind =>
      have hstart : StartsWith v rest.toList tag kind := ⟨hheader', htag, hkind⟩
      dsimp only
      cases hinline : kind.isInline with
      | true =>
        rw [if_pos rfl]
        by_cases hend : rest.length < kind.recordSize
        · rw [readInline_of_lt hend]
          exact .illegible (.inlineEnd hstart hinline (by omega))
        · have hsize : kind.recordSize ≤ rest.toList.length := by omega
          have hrecord : Layout.headerSize ≤ (rest.toList.take kind.recordSize).length := by
            rw [List.length_take, Nat.min_eq_left hsize]
            exact kind.headerSize_le_recordSize
          have hview : View.ofRecord (rest.toList.take kind.recordSize) [] location =
              .ok ⟨rest.toList.take kind.recordSize, [], location, hrecord⟩ := dif_pos hrecord
          rw [readInline_of_le (Nat.le_of_not_lt hend), hview]
          exact .inline hstart hinline hsize hview
      | false =>
        rw [if_neg Bool.false_ne_true]
        cases decode? with
        | none => exact .illegible (.noReader hstart hinline rfl)
        | some decode =>
          rw [Option.isSome_some, if_pos rfl]
          by_cases hend : rest.length < Layout.encodedSize (Record.blobLength rest.toList)
          · rw [readBlob_of_lt hend]
            exact .illegible (.encodedEnd hstart hinline rfl (by omega))
          · have hsize :
                Layout.encodedSize (Record.blobLength rest.toList) ≤ rest.toList.length := by
              omega
            rw [readBlob_of_le (Nat.le_of_not_lt hend)]
            by_cases hchecksum : (Checksum.crc32 (Record.blob rest.toList)).toNat =
                Record.blobChecksum rest.toList
            · rw [if_neg (not_not_intro hchecksum)]
              exact .encoded hstart hinline rfl hsize hchecksum
            · rw [if_pos hchecksum]
              exact .illegible (.checksum hstart hinline rfl hsize hchecksum)

end Frame

/-! ## Playing -/

namespace Visitor

/-- What it comes to that a visitor is shown items one after the other: it takes all of them, or
gives up at one and is shown no more. -/
def showAll (f : Visitor σ γ) : List (View × Session σ) → γ → Except Fault Unit × γ
  | [], state => (.ok (), state)
  | visit :: rest, state =>
    match f visit.1 visit.2 state with
    | (.error e, state) => (.error e, state)
    | (.ok (), state) => f.showAll rest state

variable {f : Visitor σ γ}

theorem showAll_cons_of_ok {view : View} {s : Session σ} {state : γ}
    (h : (f view s state).1 = .ok ()) (rest : List (View × Session σ)) :
    f.showAll ((view, s) :: rest) state = f.showAll rest (f view s state).2 := by
  have hvisit : f view s state = (.ok (), (f view s state).2) := Prod.ext h rfl
  rw [showAll, hvisit]

theorem showAll_cons_of_error {view : View} {s : Session σ} {state : γ} {e : Fault}
    (h : (f view s state).1 = .error e) (rest : List (View × Session σ)) :
    f.showAll ((view, s) :: rest) state = (.error e, (f view s state).2) := by
  have hvisit : f view s state = (.error e, (f view s state).2) := Prod.ext h rfl
  rw [showAll, hvisit]

/-- A visitor that took all items is shown those behind them. -/
theorem showAll_append_of_ok {visits : List (View × Session σ)} {state : γ}
    (h : (f.showAll visits state).1 = .ok ()) (more : List (View × Session σ)) :
    f.showAll (visits ++ more) state = f.showAll more (f.showAll visits state).2 := by
  induction visits generalizing state with
  | nil => rfl
  | cons visit rest ih =>
    obtain ⟨view, s⟩ := visit
    cases hvisit : (f view s state).1 with
    | ok u =>
      rw [showAll_cons_of_ok hvisit] at h
      rw [List.cons_append, showAll_cons_of_ok hvisit, showAll_cons_of_ok hvisit, ih h]
    | error e =>
      rw [showAll_cons_of_error hvisit] at h
      exact absurd h (by simp)

/-- A visitor that gave up is shown no more. -/
theorem showAll_append_of_error {visits : List (View × Session σ)} {state : γ} {e : Fault}
    (h : (f.showAll visits state).1 = .error e) (more : List (View × Session σ)) :
    f.showAll (visits ++ more) state = f.showAll visits state := by
  induction visits generalizing state with
  | nil => exact absurd h (by simp [showAll])
  | cons visit rest ih =>
    obtain ⟨view, s⟩ := visit
    cases hvisit : (f view s state).1 with
    | ok u =>
      rw [showAll_cons_of_ok hvisit] at h
      rw [List.cons_append, showAll_cons_of_ok hvisit, showAll_cons_of_ok hvisit, ih h]
    | error e =>
      rw [List.cons_append, showAll_cons_of_error hvisit, showAll_cons_of_error hvisit]

/-- A visitor that never gives up is shown all items. -/
theorem showAll_of_total (hf : ∀ view s state, (f view s state).1 = .ok ())
    (visits : List (View × Session σ)) (state : γ) :
    f.showAll visits state = (.ok (), f.after visits state) := by
  induction visits generalizing state with
  | nil => rfl
  | cons visit rest ih =>
    rw [showAll_cons_of_ok (hf _ _ _), ih]
    rfl

end Visitor

/-- The reading client of a consumer whose decoding is a function of the blob and its tag. -/
def ReadingClient.ofFunction? (decode? : Option (Bytes → Tag → Decoding)) :
    Option (ReadingClient σ) :=
  decode?.map ReadingClient.ofFunction

@[simp] theorem ReadingClient.isSome_ofFunction? (decode? : Option (Bytes → Tag → Decoding)) :
    (ofFunction? decode? : Option (ReadingClient σ)).isSome = decode?.isSome :=
  Option.isSome_map

/-- What the client makes of a blob and its tag, as long as its state stays as it is. -/
def ReadingClient.answer (client : ReadingClient σ) (location : Location) (state : σ)
    (blob : Bytes) (tag : Tag) : Decoding :=
  (client.decode blob tag location state).1

@[simp] theorem ReadingClient.answer_ofFunction (decode : Bytes → Tag → Decoding)
    (location : Location) (state : σ) :
    (ReadingClient.ofFunction decode).answer location state = decode := rfl

namespace Playback

section Front

variable {f : Visitor σ γ}

@[simp] theorem visited_resetSlot (p : Playback σ γ) : p.resetSlot.visited = p.visited := rfl

/-- Decoding a blob does not touch the visitor's state. -/
theorem visited_of_decode {client : ReadingClient σ} {tag : Tag} {blob : Bytes}
    {location : Location} {p m : Playback σ γ} {outcome : Outcome DecodeError Unit}
    (h : p.decode client tag blob location = (outcome, m)) : m.visited = p.visited :=
  congrArg (fun result => result.2.visited) h.symm

/-- Neither does emptying the slot then. -/
theorem visited_of_emptied {client : ReadingClient σ} {tag : Tag} {blob : Bytes}
    {location : Location} {p m q : Playback σ γ} {outcome : Outcome DecodeError Unit}
    (h : p.decode client tag blob location = (outcome, m)) (hq : q = m ∨ q = m.resetSlot) :
    q.visited = p.visited := by
  rcases hq with rfl | rfl
  · exact visited_of_decode h
  · exact (visited_resetSlot m).trans (visited_of_decode h)

/-- What a decoding comes to is what the client's answer does with the emptied slot. -/
theorem decode_of_runOn {client : ReadingClient σ} {tag : Tag} {blob : Bytes} {location : Location}
    (p : Playback σ γ) {outcome : Outcome DecodeError Unit} {next : Slot} {gone : List Item}
    (hrun : (client.answer location p.session.clients blob tag).runOn
      { p.resetSlot.slot with location := location } = (outcome, next, gone)) :
    p.decode client tag blob location = (outcome, { p.resetSlot with
      slot := next
      session := { p.resetSlot.session with
        clients := (client.decode blob tag location p.session.clients).2 }.destroy gone }) := by
  unfold ReadingClient.answer at hrun
  have hclients : p.resetSlot.session.clients = p.session.clients := rfl
  simp only [Playback.decode, hclients, hrun]

/-- What playing a record with an intact blob comes to. -/
inductive Decoded (client : ReadingClient σ) (f : Visitor σ γ) (location : Location) (tag : Tag)
    (blob : Bytes) (p : Playback σ γ) : Outcome DecodeError Unit × Playback σ γ → Prop
  /-- The item that the client makes of the blob is visited in the slot, which is emptied then. -/
  | visited {item : Item} {m q : Playback σ γ}
      (hresult : (client.answer location p.session.clients blob tag).result = .ok (some item))
      (htag : item.kind.tag = tag) (hdecode : p.decode client tag blob location = (.ok (), m))
      (hview : m.slot.view? =
        some ((client.answer location p.session.clients blob tag).viewOf location item))
      (hheld : m.slot.held = item.remains)
      (hvisit : m.visit f
        ((client.answer location p.session.clients blob tag).viewOf location item) = (.ok (), q)) :
      Decoded client f location tag blob p (.ok (), q.resetSlot)
  /-- The visitor gives up at the item. -/
  | gaveUp {item : Item} {m q : Playback σ γ} {e : Fault}
      (hresult : (client.answer location p.session.clients blob tag).result = .ok (some item))
      (htag : item.kind.tag = tag) (hdecode : p.decode client tag blob location = (.ok (), m))
      (hview : m.slot.view? =
        some ((client.answer location p.session.clients blob tag).viewOf location item))
      (hheld : m.slot.held = item.remains)
      (hvisit : m.visit f
        ((client.answer location p.session.clients blob tag).viewOf location item) =
          (.error e, q)) :
      Decoded client f location tag blob p (.error (.fault e), q)
  /-- The client makes no item of the record's tag. -/
  | undecodable {halt : Halt DecodeError} {outcome : Outcome DecodeError Unit}
      {m q : Playback σ γ}
      (hwhy : Undecodable (client.answer location p.session.clients) tag blob halt)
      (hdecode : p.decode client tag blob location = (outcome, m)) (hq : q = m ∨ q = m.resetSlot) :
      Decoded client f location tag blob p (.error halt, q)

/-- An intact blob is visited as the item that the client makes of it, if it is one of the record's
tag. -/
theorem decoded_playFrame (client : ReadingClient σ) (f : Visitor σ γ) (location : Location)
    (tag : Tag) (blob : Bytes) (p : Playback σ γ) :
    Decoded client f location tag blob p
      (p.playFrame (some client) f ⟨location, .encoded tag blob⟩) := by
  have hempty : ({ p.resetSlot.slot with location := location } : Slot).HoldsJust none :=
    ⟨Slot.view?_of_isEmpty rfl, rfl, rfl⟩
  rcases hdecode : p.decode client tag blob location with ⟨outcome, m⟩
  rcases (client.answer location p.session.clients blob tag).runOn_of_holdsJust hempty with
    ⟨left, next, gone, hresult, hrun, hholds, hlocation⟩ | ⟨halt, next, gone, hresult, hrun⟩
  · obtain ⟨rfl, hm⟩ := Prod.mk.inj (hdecode.symm.trans (p.decode_of_runOn hrun))
    have hslot : m.slot.view? =
        left.map ((client.answer location p.session.clients blob tag).viewOf location) := by
      rw [hm]
      exact hholds.view_eq.trans (by rw [hlocation]; rfl)
    have hleft : m.slot.held = left.toList.flatMap Item.remains := by
      rw [hm]
      exact hholds.held_eq
    simp only [playFrame, hdecode, visitSlot, hslot]
    cases left with
    | none => exact .undecodable (.nothing hresult) hdecode (Or.inl rfl)
    | some item =>
      have htag := (Decoding.shows_viewOf (client.answer location p.session.clients blob tag)
        location item).1
      dsimp only [Option.map_some]
      rw [Option.toList_some, List.flatMap_singleton] at hleft
      by_cases hitem : item.kind.tag = tag
      · rw [if_pos (htag.trans hitem)]
        rcases hvisit : m.visit f ((client.answer location p.session.clients blob tag).viewOf
          location item) with ⟨e | u, q⟩
        · exact .gaveUp hresult hitem hdecode hslot hleft hvisit
        · exact .visited hresult hitem hdecode hslot hleft hvisit
      · rw [if_neg (fun h => hitem (htag.symm.trans h)), htag]
        exact .undecodable (.otherTag hresult hitem) hdecode (Or.inr rfl)
  · obtain ⟨rfl, -⟩ := Prod.mk.inj (hdecode.symm.trans (p.decode_of_runOn hrun))
    simp only [playFrame, hdecode]
    exact .undecodable (.rejected hresult) hdecode (Or.inl rfl)

/-- An intact blob is visited as the item that the consumer makes of it, if it is one of the
record's tag. -/
theorem playFrame_encoded (decode : Bytes → Tag → Decoding) (f : Visitor σ γ) (location : Location)
    (tag : Tag) (blob : Bytes) (p : Playback σ γ) :
    (∃ item s p', (decode blob tag).result = .ok (some item) ∧ item.kind.tag = tag ∧
      p.playFrame (some (.ofFunction decode)) f ⟨location, .encoded tag blob⟩ =
        (.ofFaulty (f ((decode blob tag).viewOf location item) s p.visited).1, p') ∧
      p'.visited = (f ((decode blob tag).viewOf location item) s p.visited).2) ∨
    ∃ halt p', Undecodable decode tag blob halt ∧
      p.playFrame (some (.ofFunction decode)) f ⟨location, .encoded tag blob⟩ = (.error halt, p') ∧
      p'.visited = p.visited := by
  have hdecoded := decoded_playFrame (.ofFunction decode) f location tag blob p
  generalize p.playFrame (some (.ofFunction decode)) f ⟨location, .encoded tag blob⟩ = played
    at hdecoded ⊢
  cases hdecoded with
  | @visited item m q hresult htag hdecode hview hheld hvisit =>
    rw [ReadingClient.answer_ofFunction] at hresult hvisit
    obtain ⟨houtcome, rfl⟩ := Prod.mk.inj hvisit
    rw [visited_of_decode hdecode] at houtcome
    refine Or.inl ⟨item, m.session, _, hresult, htag,
      Prod.ext (congrArg Outcome.ofFaulty houtcome).symm rfl, ?_⟩
    rw [visited_resetSlot, ← visited_of_decode hdecode]
  | @gaveUp item m q e hresult htag hdecode hview hheld hvisit =>
    rw [ReadingClient.answer_ofFunction] at hresult hvisit
    obtain ⟨houtcome, rfl⟩ := Prod.mk.inj hvisit
    rw [visited_of_decode hdecode] at houtcome
    refine Or.inl ⟨item, m.session, _, hresult, htag,
      Prod.ext (congrArg Outcome.ofFaulty houtcome).symm rfl, ?_⟩
    rw [← visited_of_decode hdecode]
  | @undecodable halt outcome m q hwhy hdecode hq =>
    exact Or.inr ⟨halt, q, hwhy, rfl, visited_of_emptied hdecode hq⟩

/-- Playing bytes plays the record at their front, and goes on behind it unless the visitor gives
up; or there is none that can be played, and it ends for just the reason of that. -/
theorem playRecords_front (v : Vocabulary C) (decode? : Option (Bytes → Tag → Decoding))
    (f : Visitor σ γ) (segment : SegmentId) (offset count : Nat) {rest : Extent}
    (hrest : rest.length ≠ 0) (hlimit : offset + rest.length < Word.limit) (p : Playback σ γ) :
    let played := p.playRecords v (ReadingClient.ofFunction? decode?) f segment offset count rest
    (∃ (record tail : Bytes) (view : View) (s : Session σ) (p' : Playback σ γ),
      rest.toList = record ++ tail ∧
      Legible v decode? ⟨segment, offset⟩ record view ∧
      p'.visited = (f view s p.visited).2 ∧
      ((f view s p.visited).1 = .ok () → played =
        p'.playRecords v (ReadingClient.ofFunction? decode?) f segment (offset + record.length)
          (count + 1) (rest.drop record.length)) ∧
      ∀ e, (f view s p.visited).1 = .error e → played = (.error (.fault e), p')) ∨
    ∃ (halt : Halt DecodeError) (p' : Playback σ γ), Illegible v decode? rest.toList halt ∧
      played = (.error halt, p') ∧ p'.visited = p.visited := by
  intro played
  have hlength := rest.length_toList
  have hfronted := Frame.fronted_readBody v decode? ⟨segment, offset⟩ rest
  have hplayed : played =
      p.playRecords v (ReadingClient.ofFunction? decode?) f segment offset count rest := rfl
  rw [playRecords, if_neg hrest, Frame.read, ReadingClient.isSome_ofFunction?] at hplayed
  rw [hplayed]
  generalize Frame.readBody v decode?.isSome ⟨segment, offset⟩ rest = body at hfronted ⊢
  cases hfronted with
  | @inline tag kind view hstart hinline hsize hview =>
    have hrecord : (rest.toList.take kind.recordSize).length = kind.recordSize := by
      rw [List.length_take, Nat.min_eq_left hsize]
    have hlegible : Legible v decode? ⟨segment, offset⟩ (rest.toList.take kind.recordSize) view :=
      hstart.legible_inline hinline hsize hview
    have hviewlength : view.length = kind.recordSize := by
      rw [View.ofRecord, dif_pos hlegible.headerSize_le] at hview
      rw [← Except.ok.inj hview]
      exact hrecord
    have hadd : Word.add offset kind.recordSize = .ok (offset + kind.recordSize) :=
      Word.add_of_lt (by omega)
    refine Or.inl ⟨rest.toList.take kind.recordSize, rest.toList.drop kind.recordSize, view,
      p.session, { p with visited := (f view p.session p.visited).2 },
      (List.take_append_drop _ _).symm, hlegible, rfl, fun htaken => ?_, fun e hgiven => ?_⟩
    · simp only [Except.map, playFrame, visit, htaken, Outcome.ofFaulty_ok, Frame.size, hviewlength,
        hadd, hrecord]
    · simp only [Except.map, playFrame, visit, hgiven, Outcome.ofFaulty_error]
  | @encoded tag kind decode hstart hinline hdecode hsize hchecksum =>
    subst hdecode
    have hround := Layout.le_roundUp (Record.blobLength rest.toList)
    have hrecord := Record.length_take_encodedSize hsize
    have hblob : (Record.blob rest.toList).length = Record.blobLength rest.toList :=
      Record.length_blob hsize
    have hadd : Word.add offset (Layout.encodedSize (Record.blobLength rest.toList)) =
        .ok (offset + Layout.encodedSize (Record.blobLength rest.toList)) :=
      Word.add_of_lt (by omega)
    rcases playFrame_encoded decode f ⟨segment, offset⟩ tag
        (Record.blob rest.toList) p with
      ⟨item, s, p', hresult, hitem, hframe, hvisited⟩ | ⟨halt, p', hwhy, hframe, hvisited⟩
    · have hlegible : Legible v (some decode) ⟨segment, offset⟩
          (rest.toList.take (Layout.encodedSize (Record.blobLength rest.toList)))
          ((decode (Record.blob rest.toList) tag).viewOf ⟨segment, offset⟩ item) :=
        hstart.legible_encoded hinline hsize hchecksum hresult hitem
      refine Or.inl ⟨_, _, _, s, p',
        (List.take_append_drop (Layout.encodedSize (Record.blobLength rest.toList)) _).symm,
        hlegible, hvisited, fun htaken => ?_, fun e hgiven => ?_⟩
      · rw [htaken] at hframe
        simp only [Except.map, ReadingClient.ofFunction?, Option.map_some, hframe,
          Outcome.ofFaulty_ok, Frame.size, hblob, hadd, hrecord]
      · rw [hgiven] at hframe
        simp only [Except.map, ReadingClient.ofFunction?, Option.map_some, hframe,
          Outcome.ofFaulty_error]
    · refine Or.inr ⟨halt, p', .undecodable hstart hinline rfl hsize hchecksum hwhy, ?_, hvisited⟩
      simp only [Except.map, ReadingClient.ofFunction?, Option.map_some, hframe]
  | illegible h =>
    exact Or.inr ⟨_, p, h, rfl, rfl⟩

end Front

/-! ## Playing segments -/

/-- How the playing of a count of records ends. -/
def ending (count : Nat) : Option (Halt DecodeError) → Outcome DecodeError Nat
  | none => .ok count
  | some halt => .error halt

theorem ending_eq_ok_iff {count n : Nat} {halt? : Option (Halt DecodeError)} :
    ending count halt? = .ok n ↔ halt? = none ∧ count = n := by
  cases halt? <;> simp [ending]

theorem ending_eq_error_iff {count : Nat} {halt : Halt DecodeError}
    {halt? : Option (Halt DecodeError)} : ending count halt? = .error halt ↔ halt? = some halt := by
  cases halt? <;> simp [ending]

/-- How the playing of records ends whose items a visitor was shown, as far as it did not give up.
-/
def endingAfter (shown : Except Fault Unit) (count : Nat) (halt? : Option (Halt DecodeError)) :
    Outcome DecodeError Nat :=
  match shown with
  | .ok () => ending count halt?
  | .error e => .error (.fault e)

variable (v : Vocabulary C) (decode? : Option (Bytes → Tag → Decoding)) {f : Visitor σ γ}

/-- Playing bytes shows the visitor the items that they are read as, up to the one at which it gives
up, and ends as the reading does if it gives up at none. -/
theorem playRecords_shows (f : Visitor σ γ) (segment : SegmentId) (offset count : Nat)
    (rest : Extent) (hlimit : offset + rest.length < Word.limit) (p : Playback σ γ) :
    ∃ (records : List Bytes) (views : List View) (halt? : Option (Halt DecodeError))
      (visits : List (View × Session σ)) (p' : Playback σ γ),
      Reads v decode? segment offset rest.toList records views halt? ∧
      p.playRecords v (ReadingClient.ofFunction? decode?) f segment offset count rest =
        (endingAfter (f.showAll visits p.visited).1 (count + records.length) halt?, p') ∧
      visits.map Prod.fst = views ∧ p'.visited = (f.showAll visits p.visited).2 := by
  -- each record is at least a header long, so what is left gets shorter
  induction hsize : rest.length using Nat.strongRecOn generalizing offset count rest p with
  | _ size ih =>
    by_cases hrest : rest.length = 0
    · have hnil : rest.toList = [] :=
        List.eq_nil_of_length_eq_zero (rest.length_toList.trans hrest)
      refine ⟨[], [], none, [], p, ⟨.nil offset, [], hnil, .finished⟩, ?_, rfl, rfl⟩
      rw [playRecords, if_pos hrest]
      rfl
    · rcases playRecords_front v decode? f segment offset count hrest hlimit p with
        ⟨record, tail, view, s, q, heq, hlegible, hvisited, htaken, hgiven⟩ |
          ⟨halt, q, hillegible, hplayed, hvisited⟩
      · have hheader := hlegible.headerSize_le
        have hpos : 0 < Layout.headerSize := by decide
        have hlength : rest.length = record.length + tail.length := by
          rw [← rest.length_toList, heq, List.length_append]
        have htail : (rest.drop record.length).toList = tail := by
          rw [Extent.toList_drop, heq, List.drop_left]
        have hleft : (rest.drop record.length).length = tail.length := by
          rw [Extent.length_drop]
          omega
        -- the bytes behind the record are read in one way, whether the visitor gets there or not
        obtain ⟨records, views, halt?, visits, p', hreads, hplayed, hvisits, hshown⟩ :=
          ih (rest.drop record.length).length (by omega) (offset + record.length) (count + 1)
            (rest.drop record.length) (by omega) q rfl
        rw [htail] at hreads
        obtain ⟨hsentence, left, htail', hends⟩ := hreads
        have hwhole : Reads v decode? segment offset rest.toList (record :: records)
            (view :: views) halt? := by
          refine ⟨.cons hlegible hsentence, left, ?_, hends⟩
          rw [heq, htail', List.flatten_cons, List.append_assoc]
        rw [hvisited] at hplayed hshown
        cases hview : (f view s p.visited).1 with
        | ok u =>
          have hshowAll := Visitor.showAll_cons_of_ok hview visits
          refine ⟨_, _, halt?, (view, s) :: visits, p', hwhole, ?_, ?_, ?_⟩
          · rw [htaken hview, hplayed, hshowAll, List.length_cons, Nat.add_assoc, Nat.add_comm 1]
          · rw [List.map_cons, hvisits]
          · rw [hshown, hshowAll]
        | error e =>
          have hshowAll := Visitor.showAll_cons_of_error hview visits
          refine ⟨_, _, halt?, (view, s) :: visits, q, hwhole, ?_, ?_, ?_⟩
          · rw [hgiven e hview, hshowAll]
            rfl
          · rw [List.map_cons, hvisits]
          · rw [hvisited, hshowAll]
      · have hne : rest.toList ≠ [] := by
          intro hnil
          rw [← rest.length_toList, hnil] at hrest
          exact hrest rfl
        exact ⟨[], [], some halt, [], q, ⟨.nil offset, rest.toList, rfl, .halted hne hillegible⟩,
          hplayed, rfl, hvisited⟩

/-- Playing a segment shows the visitor the items that its bytes are read as. -/
theorem playSegment_shows (f : Visitor σ γ) (segment : SegmentId) (data : Extent)
    (p : Playback σ γ) :
    ∃ (records : List Bytes) (views : List View) (halt? : Option (Halt DecodeError))
      (visits : List (View × Session σ)) (p' : Playback σ γ),
      Reads v decode? segment 0 data.toList records views halt? ∧
      p.playSegment v (ReadingClient.ofFunction? decode?) f segment data =
        (endingAfter (f.showAll visits p.visited).1 records.length halt?, p') ∧
      visits.map Prod.fst = views ∧ p'.visited = (f.showAll visits p.visited).2 := by
  have hstop := data.stop_le
  have hblock := Nat.lt_trans data.block.size_lt Word.memoryLimit_lt
  have h := playRecords_shows v decode? f segment 0 0 data (by omega) p
  rw [playSegment]
  simpa only [Nat.zero_add] using h

end Playback

end CommandTape
