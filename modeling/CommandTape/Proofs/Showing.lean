import CommandTape.Proofs.Applying

/-!
# What is shown where

Playing goes through a segment from record to record: each is read where the one before it ends, and
its item is shown (`SegmentView.Displays`). The view has the location of the record, whether the
item lies there or was decoded, as long as the reading client keeps the slot that it is lent
(`Frame.ShownAs.location_eq`). It goes on up to the end, or to a place where no record can be read
or decoded (`SegmentView.EndsAt`). A tape is toured segment after segment (`Tape.toured`), so all
that is known of a playback, whatever bytes it meets and whatever the reading client makes of them,
can be told from where its items were shown.
-/

namespace CommandTape

variable {σ γ C : Type}

/-! ## Records where they are read -/

namespace View

theorem location_of_ofRecord {record owned : Bytes} {location : Location} {view : View}
    (h : ofRecord record owned location = .ok view) : view.location = location := by
  unfold ofRecord at h
  split at h
  · rw [← Except.ok.inj h]
  · exact absurd h (by simp)

theorem length_ofItem (item : Item) (location : Location) :
    (View.ofItem item location).length = item.kind.recordSize := Record.length_inline item

end View

namespace Extent

theorem drop_zero (e : Extent) : e.drop 0 = e := by
  simp only [drop, Nat.zero_min, Nat.add_zero, Nat.sub_zero]

theorem drop_drop (e : Extent) (a b : Nat) : (e.drop a).drop b = e.drop (a + b) := by
  simp only [drop, Extent.mk.injEq, true_and]
  omega

end Extent

namespace Frame

variable {v : Vocabulary C} {reader? : Option (ReadingClient σ)}

/-- The view shows the item of the record: where it lies, or as the reading client made it of the
blob and left it in the slot. -/
inductive ShownAs (reader? : Option (ReadingClient σ)) : Frame → View → Prop
  | inline {location : Location} {view : View} (hlocation : view.location = location) :
      ShownAs reader? ⟨location, .inline view⟩ view
  | decoded {client : ReadingClient σ} {location : Location} {tag : Tag} {blob : Bytes}
      {item : Item} (state : σ) (hclient : reader? = some client)
      (hresult : (client.answer location state blob tag).result = .ok (some item))
      (htag : item.kind.tag = tag) :
      ShownAs reader? ⟨location, .encoded tag blob⟩
        ((client.answer location state blob tag).viewOf location item)

/-- The reading client makes no item of the record's tag of the blob. -/
inductive UndecodedBy (reader? : Option (ReadingClient σ)) : Frame → Halt DecodeError → Prop
  | intro {client : ReadingClient σ} {location : Location} {tag : Tag} {blob : Bytes}
      {halt : Halt DecodeError} (state : σ) (hclient : reader? = some client)
      (hwhy : Undecodable (client.answer location state) tag blob halt) :
      UndecodedBy reader? ⟨location, .encoded tag blob⟩ halt

/-- If the client keeps the slot, an item is shown at the location of its record. -/
theorem ShownAs.location_eq {frame : Frame} {view : View} (h : frame.ShownAs reader? view)
    (hkeeps : ∀ client ∈ reader?, client.KeepsSlot) : view.location = frame.location := by
  cases h with
  | inline hlocation => exact hlocation
  | @decoded client location tag blob item state hclient hresult htag =>
    exact (hkeeps client hclient blob tag location state).shownAt_eq location

/-- A record that is read is an inline one, which is viewed where it is read, or an encoded one that
there is a client to decode for. -/
theorem cases_of_read {hasClient : Bool} {location : Location} {rest : Extent} {frame : Frame}
    (h : Frame.read v hasClient location rest = .ok frame) :
    (∃ view, frame = ⟨location, .inline view⟩ ∧ view.location = location) ∨
      hasClient = true ∧ ∃ tag blob, frame = ⟨location, .encoded tag blob⟩ := by
  -- reading asks whether there is a client, and not what it does
  obtain ⟨decode?, rfl⟩ : ∃ decode? : Option (Bytes → Tag → Decoding),
      decode?.isSome = hasClient := by
    cases hasClient with
    | false => exact ⟨none, rfl⟩
    | true => exact ⟨some fun _ _ => ⟨[], .ok ()⟩, rfl⟩
  have hfronted := fronted_readBody v decode? location rest
  rw [Frame.read] at h
  generalize readBody v decode?.isSome location rest = body at hfronted h
  cases hfronted with
  | inline hstart hinline hsize hview =>
    exact Or.inl ⟨_, (Except.ok.inj h).symm, View.location_of_ofRecord hview⟩
  | encoded hstart hinline hdecode hsize hchecksum =>
    exact Or.inr ⟨Option.isSome_of_eq_some hdecode, _, _, (Except.ok.inj h).symm⟩
  | illegible h' => exact absurd h (by simp [Except.map])

end Frame

/-! ## Playing one record -/

/-- An item that was shown: the record that it was read from, and what the visitor saw. -/
structure ShownItem (σ : Type) where
  frame : Frame
  view : View
  session : Session σ

/-- What the visitor saw. -/
def ShownItem.visit (e : ShownItem σ) : View × Session σ := (e.view, e.session)

namespace Playback

variable {v : Vocabulary C} {reader? : Option (ReadingClient σ)} {f : Visitor σ γ}

/-- Playing a record that was read shows its item, or the client makes none of it. -/
theorem playFrame_shownItem (hf : ∀ view s state, (f view s state).1 = .ok ())
    {location : Location} {rest : Extent} {frame : Frame}
    (hread : Frame.read v reader?.isSome location rest = .ok frame) (p : Playback σ γ) :
    (∃ (e : ShownItem σ) (q : Playback σ γ), e.frame = frame ∧ frame.ShownAs reader? e.view ∧
      p.playFrame reader? f frame = (.ok (), q) ∧
      q.visited = (f e.view e.session p.visited).2) ∨
    ∃ (halt : Halt DecodeError) (q : Playback σ γ), frame.UndecodedBy reader? halt ∧
      p.playFrame reader? f frame = (.error halt, q) ∧ q.visited = p.visited := by
  rcases Frame.cases_of_read hread with
    ⟨view, rfl, hlocation⟩ | ⟨hclient, tag, blob, rfl⟩
  · refine Or.inl ⟨⟨_, view, p.session⟩,
      { p with visited := (f view p.session p.visited).2 }, rfl, .inline hlocation, ?_, rfl⟩
    simp only [playFrame, visit, hf, Outcome.ofFaulty_ok]
  · obtain ⟨client, rfl⟩ := Option.isSome_iff_exists.1 hclient
    have hdecoded := decoded_playFrame client f location tag blob p
    generalize p.playFrame (some client) f ⟨location, .encoded tag blob⟩ = played
      at hdecoded ⊢
    cases hdecoded with
    | @visited item m q hresult htag hdecode hview hheld hvisit =>
      obtain ⟨-, rfl⟩ := Prod.mk.inj hvisit
      refine Or.inl ⟨⟨_, (client.answer location p.session.clients blob tag).viewOf location item,
        m.session⟩, _, rfl, .decoded _ rfl hresult htag, rfl, ?_⟩
      rw [visited_resetSlot, ← visited_of_decode hdecode]
    | @gaveUp item m q e hresult htag hdecode hview hheld hvisit =>
      have hgiven : (f ((client.answer location p.session.clients blob tag).viewOf location item)
          m.session m.visited).1 = .error e := congrArg Prod.fst hvisit
      rw [hf] at hgiven
      exact absurd hgiven (by simp)
    | @undecodable halt outcome m q hwhy hdecode hq =>
      exact Or.inr ⟨halt, q, .intro _ rfl hwhy, rfl, visited_of_emptied hdecode hq⟩

end Playback

/-! ## Going through a segment -/

namespace SegmentView

variable (v : Vocabulary C) (reader? : Option (ReadingClient σ)) (segment : SegmentView)

/-- From an offset on, the items are shown of the records that lie one behind the other in the
segment, up to before another offset. -/
inductive Displays : Nat → List (ShownItem σ) → Nat → Prop
  | nil {offset : Nat} (hle : offset ≤ segment.data.length) : Displays offset [] offset
  | cons {offset : Nat} {e : ShownItem σ} {row : List (ShownItem σ)} {stop : Nat}
      (hread : Frame.read v reader?.isSome ⟨segment.id, offset⟩ (segment.data.drop offset) =
        .ok e.frame)
      (hshown : e.frame.ShownAs reader? e.view)
      (hrow : Displays (offset + e.frame.size) row stop) :
      Displays offset (e :: row) stop

/-- What ends the playing of the segment at an offset: its end, or a record there that cannot be
read, or not be decoded. -/
inductive EndsAt (stop : Nat) : Option (Halt DecodeError) → Prop
  | finished (h : stop = segment.data.length) : EndsAt stop none
  | unreadable {halt : Halt DecodeError} (hlt : stop < segment.data.length)
      (hread : Frame.read v reader?.isSome ⟨segment.id, stop⟩ (segment.data.drop stop) =
        .error halt) :
      EndsAt stop (some halt)
  | undecodable {frame : Frame} {halt : Halt DecodeError} (hlt : stop < segment.data.length)
      (hread : Frame.read v reader?.isSome ⟨segment.id, stop⟩ (segment.data.drop stop) =
        .ok frame)
      (hwhy : frame.UndecodedBy reader? halt) :
      EndsAt stop (some halt)

variable {v reader? segment} {offset stop : Nat} {row : List (ShownItem σ)}

theorem Displays.le (h : segment.Displays v reader? offset row stop) :
    offset ≤ stop ∧ stop ≤ segment.data.length := by
  induction h with
  | nil hle => exact ⟨Nat.le_refl _, hle⟩
  | cons hread hshown hrow ih => exact ⟨Nat.le_trans (Nat.le_add_right _ _) ih.1, ih.2⟩

/-- Each item that is displayed was shown of its record. -/
theorem Displays.shown (h : segment.Displays v reader? offset row stop) {e : ShownItem σ}
    (hmem : e ∈ row) : e.frame.ShownAs reader? e.view := by
  induction h with
  | nil hle => exact absurd hmem List.not_mem_nil
  | cons hread hshown hrow ih =>
    rcases List.mem_cons.1 hmem with rfl | hmem
    · exact hshown
    · exact ih hmem

/-- Only where no record was shown nothing was passed. -/
theorem Displays.eq_nil_iff (h : segment.Displays v reader? offset row stop) :
    row = [] ↔ stop = offset := by
  cases h with
  | nil hle => exact ⟨fun _ => rfl, fun _ => rfl⟩
  | @cons offset e row stop hread hshown hrow =>
    have hpos := e.frame.size_pos
    have hle := hrow.le.1
    exact ⟨fun hnil => absurd hnil (by simp), fun hstop => by omega⟩

end SegmentView

namespace Playback

variable {v : Vocabulary C} {reader? : Option (ReadingClient σ)} {f : Visitor σ γ}

/-- Playing what is left of a segment displays it, and ends where and as that ends. -/
theorem playRecords_displays (v : Vocabulary C) (reader? : Option (ReadingClient σ))
    (hf : ∀ view s state, (f view s state).1 = .ok ()) (segment : SegmentView)
    (offset count : Nat) {rest : Extent} (hrest : rest = segment.data.drop offset)
    (hle : offset ≤ segment.data.length) (p : Playback σ γ) :
    ∃ (row : List (ShownItem σ)) (stop : Nat) (halt? : Option (Halt DecodeError))
      (q : Playback σ γ),
      segment.Displays v reader? offset row stop ∧ segment.EndsAt v reader? stop halt? ∧
      p.playRecords v reader? f segment.id offset count rest =
        (ending (count + row.length) halt?, q) ∧
      q.visited = f.after (row.map ShownItem.visit) p.visited := by
  have hlength : rest.length = segment.data.length - offset := by
    rw [hrest, Extent.length_drop]
  have hlimit : segment.data.length < Word.limit := by
    have hstop := segment.data.stop_le
    have hblock := Nat.lt_trans segment.data.block.size_lt Word.memoryLimit_lt
    omega
  -- each record is at least a header long, so what is left gets shorter
  induction hsize : rest.length using Nat.strongRecOn generalizing offset count rest p with
  | _ size ih =>
    by_cases hdone : rest.length = 0
    · refine ⟨[], offset, none, p, .nil hle, .finished (by omega), ?_, rfl⟩
      rw [playRecords, if_pos hdone]
      rfl
    · have hlt : offset < segment.data.length := by omega
      rw [playRecords, if_neg hdone]
      cases hread : Frame.read v reader?.isSome ⟨segment.id, offset⟩ rest with
      | error halt =>
        exact ⟨[], offset, some halt, p, .nil hle, .unreadable hlt (hrest ▸ hread), rfl, rfl⟩
      | ok frame =>
        dsimp only
        rcases playFrame_shownItem hf hread p with
          ⟨e, q, rfl, hshown, hplayed, hvisited⟩ | ⟨halt, q, hwhy, hplayed, hvisited⟩
        · have hpos := e.frame.size_pos
          have hfits := (Frame.liesAt_of_read hread).size_le
          have hadd : Word.add offset e.frame.size = .ok (offset + e.frame.size) :=
            Word.add_of_lt (by omega)
          have hnext : rest.drop e.frame.size = segment.data.drop (offset + e.frame.size) := by
            rw [hrest, Extent.drop_drop]
          have hshorter : (rest.drop e.frame.size).length < size := by
            rw [Extent.length_drop]
            omega
          obtain ⟨row, stop, halt?, q', hrow, hends, houtcome, hafter⟩ :=
            ih _ hshorter (offset + e.frame.size) (count + 1) hnext (by omega) q
              (congrArg Extent.length hnext) rfl
          refine ⟨e :: row, stop, halt?, q', .cons (hrest ▸ hread) hshown hrow, hends, ?_, ?_⟩
          · simp only [hplayed, hadd, houtcome, List.length_cons, Nat.add_assoc, Nat.add_comm 1]
          · rw [hafter, hvisited]
            rfl
        · exact ⟨[], offset, some halt, q, .nil hle, .undecodable hlt (hrest ▸ hread) hwhy,
            by rw [hplayed]; rfl, hvisited⟩

/-- Playing a segment displays it from its start on. -/
theorem playSegment_displays (v : Vocabulary C) (reader? : Option (ReadingClient σ))
    (hf : ∀ view s state, (f view s state).1 = .ok ()) (segment : SegmentView) (p : Playback σ γ) :
    ∃ (row : List (ShownItem σ)) (stop : Nat) (halt? : Option (Halt DecodeError))
      (q : Playback σ γ),
      segment.Displays v reader? 0 row stop ∧ segment.EndsAt v reader? stop halt? ∧
      p.playSegment v reader? f segment.id segment.data = (ending row.length halt?, q) ∧
      q.visited = f.after (row.map ShownItem.visit) p.visited := by
  obtain ⟨row, stop, halt?, q, hrow, hends, hplayed, hafter⟩ :=
    playRecords_displays v reader? hf segment 0 0 segment.data.drop_zero.symm (Nat.zero_le _) p
  rw [Nat.zero_add] at hplayed
  exact ⟨row, stop, halt?, q, hrow, hends, hplayed, hafter⟩

end Playback

/-! ## What playing does not touch -/

namespace Playback

/-- A part of a playback that reports nothing and takes no identifier. -/
structure Silent (before after : Playback σ γ) : Prop where
  notices_eq : after.session.notices = before.session.notices
  issued_eq : after.session.issued = before.session.issued

namespace Silent

variable {p p' p'' : Playback σ γ}

theorem refl (p : Playback σ γ) : p.Silent p := ⟨rfl, rfl⟩

theorem trans (h : p.Silent p') (h' : p'.Silent p'') : p.Silent p'' :=
  ⟨h'.notices_eq.trans h.notices_eq, h'.issued_eq.trans h.issued_eq⟩

end Silent

theorem resetSlot_silent (p : Playback σ γ) : p.Silent p.resetSlot := ⟨rfl, rfl⟩

theorem visit_silent (f : Visitor σ γ) (view : View) (p : Playback σ γ) :
    p.Silent (p.visit f view).2 := ⟨rfl, rfl⟩

theorem decode_silent (client : ReadingClient σ) (tag : Tag) (blob : Bytes) (location : Location)
    (p : Playback σ γ) : p.Silent (p.decode client tag blob location).2 := ⟨rfl, rfl⟩

theorem visitSlot_silent (f : Visitor σ γ) (tag : Tag) (p : Playback σ γ) :
    p.Silent (p.visitSlot f tag).2 := by
  unfold visitSlot
  cases p.slot.view? with
  | none => exact .refl p
  | some view =>
    dsimp only
    by_cases htag : view.tag = tag
    · rw [if_pos htag]
      have hvisit := visit_silent f view p
      rcases heq : p.visit f view with ⟨e | _, p'⟩
      · rw [heq] at hvisit
        exact hvisit
      · rw [heq] at hvisit
        exact hvisit.trans p'.resetSlot_silent
    · rw [if_neg htag]
      exact p.resetSlot_silent

theorem playFrame_silent (reader? : Option (ReadingClient σ)) (f : Visitor σ γ) (frame : Frame)
    (p : Playback σ γ) : p.Silent (p.playFrame reader? f frame).2 := by
  obtain ⟨location, body⟩ := frame
  cases body with
  | inline view => exact visit_silent f view p
  | encoded tag blob =>
    cases reader? with
    | none => exact .refl p
    | some client =>
      have hdecode := p.decode_silent client tag blob location
      rcases heq : p.decode client tag blob location with ⟨h | _, p'⟩
      · rw [heq] at hdecode
        simp only [playFrame, heq]
        exact hdecode
      · rw [heq] at hdecode
        simp only [playFrame, heq]
        exact hdecode.trans (p'.visitSlot_silent f tag)

theorem playRecords_silent (v : Vocabulary C) (reader? : Option (ReadingClient σ))
    (f : Visitor σ γ) (segment : SegmentId) (offset count : Nat) (rest : Extent)
    (p : Playback σ γ) :
    p.Silent (p.playRecords v reader? f segment offset count rest).2 := by
  fun_induction playRecords v reader? f segment offset count rest p with
  | case1 offset count rest p hrest => exact .refl p
  | case2 offset count rest p hrest h hread => exact .refl p
  | case3 offset count rest p hrest frame hread h q hplay =>
    have hframe := p.playFrame_silent reader? f frame
    rwa [hplay] at hframe
  | case4 offset count rest p hrest frame hread q hplay e hadd =>
    have hframe := p.playFrame_silent reader? f frame
    rwa [hplay] at hframe
  | case5 offset count rest p hrest frame hread q hplay next hadd ih =>
    have hframe := p.playFrame_silent reader? f frame
    rw [hplay] at hframe
    exact hframe.trans ih

theorem issued_playViews (v : Vocabulary C) (reader? : Option (ReadingClient σ))
    (f : Visitor σ γ) (segments : List SegmentView) (count : Nat) (p : Playback σ γ) :
    (p.playViews v reader? f segments count).2.session.issued = p.session.issued := by
  induction segments generalizing count p with
  | nil => rfl
  | cons segment rest ih =>
    have hsegment := (p.playRecords_silent v reader? f segment.id 0 0 segment.data).issued_eq
    rw [playViews, playSegment]
    rcases heq : p.playRecords v reader? f segment.id 0 0 segment.data with ⟨(reason | e) | n, q⟩
    · rw [heq] at hsegment
      exact hsegment
    · rw [heq] at hsegment
      exact hsegment
    · rw [heq] at hsegment
      exact (ih (count + n) q).trans hsegment

end Playback

/-! ## Touring a tape -/

/-- Segments are gone through in order, after `count` items of segments before them: the items that
are shown in each, how it ends, and what is reported. -/
inductive Toured (v : Vocabulary C) (reader? : Option (ReadingClient σ)) :
    (count : Nat) → List SegmentView → List (List (ShownItem σ)) → Outcome DecodeError Nat →
      List Notice → Prop
  | done (count : Nat) : Toured v reader? count [] [] (.ok count) []
  /-- A segment is gone through to its end. -/
  | through {count : Nat} {segment : SegmentView} {rest : List SegmentView}
      {row : List (ShownItem σ)} {stop : Nat} {rows : List (List (ShownItem σ))}
      {outcome : Outcome DecodeError Nat} {notices : List Notice}
      (hrow : segment.Displays v reader? 0 row stop) (hends : segment.EndsAt v reader? stop none)
      (hrest : Toured v reader? (count + row.length) rest rows outcome notices) :
      Toured v reader? count (segment :: rest) (row :: rows) outcome notices
  /-- A record in a segment is the reason why the tour ends, which is reported. -/
  | stopped {count : Nat} {segment : SegmentView} {rest : List SegmentView}
      {row : List (ShownItem σ)} {stop : Nat} {reason : DecodeError}
      (hrow : segment.Displays v reader? 0 row stop)
      (hends : segment.EndsAt v reader? stop (some (.failed reason))) :
      Toured v reader? count (segment :: rest) [row] (.error (.failed reason))
        [.stopped segment.id count reason]
  /-- A fault ends the tour. -/
  | faulted {count : Nat} {segment : SegmentView} {rest : List SegmentView}
      {row : List (ShownItem σ)} {stop : Nat} {e : Fault}
      (hrow : segment.Displays v reader? 0 row stop)
      (hends : segment.EndsAt v reader? stop (some (.fault e))) :
      Toured v reader? count (segment :: rest) [row] (.error (.fault e)) []

/-- Playing segments tours them. -/
theorem Playback.playViews_toured (v : Vocabulary C) (reader? : Option (ReadingClient σ))
    {f : Visitor σ γ} (hf : ∀ view s state, (f view s state).1 = .ok ())
    (segments : List SegmentView) (count : Nat) (p : Playback σ γ) :
    ∃ (rows : List (List (ShownItem σ))) (outcome : Outcome DecodeError Nat)
      (notices : List Notice) (q : Playback σ γ),
      Toured v reader? count segments rows outcome notices ∧
      p.playViews v reader? f segments count = (outcome, q) ∧
      q.visited = f.after (rows.flatten.map ShownItem.visit) p.visited ∧
      q.session.notices.toList = p.session.notices.toList ++ notices := by
  induction segments generalizing count p with
  | nil => exact ⟨[], .ok count, [], p, .done count, rfl, rfl, (List.append_nil _).symm⟩
  | cons segment rest ih =>
    obtain ⟨row, stop, halt?, q, hrow, hends, hplayed, hafter⟩ :=
      playSegment_displays v reader? hf segment p
    have hsilent := p.playRecords_silent v reader? f segment.id 0 0 segment.data
    rw [show p.playRecords v reader? f segment.id 0 0 segment.data = _ from hplayed] at hsilent
    have hquiet : q.session.notices.toList = p.session.notices.toList :=
      congrArg Journal.toList hsilent.notices_eq
    have hone : [row].flatten = row := List.flatten_singleton
    rw [playViews, hplayed]
    rcases halt? with _ | reason | e
    · obtain ⟨rows, outcome, notices, q', htoured, hlater, hafter', hnotices⟩ :=
        ih (count + row.length) q
      refine ⟨row :: rows, outcome, notices, q', .through hrow hends htoured, hlater, ?_, ?_⟩
      · rw [hafter', hafter, List.flatten_cons, List.map_append, Visitor.after, Visitor.after,
          Visitor.after, List.foldl_append]
      · rw [hnotices, hquiet]
    · refine ⟨[row], _, _, _, .stopped hrow hends, rfl, ?_, ?_⟩
      · rw [hone]
        exact hafter
      · rw [← hquiet]
        exact Journal.toList_add _ _
    · refine ⟨[row], _, [], q, .faulted hrow hends, rfl, ?_, ?_⟩
      · rw [hone]
        exact hafter
      · rw [hquiet, List.append_nil]

namespace Toured

variable {v : Vocabulary C} {reader? : Option (ReadingClient σ)} {count n : Nat}
  {segments : List SegmentView} {rows : List (List (ShownItem σ))}
  {outcome : Outcome DecodeError Nat} {notices : List Notice}

/-- A tour that ends well goes through all segments to their ends, counts what it shows, and reports
nothing. -/
theorem of_ok (h : Toured v reader? count segments rows (.ok n) notices) :
    List.Forall₂ (fun segment row => segment.Displays v reader? 0 row segment.data.length)
      segments rows ∧ n = count + rows.flatten.length ∧ notices = [] := by
  generalize hok : (.ok n : Outcome DecodeError Nat) = outcome at h
  induction h with
  | done count =>
    obtain rfl := Except.ok.inj hok
    exact ⟨.nil, rfl, rfl⟩
  | through hrow hends hrest ih =>
    obtain ⟨hrows, rfl, rfl⟩ := ih hok
    cases hends with
    | finished hstop =>
      refine ⟨.cons (hstop ▸ hrow) hrows, ?_, rfl⟩
      rw [List.flatten_cons, List.length_append, Nat.add_assoc]
  | stopped hrow hends => exact absurd hok (by simp)
  | faulted hrow hends => exact absurd hok (by simp)

/-- A tour that ends for a reason goes through some segments to their ends, and in the next one
comes to the record that is the reason. It reports the count of what it showed in the segments
before. -/
theorem of_failed {reason : DecodeError}
    (h : Toured v reader? count segments rows (.error (.failed reason)) notices) :
    ∃ before segment after whole row stop, segments = before ++ segment :: after ∧
      rows = whole ++ [row] ∧
      List.Forall₂ (fun segment row => segment.Displays v reader? 0 row segment.data.length)
        before whole ∧
      segment.Displays v reader? 0 row stop ∧
      segment.EndsAt v reader? stop (some (.failed reason)) ∧
      notices = [.stopped segment.id (count + whole.flatten.length) reason] := by
  generalize hfailed : (.error (.failed reason) : Outcome DecodeError Nat) = outcome at h
  induction h with
  | done count => exact absurd hfailed (by simp)
  | @through count segment rest row stop rows outcome notices hrow hends hrest ih =>
    obtain ⟨before, last, after, whole, shown, stop', rfl, rfl, hwhole, hshown, hlast, rfl⟩ :=
      ih hfailed
    cases hends with
    | finished hstop =>
      refine ⟨segment :: before, last, after, row :: whole, shown, stop', rfl, rfl,
        .cons (hstop ▸ hrow) hwhole, hshown, hlast, ?_⟩
      rw [List.flatten_cons, List.length_append, Nat.add_assoc]
  | @stopped count segment rest row stop other hrow hends =>
    obtain rfl : reason = other := by simpa using hfailed
    exact ⟨[], segment, rest, [], row, stop, rfl, rfl, .nil, hrow, hends, rfl⟩
  | faulted hrow hends => exact absurd hfailed (by simp)

end Toured

/-- A visitor that takes all items comes to what it makes of them. -/
theorem Visitor.showAll_eq_after {f : Visitor σ γ} {visits : List (View × Session σ)} {state : γ}
    (h : (f.showAll visits state).1 = .ok ()) :
    (f.showAll visits state).2 = f.after visits state := by
  induction visits generalizing state with
  | nil => rfl
  | cons visit rest ih =>
    obtain ⟨view, s⟩ := visit
    cases hvisit : (f view s state).1 with
    | ok u =>
      rw [showAll_cons_of_ok hvisit] at h ⊢
      exact ih h
    | error e =>
      rw [showAll_cons_of_error hvisit] at h
      exact absurd h (by simp)

namespace Tape

/-- Playing a tape takes no identifier. -/
theorem issued_forEach (tape : Tape σ) (v : Vocabulary C) (f : Visitor σ γ) (start : γ)
    (s : Session σ) : (tape.forEach v f start s).2.2.issued = s.issued :=
  Playback.issued_playViews v tape.reader f (tape.views s.store) 0 ⟨s, .empty, start⟩

/-- What a tape shows is a tour of its segments, whoever visits it. A visitor that takes all items
comes to what the tour comes to, and one that gives up has seen the items up to there. -/
theorem toured (tape : Tape σ) (v : Vocabulary C) (s : Session σ) :
    ∃ (rows : List (List (ShownItem σ))) (outcome : Outcome DecodeError Nat)
      (notices : List Notice) (last : Session σ),
      Toured v tape.reader 0 (tape.views s.store) rows outcome notices ∧
      tape.visits v s = rows.flatten.map ShownItem.visit ∧
      last.notices.toList = s.notices.toList ++ notices ∧
      ∀ (γ : Type) (f : Visitor σ γ) (start : γ),
        let shown := f.showAll (tape.visits v s) start
        (shown.1 = .ok () →
          tape.forEach v f start s = (outcome, f.after (tape.visits v s) start, last)) ∧
        ∀ e, shown.1 = .error e →
          (tape.forEach v f start s).1 = .error (.fault e) ∧
            (tape.forEach v f start s).2.1 = shown.2 := by
  obtain ⟨rows, outcome, notices, q, htoured, hplayed, hvisited, hnotices⟩ :=
    Playback.playViews_toured v tape.reader (f := .collect) (fun _ _ _ => rfl)
      (tape.views s.store) 0 ⟨s, .empty, []⟩
  have hcollected : tape.forEach v .collect [] s =
      (outcome, q.resetSlot.visited, q.resetSlot.session) := by
    simp only [forEach, hplayed]
  have hvisits : tape.visits v s = rows.flatten.map ShownItem.visit := by
    rw [visits, hcollected]
    exact hvisited.trans ((Visitor.after_collect _ _).trans (List.nil_append _))
  refine ⟨rows, outcome, notices, q.resetSlot.session, htoured, hvisits, hnotices, ?_⟩
  -- all visitors come to the same as the one that takes the items down
  obtain ⟨-, outcome', last, hguided⟩ := tape.exists_forEach_eq v s
  have hall := Visitor.showAll_of_total (f := Visitor.collect) (fun _ _ _ => rfl)
    (tape.visits v s) []
  have hsame := (hguided _ Visitor.collect []).1 (congrArg Prod.fst hall)
  rw [hcollected] at hsame
  obtain ⟨rfl, hrest⟩ := Prod.mk.inj hsame
  obtain ⟨-, rfl⟩ := Prod.mk.inj hrest
  intro γ f start
  refine ⟨fun hshown => ?_, (hguided γ f start).2⟩
  rw [(hguided γ f start).1 hshown, Visitor.showAll_eq_after hshown]

/-- A visitor took all items if no fault ended the playback. -/
theorem showAll_of_unfaulted {tape : Tape σ} {v : Vocabulary C} {f : Visitor σ γ} {start : γ}
    {s : Session σ} (h : ∀ e, (tape.forEach v f start s).1 ≠ .error (.fault e)) :
    (f.showAll (tape.visits v s) start).1 = .ok () := by
  obtain ⟨_, _, _, _, _, _, _, hplayed⟩ := tape.toured v s
  cases hshown : (f.showAll (tape.visits v s) start).1 with
  | ok u => rfl
  | error e => exact absurd ((hplayed γ f start).2 e hshown).1 (h e)

end Tape

end CommandTape
