import CommandTape.Proofs.Walking

/-!
# Reading segments in order

What segments are read as, one after the other: reading goes on in the next segment unless it was
halted, so segments in front are read in the same way whatever follows them (`ReadsAll.append`,
`ReadsAll.append_of_halted`). Playing shows a visitor what is read (`Playback.playViews_shows`), and
chapters are read as the items of their records (`Chapter.readsAll`).
-/

namespace CommandTape

variable {σ γ C : Type}

/-! ## Segments in a row -/

/-- Segments are read as the views, up to the end of the last one or to what halts the reading. -/
inductive ReadsAll (v : Vocabulary C) (decode? : Option (Bytes → Tag → Decoding)) :
    List SegmentView → List View → Option (Halt DecodeError) → Prop
  | nil : ReadsAll v decode? [] [] none
  /-- A segment is read to its end. -/
  | cons {segment : SegmentView} {rest : List SegmentView} {records : List Bytes}
      {views shown : List View} {halt? : Option (Halt DecodeError)}
      (h : Reads v decode? segment.id 0 segment.data.toList records views none)
      (hrest : ReadsAll v decode? rest shown halt?) :
      ReadsAll v decode? (segment :: rest) (views ++ shown) halt?
  /-- Something in a segment halts the reading. -/
  | halted {segment : SegmentView} {rest : List SegmentView} {records : List Bytes}
      {views : List View} {halt : Halt DecodeError}
      (h : Reads v decode? segment.id 0 segment.data.toList records views (some halt)) :
      ReadsAll v decode? (segment :: rest) views (some halt)

namespace ReadsAll

variable {v : Vocabulary C} {decode? : Option (Bytes → Tag → Decoding)}
  {segments more : List SegmentView} {shown shown' : List View}
  {halt? halt?' : Option (Halt DecodeError)}

/-- There is only one way to read segments. -/
theorem unique (h : ReadsAll v decode? segments shown halt?)
    (h' : ReadsAll v decode? segments shown' halt?') : shown = shown' ∧ halt? = halt?' := by
  induction h generalizing shown' halt?' with
  | nil =>
    cases h'
    exact ⟨rfl, rfl⟩
  | cons h hrest ih =>
    cases h' with
    | cons h' hrest' =>
      obtain ⟨-, rfl, -⟩ := h.unique h'
      obtain ⟨rfl, rfl⟩ := ih hrest'
      exact ⟨rfl, rfl⟩
    | halted h' => exact absurd (h.unique h').2.2 (by simp)
  | halted h =>
    cases h' with
    | cons h' hrest' => exact absurd (h.unique h').2.2 (by simp)
    | halted h' => exact ⟨(h.unique h').2.1, (h.unique h').2.2⟩

/-- Segments behind those that were read to the end are read next. -/
theorem append (h : ReadsAll v decode? segments shown none)
    (h' : ReadsAll v decode? more shown' halt?) :
    ReadsAll v decode? (segments ++ more) (shown ++ shown') halt? := by
  generalize hnone : (none : Option (Halt DecodeError)) = ended at h
  induction h with
  | nil => exact h'
  | cons h hrest ih =>
    rw [List.cons_append, List.append_assoc]
    exact .cons h (ih hnone)
  | halted h => exact absurd hnone (by simp)

/-- Segments behind what halted the reading are not read. -/
theorem append_of_halted {halt : Halt DecodeError}
    (h : ReadsAll v decode? segments shown (some halt)) (more : List SegmentView) :
    ReadsAll v decode? (segments ++ more) shown (some halt) := by
  generalize hsome : some halt = ended at h
  induction h with
  | nil => exact absurd hsome (by simp)
  | cons h hrest ih => exact .cons h (ih hsome)
  | halted h => exact .halted h

end ReadsAll

namespace Playback

/-- Playing segments shows the visitor what they are read as, up to the item at which it gives up,
and ends as the reading does if it gives up at none. -/
theorem playViews_shows (v : Vocabulary C) (decode? : Option (Bytes → Tag → Decoding))
    (f : Visitor σ γ) (segments : List SegmentView) (count : Nat) (p : Playback σ γ) :
    ∃ (shown : List View) (halt? : Option (Halt DecodeError)) (visits : List (View × Session σ))
      (p' : Playback σ γ),
      ReadsAll v decode? segments shown halt? ∧
      p.playViews v (ReadingClient.ofFunction? decode?) f segments count =
        (endingAfter (f.showAll visits p.visited).1 (count + shown.length) halt?, p') ∧
      visits.map Prod.fst = shown ∧ p'.visited = (f.showAll visits p.visited).2 := by
  induction segments generalizing count p with
  | nil => exact ⟨[], none, [], p, .nil, rfl, rfl, rfl⟩
  | cons segment rest ih =>
    obtain ⟨records, views, halt?, first, q, hreads, hplayed, hfirst, hq⟩ :=
      playSegment_shows v decode? f segment.id segment.data p
    have hlength : views.length = records.length := hreads.sentence.length_eq
    rw [playViews, hplayed]
    cases halt? with
    | none =>
      obtain ⟨shown, halt?, later, q', hrest, hplayed', hlater, hq'⟩ :=
        ih (count + records.length) q
      have hwhole : ReadsAll v decode? (segment :: rest) (views ++ shown) halt? :=
        .cons hreads hrest
      have hvisits : (first ++ later).map Prod.fst = views ++ shown := by
        rw [List.map_append, hfirst, hlater]
      rw [hq] at hplayed' hq'
      cases hshown : (f.showAll first p.visited).1 with
      | ok u =>
        have hshowAll := Visitor.showAll_append_of_ok hshown later
        refine ⟨_, halt?, first ++ later, q', hwhole, ?_, hvisits, ?_⟩
        · show playViews v _ f rest (count + records.length) q = _
          rw [hplayed', hshowAll, List.length_append, hlength, Nat.add_assoc]
        · rw [hq', hshowAll]
      | error e =>
        have hshowAll := Visitor.showAll_append_of_error hshown later
        refine ⟨_, halt?, first ++ later, q, hwhole, ?_, hvisits, ?_⟩
        · rw [hshowAll, hshown]
          rfl
        · rw [hq, hshowAll]
    | some halt =>
      have hwhole : ReadsAll v decode? (segment :: rest) views (some halt) := .halted hreads
      cases hshown : (f.showAll first p.visited).1 with
      | ok u =>
        cases halt with
        | failed reason =>
          refine ⟨_, _, first,
            { q with session := q.session.note (.stopped segment.id count reason) }, hwhole, ?_,
            hfirst, hq⟩
          rw [hshown]
          rfl
        | fault e =>
          refine ⟨_, _, first, q, hwhole, ?_, hfirst, hq⟩
          rw [hshown]
          rfl
      | error e =>
        refine ⟨_, _, first, q, hwhole, ?_, hfirst, hq⟩
        rw [hshown]
        rfl

end Playback

namespace Tape

/-- Playing a tape shows the visitor what its segments are read as, up to the item at which it gives
up, and ends as the reading does if it gives up at none. -/
theorem forEach_shows (tape : Tape σ) (v : Vocabulary C)
    (decode? : Option (Bytes → Tag → Decoding)) (f : Visitor σ γ) (start : γ) (s : Session σ) :
    let played := (tape.setReader (ReadingClient.ofFunction? decode?)).forEach v f start s
    ∃ (shown : List View) (halt? : Option (Halt DecodeError)) (visits : List (View × Session σ)),
      ReadsAll v decode? (tape.views s.store) shown halt? ∧
      played.1 = Playback.endingAfter (f.showAll visits start).1 shown.length halt? ∧
      visits.map Prod.fst = shown ∧ played.2.1 = (f.showAll visits start).2 := by
  intro played
  obtain ⟨shown, halt?, visits, p', hreads, hplayed, hvisits, hshown⟩ :=
    Playback.playViews_shows v decode? f (tape.views s.store) 0 ⟨s, .empty, start⟩
  have hforEach : played = (Playback.endingAfter (f.showAll visits start).1 shown.length halt?,
      p'.resetSlot.visited, p'.resetSlot.session) := by
    rw [Nat.zero_add] at hplayed
    have hreader : (tape.setReader (ReadingClient.ofFunction? decode?)).reader =
        ReadingClient.ofFunction? decode? := rfl
    have hviews : (tape.setReader (ReadingClient.ofFunction? decode?)).views s.store =
        tape.views s.store := rfl
    simp only [played, Tape.forEach, hreader, hviews, hplayed]
  refine ⟨shown, halt?, visits, hreads, ?_, hvisits, ?_⟩
  · rw [hforEach]
  · rw [hforEach]
    exact hshown

/-- Playing a tape visits what its segments are read as, and ends as the reading does, if the
visitor never gives up. -/
theorem forEach_reads (tape : Tape σ) (v : Vocabulary C)
    (decode? : Option (Bytes → Tag → Decoding)) {f : Visitor σ γ}
    (hf : ∀ view s state, (f view s state).1 = .ok ()) (start : γ) (s : Session σ) :
    let played := (tape.setReader (ReadingClient.ofFunction? decode?)).forEach v f start s
    ∃ (shown : List View) (halt? : Option (Halt DecodeError)) (visits : List (View × Session σ)),
      ReadsAll v decode? (tape.views s.store) shown halt? ∧
      played.1 = Playback.ending shown.length halt? ∧
      visits.map Prod.fst = shown ∧ played.2.1 = f.after visits start := by
  intro played
  obtain ⟨shown, halt?, visits, hreads, houtcome, hvisits, hshown⟩ :=
    tape.forEach_shows v decode? f start s
  rw [Visitor.showAll_of_total hf] at houtcome hshown
  exact ⟨shown, halt?, visits, hreads, houtcome, hvisits, hshown⟩

end Tape

/-! ## What was recorded -/

namespace Recorded

/-- The consumer knows the item's kind, and makes the item of its blob, if it is encoded. -/
def LegibleBy (v : Vocabulary C) (decode? : Option (Bytes → Tag → Decoding)) (r : Recorded) :
    Prop :=
  v.kind? r.item.kind.tag = some r.item.kind ∧
    match r with
    | inline _ _ => True
    | encoded item blob _ _ =>
      ∃ decode, decode? = some decode ∧ (decode blob item.kind.tag).result = .ok (some item)

variable {v : Vocabulary C} {decode? : Option (Bytes → Tag → Decoding)}

/-- A record starts with a header that a consumer understands if it knows the item's kind. -/
theorem startsWith {r : Recorded} (h : v.kind? r.item.kind.tag = some r.item.kind) :
    StartsWith v r.bytes r.item.kind.tag r.item.kind := by
  obtain ⟨more, hcons⟩ := r.exists_bytes_eq_cons
  refine ⟨r.headerSize_le_length_bytes, ?_, h⟩
  rw [hcons]
  rfl

/-- A record can be played by a consumer that knows its item. -/
theorem LegibleBy.legible {r : Recorded} (h : r.LegibleBy v decode?) (location : Location) :
    ∃ view, Legible v decode? location r.bytes view ∧ view.Shows r.item := by
  obtain ⟨hkind, hdecodes⟩ := h
  have hstart := startsWith hkind
  cases r with
  | inline item hinline =>
    have hheader : Layout.headerSize ≤ (Record.inline item).length := hstart.header_le
    have hview : View.ofRecord (Record.inline item) [] location =
        .ok (View.ofItem item location) := by
      rw [View.ofRecord, dif_pos hheader, View.ofItem]
      simp only [item.owned_eq_nil hinline]
    exact ⟨_, .inline hstart hinline (Record.length_inline item) hview, View.shows_ofItem item _⟩
  | encoded item blob hinline hlen =>
    obtain ⟨decode, hdecode, hresult⟩ := hdecodes
    have hblob := Record.blob_encoded item.kind.tag hlen
    refine ⟨_, .encoded hstart hinline hdecode ?_ ?_ ?_ rfl, Decoding.shows_viewOf _ _ item⟩
    · rw [bytes, Record.blobLength_encoded _ hlen, Record.length_encoded]
    · rw [bytes, hblob, Record.blobChecksum_encoded]
    · rw [bytes, hblob]
      exact hresult

/-- Records that a consumer knows the items of are read as these. -/
theorem sentence {records : List Recorded} (h : ∀ r ∈ records, r.LegibleBy v decode?)
    (segment : SegmentId) (offset : Nat) :
    ∃ views, Sentence v decode? segment offset (records.map bytes) views ∧
      List.Forall₂ (fun r view => View.Shows view r.item) records views := by
  induction records generalizing offset with
  | nil => exact ⟨[], .nil offset, .nil⟩
  | cons r records ih =>
    obtain ⟨views, hviews, hshow⟩ :=
      ih (fun other hmem => h other (List.mem_cons_of_mem _ hmem)) (offset + r.bytes.length)
    obtain ⟨view, hlegible, hshows⟩ := (h r List.mem_cons_self).legible ⟨segment, offset⟩
    exact ⟨_, .cons hlegible hviews, .cons hshows hshow⟩

end Recorded

/-- Chapters are read as the items of their records, to the end. -/
theorem Chapter.readsAll {v : Vocabulary C} {decode? : Option (Bytes → Tag → Decoding)}
    {store : Store} {chapters : List Chapter}
    (hlies : ∀ chapter ∈ chapters, chapter.LiesIn store)
    (h : ∀ r ∈ chapters.flatMap records, r.LegibleBy v decode?) :
    ∃ shown, ReadsAll v decode? (chapters.map (view store)) shown none ∧
      List.Forall₂ (fun r view => View.Shows view r.item) (chapters.flatMap records) shown := by
  induction chapters with
  | nil => exact ⟨[], .nil, .nil⟩
  | cons chapter rest ih =>
    rw [List.flatMap_cons] at h ⊢
    obtain ⟨shown, hrest, hshown⟩ :=
      ih (fun other hmem => hlies other (List.mem_cons_of_mem _ hmem))
        (fun r hmem => h r (List.mem_append_right _ hmem))
    obtain ⟨views, hviews, hshow⟩ :=
      Recorded.sentence (fun r hmem => h r (List.mem_append_left _ hmem)) chapter.segment.id 0
    have hdata : (chapter.view store).data.toList =
        (chapter.records.map Recorded.bytes).flatten ++ [] := by
      rw [(hlies chapter List.mem_cons_self).toList_view, List.append_nil, ← List.flatMap_def]
      rfl
    exact ⟨views ++ shown, .cons ⟨hviews, [], hdata, .finished⟩ hrest,
      List.rel_append hshow hshown⟩

end CommandTape
