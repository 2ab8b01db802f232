import CommandTape.Proofs.Contents
import CommandTape.Proofs.Fields
import CommandTape.Tape.Playback
import Mathlib.Data.List.Forall2

/-!
# What playing comes to

A record is read back as it was written (`Frame.read_recorded`), so playing bytes that records
stand in front of visits their items in order and goes on behind them
(`Playback.playRecords_recorded`). Segments that show records play them
(`Playback.playViews_recorded`), up to bytes that cannot be read (`Tape.forEach_stopped`).
-/

namespace CommandTape

variable {σ γ C : Type}

/-! ## Reading records back -/

/-- The client makes the item of the blob, and leaves it in the slot that it is given. -/
def ReadingClient.Restores (client : ReadingClient σ) (blob : Bytes) (item : Item) : Prop :=
  ∀ (location : Location) (state : σ) (slot : Slot), slot.isEmpty = true →
    ∃ next gone, (client.decode blob item.kind.tag location state).1.runOn slot =
      (.ok (), next, gone) ∧ next.Shows item

namespace Recorded

/-- What the record is read as. -/
def frame (location : Location) : Recorded → Frame
  | inline item _ => ⟨location, .inline (View.ofItem item location)⟩
  | encoded item blob _ _ => ⟨location, .encoded item.kind.tag blob⟩

/-- The consumer knows the item's kind, and there is a client that makes the item of its blob, if it
is encoded. -/
def PlayableBy (v : Vocabulary C) (reader? : Option (ReadingClient σ)) (r : Recorded) : Prop :=
  v.kind? r.item.kind.tag = some r.item.kind ∧
    match r with
    | inline _ _ => True
    | encoded item blob _ _ => ∃ client, reader? = some client ∧ client.Restores blob item

theorem size_frame (r : Recorded) (location : Location) :
    (r.frame location).size = r.bytes.length := by
  cases r with
  | inline item h => rfl
  | encoded item blob h hlen => exact (Record.length_encoded _ _).symm

/-- A record starts with the tag of its item. -/
theorem exists_bytes_eq_cons (r : Recorded) : ∃ more, r.bytes = r.item.kind.tag :: more := by
  cases r with
  | inline item h => exact ⟨_, rfl⟩
  | encoded item blob h hlen => exact ⟨_, rfl⟩

end Recorded

namespace Frame

/-- An inline record is read from the front of what starts with it. -/
theorem readInline_recorded (location : Location) {rest : Extent} {item : Item} {tail : Bytes}
    (hrest : rest.toList = Record.inline item ++ tail) (hinline : item.kind.isInline = true) :
    readInline location item.kind.recordSize rest = .ok (View.ofItem item location) := by
  have hsize := Record.length_inline item
  have hheader := item.kind.headerSize_le_recordSize
  have hlength : item.kind.recordSize ≤ rest.length := by
    rw [← rest.length_toList, hrest, List.length_append, hsize]
    exact Nat.le_add_right _ _
  have hview : View.ofRecord (Record.inline item) [] location =
      .ok (View.ofItem item location) := by
    rw [View.ofRecord, dif_pos (by omega), View.ofItem]
    simp only [item.owned_eq_nil hinline]
  rw [readInline_of_le hlength, hrest, List.take_left' hsize, hview, Outcome.ofFaulty_ok]

/-- The blob of an encoded record is read from the front of what starts with the record. -/
theorem readBlob_recorded {rest : Extent} {tag : Tag} {blob tail : Bytes}
    (hrest : rest.toList = Record.encoded tag blob ++ tail)
    (hlen : blob.length < Layout.blobLimit) :
    readBlob rest = .ok blob := by
  have hsize := Record.length_encoded tag blob
  have hoffset : Layout.blobOffset ≤ (Record.encoded tag blob).length :=
    hsize ▸ Nat.le_add_right _ _
  have hlength : Record.blobLength rest.toList = blob.length := by
    rw [hrest, Record.blobLength_append tail hoffset, Record.blobLength_encoded tag hlen]
  have hchecksum : Record.blobChecksum rest.toList = (Checksum.crc32 blob).toNat := by
    rw [hrest, Record.blobChecksum_append tail hoffset, Record.blobChecksum_encoded]
  have hblob : Record.blob rest.toList = blob := by
    have hfits : Layout.encodedSize (Record.blobLength (Record.encoded tag blob)) ≤
        (Record.encoded tag blob).length := by
      rw [Record.blobLength_encoded tag hlen]
      exact Nat.le_of_eq hsize.symm
    rw [hrest, Record.blob_append tail hfits, Record.blob_encoded tag hlen]
  have hend : Layout.encodedSize (Record.blobLength rest.toList) ≤ rest.length := by
    rw [hlength, ← hsize, ← rest.length_toList, hrest, List.length_append]
    exact Nat.le_add_right _ _
  rw [readBlob_of_le hend, hblob, hchecksum, if_neg (not_not_intro rfl)]

/-- A record is read back from the front of what starts with it. -/
theorem read_recorded {v : Vocabulary C} {hasClient : Bool} {location : Location} {rest : Extent}
    {r : Recorded} {tail : Bytes} (hrest : rest.toList = r.bytes ++ tail)
    (hkind : v.kind? r.item.kind.tag = some r.item.kind)
    (hclient : r.item.kind.isInline = false → hasClient = true) :
    Frame.read v hasClient location rest = .ok (r.frame location) := by
  obtain ⟨more, hcons⟩ := r.exists_bytes_eq_cons
  have hheader := r.headerSize_le_length_bytes
  have hlength : ¬rest.length < Layout.headerSize := by
    rw [← rest.length_toList, hrest, List.length_append]
    omega
  have htag : rest.read 0 1 = [r.item.kind.tag] := by
    rw [Extent.read_eq, hrest, hcons]
    rfl
  simp only [Frame.read, readBody, hlength, ↓reduceIte, htag, hkind]
  cases r with
  | inline item hinline =>
    have hread := readInline_recorded location hrest hinline
    simp only [Recorded.item, hinline, ↓reduceIte, hread, Except.map, Recorded.frame]
  | encoded item blob hinline hlen =>
    have hread := readBlob_recorded hrest hlen
    simp only [Recorded.item, hinline, Bool.false_eq_true, ↓reduceIte, hclient hinline, hread,
      Except.map, Recorded.frame]

end Frame

/-! ## Visiting -/

/-- What becomes of a visitor's state in the course of visits. -/
def Visitor.after (f : Visitor σ γ) (visits : List (View × Session σ)) (start : γ) : γ :=
  visits.foldl (fun state visit => (f visit.1 visit.2 state).2) start

/-- The visitor takes the items of records one after the other, whatever views show them. -/
def Visitor.Accepts (f : Visitor σ γ) : List Recorded → γ → Prop
  | [], _ => True
  | r :: rest, state => ∀ view s, view.Shows r.item →
      (f view s state).1 = .ok () ∧ f.Accepts rest (f view s state).2

/-- A visitor that never gives up takes all items. -/
theorem Visitor.accepts_of_total {f : Visitor σ γ}
    (hf : ∀ view s state, (f view s state).1 = .ok ()) (records : List Recorded) (state : γ) :
    f.Accepts records state := by
  induction records generalizing state with
  | nil => trivial
  | cons r rest ih =>
    intro view s hshows
    exact ⟨hf view s state, ih _⟩

/-- Each visit is one of a view that shows the item of the record. -/
def Visits (records : List Recorded) (visits : List (View × Session σ)) : Prop :=
  List.Forall₂ (fun r visit => visit.1.Shows r.item) records visits

/-- The client was handed the blobs of the records, one after the other, and nothing else. -/
inductive Handed (reader? : Option (ReadingClient σ)) : List Recorded → σ → σ → Prop
  | nil (state : σ) : Handed reader? [] state state
  | inline {item : Item} {h : item.kind.isInline = true} {records : List Recorded} {state last : σ}
      (hrest : Handed reader? records state last) :
      Handed reader? (.inline item h :: records) state last
  | encoded {client : ReadingClient σ} {item : Item} {blob : Bytes}
      {h : item.kind.isInline = false} {hlen : blob.length < Layout.blobLimit}
      {records : List Recorded} {state last : σ} (hclient : reader? = some client)
      (location : Location)
      (hrest : Handed reader? records (client.decode blob item.kind.tag location state).2 last) :
      Handed reader? (.encoded item blob h hlen :: records) state last

theorem Handed.append {reader? : Option (ReadingClient σ)} {records more : List Recorded}
    {state middle last : σ} (h : Handed reader? records state middle)
    (h' : Handed reader? more middle last) : Handed reader? (records ++ more) state last := by
  induction h with
  | nil => exact h'
  | inline hrest ih => exact .inline (ih h')
  | encoded hclient location hrest ih => exact .encoded hclient location (ih h')

namespace Playback

variable {v : Vocabulary C} {reader? : Option (ReadingClient σ)} {f : Visitor σ γ}

/-- Between two points of a playback the items of the records were visited. -/
structure Played (reader? : Option (ReadingClient σ)) (f : Visitor σ γ) (records : List Recorded)
    (p p' : Playback σ γ) : Prop where
  visited : ∃ visits, Visits records visits ∧ p'.visited = f.after visits p.visited
  handed : Handed reader? records p.session.clients p'.session.clients

theorem Played.nil (p : Playback σ γ) : Played reader? f [] p p :=
  ⟨⟨[], .nil, rfl⟩, .nil _⟩

theorem Played.append {records more : List Recorded} {p q p' : Playback σ γ}
    (h : Played reader? f records p q) (h' : Played reader? f more q p') :
    Played reader? f (records ++ more) p p' := by
  obtain ⟨visits, hvisits, hafter⟩ := h.visited
  obtain ⟨visits', hvisits', hafter'⟩ := h'.visited
  refine ⟨⟨visits ++ visits', List.rel_append hvisits hvisits', ?_⟩, h.handed.append h'.handed⟩
  rw [hafter', hafter, Visitor.after, Visitor.after, Visitor.after, List.foldl_append]

/-- The item of a record is visited. -/
theorem playFrame_recorded {r : Recorded} (hplay : r.PlayableBy v reader?) (location : Location)
    {more : List Recorded} {p : Playback σ γ} (hf : f.Accepts (r :: more) p.visited) :
    ∃ p', p.playFrame reader? f (r.frame location) = (.ok (), p') ∧
      Played reader? f [r] p p' ∧ f.Accepts more p'.visited := by
  cases r with
  | inline item hinline =>
    have hshows := View.shows_ofItem item location
    obtain ⟨hvisit, hmore⟩ := hf (View.ofItem item location) p.session hshows
    refine ⟨{ p with visited := (f (View.ofItem item location) p.session p.visited).2 }, ?_,
      ⟨⟨[(View.ofItem item location, p.session)], .cons hshows .nil, rfl⟩, .inline (.nil _)⟩, hmore⟩
    simp only [Recorded.frame, playFrame, visit, hvisit, Outcome.ofFaulty_ok]
  | encoded item blob hinline hlen =>
    obtain ⟨-, client, rfl, hrestores⟩ := hplay
    obtain ⟨next, gone, hrun, view, hview, hshows⟩ := hrestores location p.resetSlot.session.clients
      { p.resetSlot.slot with location := location } rfl
    have hdecode : p.decode client item.kind.tag blob location =
        (.ok (), { p.resetSlot with
          slot := next
          session := ({ p.resetSlot.session with
            clients := (client.decode blob item.kind.tag location p.resetSlot.session.clients).2 } :
              Session σ).destroy gone }) := by
      simp only [decode, hrun]
    have hvisit (s : Session σ) : (f view s p.resetSlot.visited).1 = .ok () := (hf view s hshows).1
    simp only [Recorded.frame, playFrame, hdecode, visitSlot, hview, hshows.1, ↓reduceIte, visit,
      hvisit]
    exact ⟨_, rfl, ⟨⟨[(view, _)], .cons hshows .nil, rfl⟩, .encoded rfl location (.nil _)⟩,
      (hf view _ hshows).2⟩

/-- Records at the front of what is played are visited in order, and playing goes on behind them. -/
theorem playRecords_recorded (segment : SegmentId) (records more : List Recorded)
    (hplay : ∀ r ∈ records, r.PlayableBy v reader?) (offset count : Nat) (rest : Extent)
    (tail : Bytes) (hrest : rest.toList = Recorded.text records ++ tail)
    (hlimit : offset + rest.length < Word.limit) (p : Playback σ γ)
    (hf : f.Accepts (records ++ more) p.visited) :
    ∃ p', p.playRecords v reader? f segment offset count rest =
        p'.playRecords v reader? f segment (offset + (Recorded.text records).length)
          (count + records.length) (rest.drop (Recorded.text records).length) ∧
      Played reader? f records p p' ∧ f.Accepts more p'.visited := by
  induction records generalizing offset count rest p with
  | nil =>
    have hdrop : rest.drop (Recorded.text []).length = rest := by
      simp [Extent.drop]
    exact ⟨p, by rw [hdrop]; rfl, .nil p, hf⟩
  | cons r records ih =>
    have hplayr := hplay r List.mem_cons_self
    have hlength : r.bytes.length + (Recorded.text records).length ≤ rest.length := by
      rw [← rest.length_toList, hrest, Recorded.text_cons, List.length_append, List.length_append]
      omega
    have hheader := r.headerSize_le_length_bytes
    have hpos : 0 < Layout.headerSize := by decide
    have hne : ¬rest.length = 0 := by omega
    have hclient : r.item.kind.isInline = false → reader?.isSome = true := by
      intro hinline
      cases r with
      | inline item h => exact absurd (h.symm.trans hinline) (by simp)
      | encoded item blob h hlen =>
        obtain ⟨-, client, hreader, -⟩ := hplayr
        rw [hreader]
        rfl
    have hread : Frame.read v reader?.isSome ⟨segment, offset⟩ rest =
        .ok (r.frame ⟨segment, offset⟩) := by
      rw [Recorded.text_cons, List.append_assoc] at hrest
      exact Frame.read_recorded hrest hplayr.1 hclient
    obtain ⟨q, hframe, hfirst, hnextf⟩ := playFrame_recorded hplayr ⟨segment, offset⟩ hf
    have hadd : Word.add offset r.bytes.length = .ok (offset + r.bytes.length) :=
      Word.add_of_lt (by omega)
    have hnext : (rest.drop r.bytes.length).toList = Recorded.text records ++ tail := by
      rw [Extent.toList_drop, hrest, Recorded.text_cons, List.append_assoc, List.drop_left]
    have hnextlimit : offset + r.bytes.length + (rest.drop r.bytes.length).length < Word.limit := by
      rw [Extent.length_drop]
      omega
    obtain ⟨p', hplayed, hlater, hmore⟩ :=
      ih (fun other hmem => hplay other (List.mem_cons_of_mem _ hmem)) (offset + r.bytes.length)
        (count + 1) (rest.drop r.bytes.length) hnext hnextlimit q hnextf
    have hdrop : (rest.drop r.bytes.length).drop (Recorded.text records).length =
        rest.drop (Recorded.text (r :: records)).length := by
      rw [Recorded.text_cons, List.length_append]
      simp only [Extent.drop, Extent.mk.injEq, true_and]
      omega
    refine ⟨p', ?_, hfirst.append hlater, hmore⟩
    rw [playRecords, if_neg hne, hread]
    simp only [hframe, r.size_frame, hadd, hplayed, hdrop]
    rw [Recorded.text_cons, List.length_append, List.length_cons, Nat.add_assoc, Nat.add_assoc,
      Nat.add_comm 1]

/-- Records at the front of a segment are visited, and playing goes on behind them. -/
theorem playSegment_recorded (segment : SegmentId) {data : Extent} {records : List Recorded}
    {tail : Bytes} (hdata : data.toList = Recorded.text records ++ tail) (more : List Recorded)
    (hplay : ∀ r ∈ records, r.PlayableBy v reader?) (p : Playback σ γ)
    (hf : f.Accepts (records ++ more) p.visited) :
    ∃ p', p.playSegment v reader? f segment data =
        p'.playRecords v reader? f segment (Recorded.text records).length records.length
          (data.drop (Recorded.text records).length) ∧
      Played reader? f records p p' ∧ f.Accepts more p'.visited := by
  have hstop := data.stop_le
  have hblock := Nat.lt_trans data.block.size_lt Word.memoryLimit_lt
  have hlimit : 0 + data.length < Word.limit := by omega
  obtain ⟨p', hplayed, hrecords, hmore⟩ :=
    playRecords_recorded segment records more hplay 0 0 data tail hdata hlimit p hf
  rw [Nat.zero_add, Nat.zero_add] at hplayed
  exact ⟨p', hplayed, hrecords, hmore⟩

/-- Segments that show records play them, and playing goes on with the segments behind them. -/
theorem playViews_recorded {views : List SegmentView} {parts : List (List Recorded)}
    (hdata : views.map (fun view => view.data.toList) = parts.map Recorded.text)
    (behind : List SegmentView) (more : List Recorded)
    (hplay : ∀ r ∈ parts.flatten, r.PlayableBy v reader?) (count : Nat) (p : Playback σ γ)
    (hf : f.Accepts (parts.flatten ++ more) p.visited) :
    ∃ p', p.playViews v reader? f (views ++ behind) count =
        p'.playViews v reader? f behind (count + parts.flatten.length) ∧
      Played reader? f parts.flatten p p' ∧ f.Accepts more p'.visited := by
  induction views generalizing parts count p with
  | nil =>
    obtain rfl : parts = [] := List.map_eq_nil_iff.1 hdata.symm
    exact ⟨p, rfl, .nil p, hf⟩
  | cons view rest ih =>
    cases parts with
    | nil => exact absurd hdata (by simp)
    | cons records parts =>
      rw [List.flatten_cons] at hplay hf ⊢
      have hfirst : view.data.toList = Recorded.text records ++ [] :=
        (List.cons.inj hdata).1.trans (List.append_nil _).symm
      rw [List.append_assoc] at hf
      obtain ⟨q, hsegment, hrecords, hmore⟩ :=
        playSegment_recorded view.id hfirst (parts.flatten ++ more)
          (fun r hmem => hplay r (List.mem_append_left _ hmem)) p hf
      have hdone : (view.data.drop (Recorded.text records).length).length = 0 := by
        rw [Extent.length_drop, ← List.append_nil (Recorded.text records), ← hfirst,
          Extent.length_toList, Nat.sub_self]
      rw [playRecords, if_pos hdone] at hsegment
      obtain ⟨p', hplayed, hlater, haccepts⟩ :=
        ih (List.cons.inj hdata).2 (fun r hmem => hplay r (List.mem_append_right _ hmem))
          (count + records.length) q hmore
      refine ⟨p', ?_, hrecords.append hlater, haccepts⟩
      rw [List.cons_append, playViews, hsegment]
      dsimp only
      rw [hplayed, List.length_append, Nat.add_assoc]

end Playback

namespace Tape

variable {tape : Tape σ} {s : Session σ} {v : Vocabulary C} {f : Visitor σ γ}

/-- Playing visits the items of the records, hands the client their blobs and nothing else, and ends
well. -/
structure PlaysThrough (tape : Tape σ) (v : Vocabulary C) (f : Visitor σ γ) (start : γ)
    (s : Session σ) (records : List Recorded) : Prop where
  outcome : (tape.forEach v f start s).1 = .ok records.length
  visited : ∃ visits, Visits records visits ∧ (tape.forEach v f start s).2.1 = f.after visits start
  handed : Handed tape.reader records s.clients (tape.forEach v f start s).2.2.clients

/-- A tape whose segments show records plays them. -/
theorem playsThrough {parts : List (List Recorded)}
    (hdata : (tape.views s.store).map (fun view => view.data.toList) = parts.map Recorded.text)
    (hplay : ∀ r ∈ parts.flatten, r.PlayableBy v tape.reader) {start : γ}
    (hf : f.Accepts parts.flatten start) : tape.PlaysThrough v f start s parts.flatten := by
  obtain ⟨p', hplayed, hrecords, -⟩ :=
    Playback.playViews_recorded hdata [] [] hplay 0 ⟨s, .empty, start⟩ (by rwa [List.append_nil])
  rw [List.append_nil, Nat.zero_add] at hplayed
  have hforEach : tape.forEach v f start s =
      (.ok parts.flatten.length, p'.resetSlot.visited, p'.resetSlot.session) := by
    simp only [forEach, hplayed, Playback.playViews]
  constructor
  · rw [hforEach]
  · rw [hforEach]
    exact hrecords.visited
  · rw [hforEach]
    exact hrecords.handed

/-- A tape that shows chapters plays their records. -/
theorem forEach_chapters {chapters : List Chapter}
    (hviews : tape.views s.store = chapters.map (Chapter.view s.store))
    (hlies : ∀ chapter ∈ chapters, chapter.LiesIn s.store)
    (hplay : ∀ r ∈ chapters.flatMap Chapter.records, r.PlayableBy v tape.reader) {start : γ}
    (hf : f.Accepts (chapters.flatMap Chapter.records) start) :
    ∃ visits : List (View × Session σ),
      (tape.forEach v f start s).1 = .ok (chapters.flatMap Chapter.records).length ∧
      (tape.forEach v f start s).2.1 = f.after visits start ∧
      Visits (chapters.flatMap Chapter.records) visits := by
  have hdata : (tape.views s.store).map (fun view => view.data.toList) =
      (chapters.map Chapter.records).map Recorded.text := by
    rw [hviews, List.map_map, List.map_map]
    exact List.map_congr_left fun chapter hmem => (hlies chapter hmem).toList_view
  rw [List.flatMap_def] at hplay hf ⊢
  have hplays := playsThrough hdata hplay hf
  obtain ⟨visits, hvisits, hafter⟩ := hplays.visited
  exact ⟨visits, hplays.outcome, hafter, hvisits⟩

/-- Playing visits the items of the records, hands the client their blobs and nothing else, and ends
for the reason. -/
structure EndsAfter (tape : Tape σ) (v : Vocabulary C) (f : Visitor σ γ) (start : γ) (s : Session σ)
    (records : List Recorded) (reason : DecodeError) : Prop where
  outcome : (tape.forEach v f start s).1 = .error (.failed reason)
  visited : ∃ visits, Visits records visits ∧ (tape.forEach v f start s).2.1 = f.after visits start
  handed : Handed tape.reader records s.clients (tape.forEach v f start s).2.2.clients

/-- Playing goes up to bytes that cannot be read, and ends for the reason that these give. -/
theorem forEach_stopped {front behind : List SegmentView} {view : SegmentView}
    (hviews : tape.views s.store = front ++ view :: behind) {parts : List (List Recorded)}
    (hfront : front.map (fun view => view.data.toList) = parts.map Recorded.text)
    {records : List Recorded} {left : Bytes} (hleft : left ≠ [])
    (hdata : view.data.toList = Recorded.text records ++ left)
    (hplay : ∀ r ∈ parts.flatten ++ records, r.PlayableBy v tape.reader) {start : γ}
    (hf : f.Accepts (parts.flatten ++ records) start) {reason : DecodeError}
    (hread : ∀ location rest, rest.toList = left →
      Frame.read v tape.reader.isSome location rest = .error (.failed reason)) :
    tape.EndsAfter v f start s (parts.flatten ++ records) reason := by
  obtain ⟨q, hbefore, hparts, hmore⟩ :=
    Playback.playViews_recorded hfront (view :: behind) records
      (fun r hmem => hplay r (List.mem_append_left _ hmem)) 0 ⟨s, .empty, start⟩ hf
  obtain ⟨p', hsegment, hrecords, -⟩ :=
    Playback.playSegment_recorded view.id hdata []
      (fun r hmem => hplay r (List.mem_append_right _ hmem)) q (by rwa [List.append_nil])
  have hrest : (view.data.drop (Recorded.text records).length).toList = left := by
    rw [Extent.toList_drop, hdata, List.drop_left]
  have hne : ¬(view.data.drop (Recorded.text records).length).length = 0 := by
    rw [← Extent.length_toList, hrest]
    exact fun h => hleft (List.eq_nil_of_length_eq_zero h)
  rw [Playback.playRecords, if_neg hne, hread _ _ hrest] at hsegment
  have hforEach : tape.forEach v f start s = (.error (.failed reason), p'.resetSlot.visited,
      (p'.session.note (.stopped view.id (0 + parts.flatten.length) reason)).destroy
        p'.slot.reset.2) := by
    simp only [forEach, hviews, hbefore, Playback.playViews, hsegment]
    rfl
  have hplayed := hparts.append hrecords
  constructor
  · rw [hforEach]
  · rw [hforEach]
    exact hplayed.visited
  · rw [hforEach]
    exact hplayed.handed

end Tape

end CommandTape
