import CommandTape.Proofs.Steps
import Mathlib.Data.List.Forall2

/-!
# Where records were written

A spot is the place that the record of an item was written to, of an item that is left to destroy.
The tape remembers such items by the place that their segment will have among those that are only
read, however the segments are named; what it remembers leads back to the spots, in order, at any
time (`Tape.Has.finds`). Segments that were handed off to the tape lie elsewhere, and nothing is
written to them (`TapeState.extends_run`).
-/

namespace CommandTape

variable {σ : Type}

/-! ## Spots -/

/-- The memory of the segment that an item was written to, and the distance of its record from the
segment's start. -/
structure Spot where
  id : SegmentId
  mapping : Mapping
  offset : Nat
  item : Item

namespace Recorded

/-- The spot of the record in a segment, if its item is left to destroy. -/
def spots (id : SegmentId) (mapping : Mapping) (offset : Nat) : Recorded → List Spot
  | inline item _ => if item.kind.needsDrop then [⟨id, mapping, offset, item⟩] else []
  | encoded _ _ _ _ => []

/-- The spots of records that lie in one segment from `offset` on. -/
def spotsFrom (id : SegmentId) (mapping : Mapping) : (offset : Nat) → List Recorded → List Spot
  | _, [] => []
  | offset, r :: rest => r.spots id mapping offset ++
      spotsFrom id mapping (offset + r.bytes.length) rest

variable {id : SegmentId} {mapping : Mapping}

theorem map_item_spots (offset : Nat) (r : Recorded) :
    (r.spots id mapping offset).map Spot.item = r.owed := by
  cases r with
  | inline item h =>
    rw [spots, owed, Item.remains]
    split <;> rfl
  | encoded item blob h hlen => rfl

theorem map_item_spotsFrom (offset : Nat) (records : List Recorded) :
    (spotsFrom id mapping offset records).map Spot.item = records.flatMap owed := by
  induction records generalizing offset with
  | nil => rfl
  | cons r records ih =>
    rw [spotsFrom, List.map_append, map_item_spots, ih, List.flatMap_cons]

theorem spotsFrom_concat (offset : Nat) (records : List Recorded) (r : Recorded) :
    spotsFrom id mapping offset (records ++ [r]) =
      spotsFrom id mapping offset records ++
        r.spots id mapping (offset + (text records).length) := by
  induction records generalizing offset with
  | nil => simp [spotsFrom]
  | cons r' records ih =>
    rw [List.cons_append, spotsFrom, spotsFrom, ih, text_cons, List.length_append,
      List.append_assoc, Nat.add_assoc]

/-- Spots are in the segment of their records. -/
theorem mapping_of_mem_spotsFrom {offset : Nat} {records : List Recorded} {spot : Spot}
    (hmem : spot ∈ spotsFrom id mapping offset records) : spot.mapping = mapping := by
  induction records generalizing offset with
  | nil => exact absurd hmem List.not_mem_nil
  | cons r rest ih =>
    rcases List.mem_append.1 hmem with hfirst | hrest
    · cases r with
      | inline item hinline =>
        rw [spots] at hfirst
        split at hfirst
        · rw [List.mem_singleton.1 hfirst]
        · exact absurd hfirst List.not_mem_nil
      | encoded item blob hinline hlen => exact absurd hfirst List.not_mem_nil
    · exact ih hrest

end Recorded

/-- The spots of a chapter's records. -/
def Chapter.spots (chapter : Chapter) : List Spot :=
  Recorded.spotsFrom chapter.segment.id chapter.segment.mapping 0 chapter.records

namespace Contents

/-- The spots of all records. -/
def spots (c : Contents) : List Spot := c.chapters.flatMap Chapter.spots

theorem map_item_spots (c : Contents) :
    c.spots.map Spot.item = c.records.flatMap Recorded.owed := by
  rw [spots, records, List.map_flatMap, List.flatMap_assoc]
  congr 1
  funext chapter
  exact Recorded.map_item_spotsFrom 0 chapter.records

theorem spots_write {c : Contents} {chapter : Chapter} (h : c.current = some chapter)
    (r : Recorded) :
    (c.write r).spots = c.spots ++
      r.spots chapter.segment.id chapter.segment.mapping chapter.text.length := by
  simp only [spots, chapters, write, h, Option.map_some, Option.toList_some, List.flatMap_append,
    List.flatMap_singleton, Chapter.spots, Chapter.write, Recorded.spotsFrom_concat, Nat.zero_add,
    List.append_assoc, Chapter.text]

/-- Turning to a new segment leaves every record where it is. -/
theorem spots_turn (c : Contents) (segment : Segment) : (c.turn segment).spots = c.spots := by
  cases hc : c.current with
  | none => simp [spots, chapters, turn, left, hc, Chapter.spots, Recorded.spotsFrom]
  | some chapter =>
    by_cases hempty : chapter.records = []
    · simp [spots, chapters, turn, left, hc, hempty, Chapter.spots, Recorded.spotsFrom]
    · simp [spots, chapters, turn, left, hc, hempty, Chapter.spots, Recorded.spotsFrom,
        Chapter.close, Segment.cut]

/-- The full chapters share no block with the segments that were handed off. -/
def Apart (c : Contents) : Prop :=
  ∀ segment ∈ c.given, ∀ chapter ∈ c.full,
    segment.mapping.block ≠ chapter.segment.mapping.block

end Contents

namespace Tape

variable {tape : Tape σ} {store : Store} {c : Contents}

/-- Where recording an item puts it: in the segment that is written to then, in front of the end of
what was written. -/
def spots (tape : Tape σ) (item : Item) (s : Session σ) : List Spot :=
  let next := (tape.tryAppend item s).2.1
  (tape.recorded item s).flatMap fun r =>
    next.writable.toList.flatMap fun segment =>
      r.spots segment.id segment.mapping (next.written - r.bytes.length)

/-- The current chapter shares no block with the segments that were handed off. -/
theorem Has.apart_current (h : tape.Has store c) {chapter : Chapter} (hc : c.current = some chapter)
    {segment : Segment} (hmem : segment ∈ c.given) :
    segment.mapping.block ≠ chapter.segment.mapping.block := by
  refine h.apart chapter hc segment ?_
  rw [h.frozen]
  exact List.mem_append_left _ hmem

theorem Has.apart_turn (h : tape.Has store c) (hapart : c.Apart) (segment : Segment) :
    (c.turn segment).Apart := by
  intro given hgiven chapter hmem
  rcases List.mem_append.1 hmem with hfull | hcurrent
  · exact hapart given hgiven chapter hfull
  · obtain ⟨last, hlast, rfl⟩ := List.mem_map.1 hcurrent
    exact h.apart_current (Option.mem_toList.1 (List.mem_filter.1 hlast).1) hgiven

/-- The tape's own chapters share no block with the segments that were handed off. -/
theorem Has.apart_chapters (h : tape.Has store c) (hapart : c.Apart) {segment : Segment}
    (hmem : segment ∈ c.given) {chapter : Chapter} (hchapter : chapter ∈ c.chapters) :
    segment.mapping.block ≠ chapter.segment.mapping.block := by
  rcases List.mem_append.1 hchapter with hfull | hcurrent
  · exact hapart segment hmem chapter hfull
  · exact h.apart_current (Option.mem_toList.1 hcurrent) hmem

/-- What is remembered leads to the spot: the tape finds the memory that the item was written to, it
may write to it, and the item is there. -/
structure Finds (tape : Tape σ) (store : Store) (spot : Spot) (p : Pending) : Prop where
  kind_eq : p.kind = spot.item.kind
  location_eq : p.location = ⟨spot.id, spot.offset⟩
  holder : ∃ segment, tape.holder? p = some segment ∧ segment.id = spot.id ∧
    segment.mapping = spot.mapping
  writable : spot.mapping.writable = true
  read_eq : Item.read spot.item.kind (store.read spot.mapping.block
    (spot.offset + Layout.headerSize) spot.item.kind.size) [] = spot.item

/-- What is remembered of the last records of a chapter leads to their spots. -/
theorem finds_records {s : Session σ} {chapter : Chapter} {index : Nat}
    (hlies : chapter.LiesIn s.store)
    (hholder : ∀ location kind, tape.holder? ⟨location, index, kind⟩ = some chapter.segment)
    (before after : List Recorded) (hrecords : chapter.records = before ++ after) :
    List.Forall₂ (tape.Finds s.store)
      (Recorded.spotsFrom chapter.segment.id chapter.segment.mapping (Recorded.text before).length
        after)
      (Recorded.remember chapter.segment.id index (Recorded.text before).length after) := by
  induction after generalizing before with
  | nil => exact .nil
  | cons r after ih =>
    have hnext : chapter.records = (before ++ [r]) ++ after := by
      rw [hrecords, List.append_assoc, List.singleton_append]
    have hoffset : (Recorded.text (before ++ [r])).length =
        (Recorded.text before).length + r.bytes.length := by
      rw [Recorded.text_concat, List.length_append]
    rw [Recorded.spotsFrom, Recorded.remember, ← hoffset]
    refine List.rel_append ?_ (ih _ hnext)
    cases r with
    | inline item hinline =>
      rw [Recorded.spots, Recorded.pending]
      split
      · refine .cons ⟨rfl, rfl, ⟨chapter.segment, hholder _ _, rfl, rfl⟩, ?_, ?_⟩ .nil
        · exact hlies.writable (by rw [hrecords]; simp)
        · exact read_item hlies hinline hrecords
      · exact .nil
    | encoded item blob hinline hlen => exact .nil

/-- What is remembered of chapters leads to the spots of their records. -/
theorem finds_chapters {s : Session σ} {index : Nat} {chapters : List Chapter}
    (h : ∀ i chapter, chapters[i]? = some chapter → chapter.LiesIn s.store ∧
      ∀ location kind, tape.holder? ⟨location, index + i, kind⟩ = some chapter.segment) :
    List.Forall₂ (tape.Finds s.store) (chapters.flatMap Chapter.spots)
      (Chapter.remember index chapters) := by
  induction chapters generalizing index with
  | nil => exact .nil
  | cons chapter rest ih =>
    obtain ⟨hlies, hholder⟩ := h 0 chapter rfl
    have hrest : ∀ i other, rest[i]? = some other → other.LiesIn s.store ∧
        ∀ location kind, tape.holder? ⟨location, index + 1 + i, kind⟩ = some other.segment := by
      intro i other hget
      rw [Nat.add_assoc, Nat.add_comm 1 i]
      exact h (i + 1) other hget
    rw [List.flatMap_cons, Chapter.remember]
    exact List.rel_append (finds_records hlies hholder [] chapter.records rfl) (ih hrest)

/-- What a tape remembers leads to the spots of its records, in order. -/
theorem Has.finds {s : Session σ} (h : tape.Has s.store c) :
    List.Forall₂ (tape.Finds s.store) c.spots tape.pending.toList := by
  rw [h.pending, Contents.pending, Contents.spots]
  refine finds_chapters ?_
  intro i chapter hget
  exact ⟨h.chapters chapter (List.mem_of_getElem? hget), h.holder_eq hget⟩

end Tape

/-! ## In the course of steps -/

/-- What the step makes of the spots that there are. -/
def Step.spots (d : TapeState σ) (spots : List Spot) : Step σ → List Spot
  | tryAppend item => spots ++ d.tape.spots item d.session
  | append item => spots ++ d.tape.spots item d.session
  | clear => []
  | _ => spots

/-- The spots of what was recorded in the course of steps, and not cleared since, behind those that
there were before. -/
def TapeState.spots (d : TapeState σ) (before : List Spot) : List (Step σ) → List Spot
  | [] => before
  | step :: rest => (step.perform d).spots (step.spots d before) rest

/-- The tape has the contents, records and spots behind the segments that were handed off, which lie
elsewhere and are in memory as they were in a store before. -/
structure TapeState.Extends (d : TapeState σ) (store : Store) (given : List Segment)
    (records : List Recorded) (spots : List Spot) (c : Contents) : Prop where
  has : d.tape.Has d.session.store c
  given_eq : c.given = given
  records_eq : c.records = records
  spots_eq : c.spots = spots
  apart : c.Apart
  block_eq : ∀ segment ∈ given,
    d.session.store.block segment.mapping.block = store.block segment.mapping.block

namespace TapeState.Extends

variable {d : TapeState σ} {store : Store} {given : List Segment} {records : List Recorded}
  {spots : List Spot} {c : Contents}

/-- A tape over segments has nothing behind them. -/
theorem ofSegments {s : Session σ} {segments : List Segment}
    (h : ∀ segment ∈ segments, segment.LiesIn s.store) :
    TapeState.Extends ⟨.ofSegments segments, s⟩ s.store segments [] [] ⟨segments, [], none⟩ :=
  ⟨Tape.has_ofSegments h, rfl, rfl, rfl, fun _ _ _ hmem => absurd hmem List.not_mem_nil,
    fun _ _ => rfl⟩

/-- The segments that were handed off lie in memory. -/
theorem block_lt (h : d.Extends store given records spots c) {segment : Segment}
    (hmem : segment ∈ given) : segment.mapping.block < d.session.store.next :=
  (h.has.given segment (h.given_eq ▸ hmem)).block_lt

theorem block_eq_of_keptIn (h : d.Extends store given records spots c) {after : Store}
    (hkept : d.session.store.KeptIn after) :
    ∀ segment ∈ given, after.block segment.mapping.block = store.block segment.mapping.block := by
  intro segment hmem
  rw [hkept.block_eq (h.block_lt hmem)]
  exact h.block_eq segment hmem

theorem of_keptIn (h : d.Extends store given records spots c) {s : Session σ}
    (hkept : d.session.store.KeptIn s.store) :
    TapeState.Extends ⟨d.tape, s⟩ store given records spots c :=
  ⟨h.has.mono hkept, h.given_eq, h.records_eq, h.spots_eq, h.apart, h.block_eq_of_keptIn hkept⟩

theorem of_store_eq (h : d.Extends store given records spots c) {s : Session σ}
    (hstore : s.store = d.session.store) :
    TapeState.Extends ⟨d.tape, s⟩ store given records spots c := by
  refine h.of_keptIn ?_
  rw [hstore]
  exact .refl _

theorem of_tape (h : d.Extends store given records spots c) {next : Tape σ}
    (hfrozen : next.frozen = d.tape.frozen) (hwritable : next.writable = d.tape.writable)
    (hwritten : next.written = d.tape.written) (hpending : next.pending = d.tape.pending) :
    TapeState.Extends ⟨next, d.session⟩ store given records spots c :=
  ⟨h.has.of_eq hfrozen hwritable hwritten hpending, h.given_eq, h.records_eq, h.spots_eq, h.apart,
    h.block_eq⟩

/-- Recording an item adds the record and the spot that the outcome tells of. -/
theorem tryAppend (h : d.Extends store given records spots c) (item : Item) :
    ∃ c', (TapeState.ofResult (d.tape.tryAppend item d.session)).Extends store given
      (records ++ d.tape.recorded item d.session) (spots ++ d.tape.spots item d.session) c' := by
  have hturned : ∀ c', (c' = c ∨ ∃ segment, c' = c.turn segment) →
      c'.given = given ∧ c'.records = records ∧ c'.spots = spots ∧ c'.Apart := by
    rintro c' (rfl | ⟨segment, rfl⟩)
    · exact ⟨h.given_eq, h.records_eq, h.spots_eq, h.apart⟩
    · refine ⟨h.given_eq, ?_, ?_, h.has.apart_turn h.apart segment⟩
      · rw [c.records_turn segment, h.records_eq]
      · rw [c.spots_turn segment, h.spots_eq]
  have happended := h.has.tryAppend item
  unfold Tape.spots Tape.recorded
  generalize d.tape.tryAppend item d.session = result at happended
  cases happended with
  | refused h' s' hkept hgone =>
    refine ⟨c, ?_⟩
    rw [List.flatMap_nil, List.append_nil, List.append_nil]
    exact h.of_keptIn hkept
  | readOnly next s' segment hreadOnly hkept hsame hnext hgone =>
    obtain ⟨hgiven, hrecords, hspots, hapart⟩ := hturned (c.turn segment) (Or.inr ⟨segment, rfl⟩)
    refine ⟨c.turn segment, ?_⟩
    rw [List.flatMap_nil, List.append_nil, List.append_nil]
    exact ⟨hnext, hgiven, hrecords, hspots, hapart, h.block_eq_of_keptIn hkept⟩
  | dropped s' hinline hrecord hkept hgone =>
    refine ⟨c, ?_⟩
    simp only [hrecord, Option.toList_none, List.flatMap_nil, List.append_nil]
    exact h.of_keptIn hkept
  | stored r next s' c' chapter hrecord hkept hsame hturn hc hnext hgone =>
    obtain ⟨hgiven, hrecords, hspots, hapart⟩ := hturned c' hturn
    have hcurrent := Contents.current_write hc r
    obtain ⟨hwritable, hwritten⟩ := hnext.last_of_write hc
    refine ⟨c'.write r, hnext, hgiven, ?_, ?_, hapart, ?_⟩
    · rw [c'.records_write hc, hrecords, hrecord]
      rfl
    · rw [Contents.spots_write hc, hspots]
      simp only [hrecord, Option.toList_some, List.flatMap_singleton, hwritable, hwritten,
        Nat.add_sub_cancel]
    · intro segment hmem
      have hne : segment.mapping.block ≠ chapter.segment.mapping.block :=
        hnext.apart_current hcurrent (hgiven.symm ▸ hmem)
      rw [← h.block_eq_of_keptIn hkept segment hmem]
      exact Store.block_write_of_ne _ _ _ hne.symm

end TapeState.Extends

/-- Every step but clearing keeps the segments that were handed off, and adds what it tells of. -/
theorem Step.extends_perform {d : TapeState σ} {store : Store} {given : List Segment}
    {records : List Recorded} {spots : List Spot} {c : Contents}
    (h : d.Extends store given records spots c) {step : Step σ} (hclear : step ≠ .clear) :
    ∃ c', (step.perform d).Extends store given (step.log d records) (step.spots d spots) c' := by
  cases step with
  | tryAppend item => exact h.tryAppend item
  | append item =>
    rw [perform, Tape.ofResult_append]
    exact h.tryAppend item
  | setWriter client => exact ⟨c, h.of_tape rfl rfl rfl rfl⟩
  | setReader client => exact ⟨c, h.of_tape rfl rfl rfl rfl⟩
  | createSegment minimum =>
    exact ⟨c, h.of_keptIn (d.tape.keptIn_createSegment minimum d.session).kept⟩
  | forEach v f start => exact ⟨c, h.of_store_eq (d.tape.forEach_destroys v f start d.session).1⟩
  | replay v context => exact ⟨c, h.of_store_eq (d.tape.store_replay v context d.session)⟩
  | handOff sender => exact ⟨c, h.of_store_eq (d.tape.store_handOff sender d.session)⟩
  | clear => exact absurd rfl hclear

/-- After any steps without clearing, what was recorded lies behind the segments that were handed
off. -/
theorem TapeState.extends_run {d : TapeState σ} {store : Store} {given : List Segment}
    {records : List Recorded} {spots : List Spot} {c : Contents}
    (h : d.Extends store given records spots c) {steps : List (Step σ)}
    (hclear : Step.clear ∉ steps) :
    ∃ c', (d.run steps).Extends store given (d.log records steps) (d.spots spots steps) c' := by
  induction steps generalizing d records spots c with
  | nil => exact ⟨c, h⟩
  | cons step rest ih =>
    have hstep : step ≠ .clear := fun heq => hclear (heq ▸ List.mem_cons_self)
    obtain ⟨c', h'⟩ := Step.extends_perform h hstep
    exact ih h' fun hmem => hclear (List.mem_cons_of_mem _ hmem)

end CommandTape
