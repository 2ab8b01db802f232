import CommandTape.Proofs.Locking
import CommandTape.Proofs.Reading
import CommandTape.Proofs.RoundTrip

/-!
# Going on behind segments that were handed off

What is recorded on a tape over segments of another program comes behind them and leaves them alone,
whatever they hold and however they are named. The tape shows them first as they were
(`TapeState.Extends.views_eq`), playing visits what they are read as and then the recorded items
(`TapeState.Extends.readsAll`), clearing destroys the recorded items where they lie
(`TapeState.Extends.clears`), and no step asks to write to what was handed off.
-/

namespace CommandTape

variable {σ γ C : Type}

/-- The items of records that are left to destroy are those that lie in their records and ask for
it. -/
theorem Recorded.flatMap_owed (records : List Recorded) :
    records.flatMap owed = (records.map item).filter fun item =>
      item.kind.isInline && item.kind.needsDrop := by
  induction records with
  | nil => rfl
  | cons r records ih =>
    rw [List.flatMap_cons, List.map_cons, ih]
    cases r with
    | inline item hinline => cases hdrop : item.kind.needsDrop <;> simp [owed, Recorded.item,
        Item.remains, hinline, hdrop]
    | encoded item blob hinline hlen => simp [owed, Recorded.item, hinline]

/-- A playback visits what another one visits, which shows the first views, and then shows items,
unless it ends before, as the other one does. -/
structure Visitor.GoesOn (f : Visitor σ γ) (start : γ) (items : List Item)
    (alone whole : Outcome DecodeError Nat × γ × Session σ) (first later : List View) : Prop where
  visits_alone : ∃ visits : List (View × Session σ),
    visits.map Prod.fst = first ∧ alone.2.1 = f.after visits start
  visits_whole : ∃ visits : List (View × Session σ),
    visits.map Prod.fst = first ++ later ∧ whole.2.1 = f.after visits start
  of_ok : ∀ k, alone.1 = .ok k → k = first.length ∧ whole.1 = .ok (k + items.length) ∧
    List.Forall₂ (fun item view => View.Shows view item) items later
  of_error : ∀ halt, alone.1 = .error halt → whole.1 = .error halt ∧ later = []

/-- Clearing the tape destroys those of the items that lie in their records and ask for it, each in
its spot. -/
structure TapeState.Clears (d : TapeState σ) (items : List Item) (spots : List Spot) : Prop where
  destroys : ∃ next s', d.tape.clear d.session = (.ok (), next, s') ∧
    s'.destroyed.toList = d.session.destroyed.toList ++ spots.map Spot.item
  items_eq : spots.map Spot.item =
    items.filter fun item => item.kind.isInline && item.kind.needsDrop
  finds : List.Forall₂ (d.tape.Finds d.session.store) spots d.tape.pending.toList

namespace TapeState.Extends

variable {d : TapeState σ} {s : Session σ} {given : List Segment} {records : List Recorded}
  {spots : List Spot} {c : Contents}

/-- The segments that were handed off are shown first, as they were. -/
theorem views_eq (h : d.Extends s.store given records spots c) :
    d.tape.views d.session.store =
      (Tape.ofSegments given : Tape σ).views s.store ++
        c.filled.map (Chapter.view d.session.store) := by
  have hshown : given.map (Segment.view d.session.store) = given.map (Segment.view s.store) := by
    refine List.map_congr_left fun segment hmem => ?_
    rw [Segment.view, Segment.view, Segment.data, Segment.data, h.block_eq segment hmem]
  rw [h.has.views_eq, Contents.views, h.given_eq, Tape.views_ofSegments]
  exact congrArg (· ++ _) hshown

/-- What the tape shows is read as the segments that were handed off, and as the recorded items
behind them if nothing halts the reading before. -/
theorem readsAll (h : d.Extends s.store given records spots c) {v : Vocabulary C}
    {decode? : Option (Bytes → Tag → Decoding)} (hlegible : ∀ r ∈ records, r.LegibleBy v decode?)
    {shown : List View} {halt? : Option (Halt DecodeError)}
    (hreads : ReadsAll v decode? ((Tape.ofSegments given : Tape σ).views s.store) shown halt?) :
    ∃ later, ReadsAll v decode? (d.tape.views d.session.store) (shown ++ later) halt? ∧
      (halt? = none → List.Forall₂ (fun r view => View.Shows view r.item) records later) ∧
      (halt? ≠ none → later = []) := by
  rw [h.views_eq]
  cases halt? with
  | none =>
    rw [← h.records_eq, ← c.flatMap_filled] at hlegible ⊢
    obtain ⟨later, hlater, hshow⟩ := Chapter.readsAll h.has.filled hlegible
    exact ⟨later, hreads.append hlater, fun _ => hshow, fun hne => absurd rfl hne⟩
  | some halt =>
    refine ⟨[], ?_, fun hnone => absurd hnone (by simp), fun _ => rfl⟩
    rw [List.append_nil]
    exact hreads.append_of_halted _

/-- Playing the tape visits what playing the segments that were handed off alone visits, and then
the recorded items, unless it ends before, as it does with the segments alone. -/
theorem plays (h : d.Extends s.store given records spots c) {items : List Item}
    (hitems : records.map Recorded.item = items) {v : Vocabulary C}
    {decode? : Option (Bytes → Tag → Decoding)} (hlegible : ∀ r ∈ records, r.LegibleBy v decode?)
    {f : Visitor σ γ} (hf : ∀ view s state, (f view s state).1 = .ok ()) (start : γ) :
    let reader? := ReadingClient.ofFunction? decode?
    let alone := ((Tape.ofSegments given : Tape σ).setReader reader?).forEach v f start s
    let whole := (d.tape.setReader reader?).forEach v f start d.session
    ∃ first later, f.GoesOn start items alone whole first later := by
  intro reader? alone whole
  obtain ⟨first, halt?, visits, hreads, hcount, hvisits, hafter⟩ :=
    (Tape.ofSegments given : Tape σ).forEach_reads v decode? hf start s
  obtain ⟨shown, halt?', visits', hreads', hcount', hvisits', hafter'⟩ :=
    d.tape.forEach_reads v decode? hf start d.session
  obtain ⟨later, hwhole, hshow, hnone⟩ := h.readsAll hlegible hreads
  obtain ⟨rfl, rfl⟩ := hreads'.unique hwhole
  refine ⟨first, later, ⟨visits, hvisits, hafter⟩, ⟨visits', hvisits', hafter'⟩, ?_, ?_⟩
  · intro k hk
    obtain ⟨rfl, rfl⟩ := Playback.ending_eq_ok_iff.1 (hcount.symm.trans hk)
    have hitem : List.Forall₂ (fun item view => View.Shows view item) items later := by
      rw [← hitems]
      exact List.forall₂_map_left_iff.2 (hshow rfl)
    refine ⟨rfl, ?_, hitem⟩
    rw [show whole.1 = _ from hcount', List.length_append, hitem.length_eq]
    rfl
  · intro halt hk
    obtain rfl := Playback.ending_eq_error_iff.1 (hcount.symm.trans hk)
    exact ⟨hcount', hnone (by simp)⟩

/-- Clearing destroys the items in their spots. -/
theorem clears (h : d.Extends s.store given records spots c) :
    d.Clears (records.map Recorded.item) spots := by
  obtain ⟨next, s', hclear, -, hdestroyed, -⟩ := h.has.clear
  have hitems : spots.map Spot.item = c.records.flatMap Recorded.owed := by
    rw [← h.spots_eq, c.map_item_spots]
  refine ⟨⟨next, s', hclear, ?_⟩, ?_, ?_⟩
  · rw [hdestroyed, hitems]
  · rw [hitems, h.records_eq, Recorded.flatMap_owed]
  · rw [← h.spots_eq]
    exact h.has.finds

/-- Neither the segment that is written to nor a spot lies where segments were handed off. -/
theorem ne_given (h : d.Extends s.store given records spots c) {segment : Segment}
    (hmem : segment ∈ given) :
    (∀ own ∈ d.tape.writable, segment.mapping.block ≠ own.mapping.block) ∧
      ∀ spot ∈ spots, segment.mapping.block ≠ spot.mapping.block := by
  have hgiven : segment ∈ c.given := h.given_eq.symm ▸ hmem
  refine ⟨fun own hown => ?_, fun spot hspot => ?_⟩
  · rw [h.has.writable] at hown
    obtain ⟨chapter, hchapter, rfl⟩ := Option.map_eq_some_iff.1 hown
    exact h.has.apart_current hchapter hgiven
  · rw [← h.spots_eq, Contents.spots] at hspot
    obtain ⟨chapter, hchapter, hspot⟩ := List.mem_flatMap.1 hspot
    rw [Recorded.mapping_of_mem_spotsFrom hspot]
    exact h.has.apart_chapters h.apart hgiven hchapter

end TapeState.Extends

namespace TapeState

/-- The consumer knows the kinds of the items, and makes the items of what the writing clients that
are set in the steps make of them. -/
structure Agrees (v : Vocabulary C) (decode? : Option (Bytes → Tag → Decoding)) (items : List Item)
    (steps : List (Step σ)) : Prop where
  kinds : ∀ item ∈ items, v.kind? item.kind.tag = some item.kind
  decodes : ∀ item ∈ items, item.kind.isInline = false →
    ∀ client, Step.setWriter (some client) ∈ steps → ∀ blob, client.Encodes item blob →
      ∃ decode, decode? = some decode ∧ (decode blob item.kind.tag).result = .ok (some item)

theorem legibleBy_of_agrees {segments : List Segment} {s : Session σ}
    (hlies : ∀ segment ∈ segments, segment.LiesIn s.store) {v : Vocabulary C}
    {decode? : Option (Bytes → Tag → Decoding)} {steps : List (Step σ)}
    (hagrees : Agrees v decode? ((TapeState.mk (.ofSegments segments) s).items [] steps) steps) :
    ∀ r ∈ (TapeState.mk (.ofSegments segments) s).log [] steps, r.LegibleBy v decode? := by
  have hblobs : ∀ r ∈ (TapeState.mk (.ofSegments segments) s).log [] steps, r.MadeIn steps :=
    madeIn_log (.ofSegments hlies) steps
  intro r hr
  have hitem := item_mem_items hr
  refine ⟨hagrees.kinds r.item hitem, ?_⟩
  cases r with
  | inline item hinline => trivial
  | encoded item blob hinline hlen =>
    obtain ⟨client, hclient, hblob⟩ := hblobs _ hr
    exact hagrees.decodes item hitem hinline client hclient blob hblob

/-- What steps come to on a tape over segments of another program, as it is to begin with. -/
structure GoesOnBehind (segments : List Segment) (d : TapeState σ) (steps : List (Step σ))
    (v : Vocabulary C) (decode? : Option (Bytes → Tag → Decoding)) (f : Visitor σ γ) (start : γ) :
    Prop where
  /-- The tape shows the segments first, as they were. -/
  shows : d.tape.views d.session.store <+: (d.run steps).tape.views (d.run steps).session.store
  /-- Playing it visits what playing them alone visits, and then the recorded items. -/
  plays : let last := d.run steps
    let reader? := ReadingClient.ofFunction? decode?
    ∃ first later, f.GoesOn start (d.items [] steps)
      ((d.tape.setReader reader?).forEach v f start d.session)
      ((last.tape.setReader reader?).forEach v f start last.session) first later
  /-- Clearing destroys the recorded items that ask for it, each where it was written. -/
  clears : (d.run steps).Clears (d.items [] steps) (d.spots [] steps)
  /-- The tape's own segments lie elsewhere. -/
  apart : ∀ segment ∈ segments,
    (∀ own ∈ (d.run steps).tape.writable, segment.mapping.block ≠ own.mapping.block) ∧
      ∀ spot ∈ d.spots [] steps, segment.mapping.block ≠ spot.mapping.block
  /-- With the segments mapped for reading only all comes to the same. -/
  locked : let last := d.run steps
    let locked := (TapeState.mk (.ofSegments (segments.map Segment.lock)) d.session).run steps
    locked.session = last.session ∧
      (∀ item, (locked.tape.tryAppend item locked.session).1 =
        (last.tape.tryAppend item last.session).1) ∧
      locked.tape.clear locked.session = last.tape.clear last.session

/-- What steps without clearing record on a tape over segments comes behind them, and leaves them
alone. -/
theorem goes_on_behind {segments : List Segment} {s : Session σ}
    (hlies : ∀ segment ∈ segments, segment.LiesIn s.store) {steps : List (Step σ)}
    (hclear : Step.clear ∉ steps) {v : Vocabulary C} {decode? : Option (Bytes → Tag → Decoding)}
    (hagrees : Agrees v decode? ((TapeState.mk (.ofSegments segments) s).items [] steps) steps)
    {f : Visitor σ γ} (hf : ∀ view s state, (f view s state).1 = .ok ()) (start : γ) :
    GoesOnBehind segments ⟨.ofSegments segments, s⟩ steps v decode? f start := by
  have hstart := Extends.ofSegments hlies
  obtain ⟨c, hlast⟩ := extends_run hstart hclear
  have hitems := map_item_log (TapeState.mk (.ofSegments segments) s) [] steps
  refine ⟨⟨_, hlast.views_eq.symm⟩, ?_, ?_, fun segment hmem => hlast.ne_given hmem, ?_⟩
  · exact hlast.plays hitems (legibleBy_of_agrees hlies hagrees) hf start
  · exact hitems ▸ hlast.clears
  · intro last locked
    have hlocked : locked = last.lock segments.length := by
      rw [← hstart.run_lock hclear]
      show TapeState.run ⟨Tape.ofSegments _, s⟩ steps = TapeState.run ⟨Tape.lock _ _, s⟩ steps
      rw [Tape.lock_ofSegments]
    rw [hlocked]
    exact ⟨rfl, hlast.lock_tryAppend, hlast.lock_clear⟩

end TapeState

/-- Three items behind two segments that lie in the same memory and have the identifier of the
tape's own. -/
theorem TapeState.goes_on_behind_sample :
    let d : TapeState Tallies := ⟨.ofSegments [Sample.handed, Sample.handed], Sample.sharing⟩
    let last := d.run Sample.steps
    (∃ own, last.tape.views last.session.store = d.tape.views d.session.store ++ own) ∧
    ∃ next s', last.tape.clear last.session = (.ok (), next, s') ∧
      s'.destroyed.toList =
        last.session.destroyed.toList ++ [Sample.uniform Sample.trackedKind 7] := by
  intro d last
  have hlies : ∀ segment ∈ [Sample.handed, Sample.handed], segment.LiesIn Sample.sharing.store :=
    Sample.handed_liesIn (by simp)
  have hclear : Step.clear ∉ Sample.steps := by simp [Sample.steps]
  have hitems : d.items [] Sample.steps = [Sample.uniform Sample.trackedKind 7,
      Sample.blob [1, 2, 3], Sample.uniform Sample.byteKind 9] := by decide +kernel
  have hagrees : TapeState.Agrees Sample.coreVocabulary (some Decoding.core)
      (d.items [] Sample.steps) Sample.steps := by
    refine ⟨by rw [hitems]; decide, ?_⟩
    intro item hitem hinline client hclient blob hblob
    obtain rfl : client = Sample.dirtyClient := by simpa [Sample.steps] using hclient
    obtain rfl : item = Sample.blob [1, 2, 3] := by
      rw [hitems] at hitem
      simp only [List.mem_cons, List.not_mem_nil, or_false] at hitem
      rcases hitem with rfl | rfl | rfl
      · exact absurd hinline (by decide)
      · rfl
      · exact absurd hinline (by decide)
    obtain ⟨state, hstate⟩ := hblob
    obtain rfl : [1, 2, 3] = blob := Option.some.inj (Except.ok.inj hstate)
    exact ⟨_, rfl, rfl⟩
  have hbehind := TapeState.goes_on_behind hlies hclear hagrees
    (f := fun _ _ (seen : Nat) => (.ok (), seen + 1)) (fun _ _ _ => rfl) 0
  obtain ⟨own, hviews⟩ := hbehind.shows
  obtain ⟨next, s', hcleared, hdestroyed⟩ := hbehind.clears.destroys
  have howed : (d.items [] Sample.steps).filter (fun item =>
      item.kind.isInline && item.kind.needsDrop) = [Sample.uniform Sample.trackedKind 7] := by
    rw [hitems]
    rfl
  rw [hbehind.clears.items_eq, howed] at hdestroyed
  -- the goal is put in the words of the theorem first: comparing the two would do all the steps
  dsimp only [last, d]
  exact ⟨⟨own, hviews.symm⟩, next, s', hcleared, hdestroyed⟩

end CommandTape
