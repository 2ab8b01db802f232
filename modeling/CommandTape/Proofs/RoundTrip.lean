import CommandTape.Proofs.Playing
import CommandTape.Proofs.Steps

/-!
# What was recorded is played

Whatever is done with a tape, its records are those of items that were handed to it, and of blobs
that clients made of them (`TapeState.madeIn_of_mem_log`). So if the consumer knows the items'
kinds, and its reading client undoes what the writing clients did, playing visits the recorded
items, each once and in the order of recording.
-/

namespace CommandTape

variable {σ γ C : Type}

/-- The client may make the blob of the item. -/
def WritingClient.Encodes (client : WritingClient σ) (item : Item) (blob : Bytes) : Prop :=
  ∃ state, (client.encode (View.ofItem item Slot.empty.location) state).1 = .ok (some blob)

/-- A client that puts just the item into the slot restores it. -/
theorem ReadingClient.restores_of_decode {client : ReadingClient σ} {blob : Bytes} {item : Item}
    (hfits : item.kind.fits = true)
    (hdecode : ∀ location state,
      (client.decode blob item.kind.tag location state).1 = Decoding.ofItem item) :
    client.Restores blob item := by
  intro location state slot hslot
  obtain ⟨next, hrun, -, hview⟩ := Decoding.runOn_ofItem hfits slot
  refine ⟨next, slot.held, ?_, View.ofItem item slot.location, hview, View.shows_ofItem _ _⟩
  rw [hdecode, hrun]

/-! ## Where records come from -/

/-- The record's blob, if it has one, is what one of the writing clients that are set in the steps
made of its item. -/
def Recorded.MadeIn (steps : List (Step σ)) : Recorded → Prop
  | inline _ _ => True
  | encoded item blob _ _ =>
    ∃ client, Step.setWriter (some client) ∈ steps ∧ client.Encodes item blob

namespace Recorded.MadeIn

variable {steps : List (Step σ)} {r : Recorded}

theorem append (h : r.MadeIn steps) (more : List (Step σ)) : r.MadeIn (steps ++ more) := by
  cases r with
  | inline item hinline => trivial
  | encoded item blob hinline hlen =>
    obtain ⟨client, hclient, hblob⟩ := h
    exact ⟨client, List.mem_append_left _ hclient, hblob⟩

theorem of_recorded {d : TapeState σ} {item : Item} (hr : r ∈ d.tape.recorded item d.session)
    (hwriter : ∀ client, d.tape.writer = some client → Step.setWriter (some client) ∈ steps) :
    r.MadeIn steps := by
  rcases Tape.recordOf_eq_some (Tape.mem_recorded hr) with
    ⟨hinline, rfl⟩ | ⟨client, blob, hinline, hlen, hclient, hblob, rfl⟩
  · trivial
  · exact ⟨client, hwriter client hclient, _, hblob⟩

end Recorded.MadeIn

theorem Step.madeIn_of_mem_log {d : TapeState σ} {records : List Recorded} {past : List (Step σ)}
    (hrecords : ∀ r ∈ records, r.MadeIn past)
    (hwriter : ∀ client, d.tape.writer = some client → Step.setWriter (some client) ∈ past)
    (step : Step σ) : ∀ r ∈ step.log d records, r.MadeIn (past ++ [step]) := by
  intro r hr
  have hadded {item : Item} (hr : r ∈ records ++ d.tape.recorded item d.session) :
      r.MadeIn (past ++ [step]) := by
    rcases List.mem_append.1 hr with hr | hr
    · exact (hrecords r hr).append [step]
    · exact (Recorded.MadeIn.of_recorded hr hwriter).append [step]
  cases step with
  | tryAppend item => exact hadded hr
  | append item => exact hadded hr
  | clear => exact absurd hr List.not_mem_nil
  | _ => exact (hrecords r hr).append _

/-- Blobs on a tape are what the writing clients of the past and of the steps made of the items. -/
theorem TapeState.madeIn_of_mem_log {d : TapeState σ} {given : List Segment}
    {records : List Recorded} {past : List (Step σ)} (h : d.Holds given records)
    (hrecords : ∀ r ∈ records, r.MadeIn past)
    (hwriter : ∀ client, d.tape.writer = some client → Step.setWriter (some client) ∈ past)
    (steps : List (Step σ)) :
    ∀ r ∈ d.log records steps, r.MadeIn (past ++ steps) := by
  induction steps generalizing d given records past with
  | nil =>
    rw [List.append_nil]
    exact hrecords
  | cons step rest ih =>
    have hnext : ∀ client, (step.perform d).tape.writer = some client →
        Step.setWriter (some client) ∈ past ++ [step] := by
      intro client hclient
      rw [step.writer_perform h] at hclient
      cases step with
      | setWriter other =>
        obtain rfl : other = some client := hclient
        exact List.mem_append_right _ (List.mem_singleton_self _)
      | _ => exact List.mem_append_left _ (hwriter client hclient)
    have hrest := ih (step.holds_perform h) (step.madeIn_of_mem_log hrecords hwriter) hnext
    rw [List.append_assoc, List.singleton_append] at hrest
    exact hrest

/-- Blobs on a tape are what the writing clients of the steps made of the items. -/
theorem TapeState.madeIn_log {d : TapeState σ} {segments : List Segment}
    (hfresh : d.tape.Fresh d.session.store segments) (steps : List (Step σ)) :
    ∀ r ∈ d.log [] steps, r.MadeIn steps := by
  have hnone : ∀ r ∈ ([] : List Recorded), r.MadeIn ([] : List (Step σ)) := by simp
  refine madeIn_of_mem_log hfresh.holds hnone ?_ steps
  intro client hclient
  rw [hfresh.writer_eq] at hclient
  exact absurd hclient (by simp)

/-! ## Playing -/

namespace Tape

/-- A tape that nothing was handed off to plays its records. -/
theorem Has.forEach {tape : Tape σ} {s : Session σ} {c : Contents} (h : tape.Has s.store c)
    (hgiven : c.given = []) {v : Vocabulary C} {f : Visitor σ γ}
    (hplay : ∀ r ∈ c.records, r.PlayableBy v tape.reader)
    (hf : ∀ view s state, (f view s state).1 = .ok ()) (start : γ) :
    ∃ visits : List (View × Session σ),
      (tape.forEach v f start s).1 = .ok c.records.length ∧
      (tape.forEach v f start s).2.1 = f.after visits start ∧ Visits c.records visits := by
  have hviews : tape.views s.store = c.filled.map (Chapter.view s.store) := by
    rw [h.views_eq, Contents.views, hgiven]
    rfl
  rw [← c.flatMap_filled] at hplay ⊢
  exact forEach_chapters hviews h.filled hplay (f.accepts_of_total hf _ _)

/-- Playing a tape that was made without items visits what was recorded by any steps and not cleared
since, in the order of recording, if the vocabulary knows the kinds of these items, and the reading
client restores them from what the writing clients make of them. -/
theorem forEach_visits_items {capacity : Nat} {d : TapeState σ}
    (hmade : withCapacity capacity = .ok d.tape) (steps : List (Step σ))
    (reader? : Option (ReadingClient σ)) (v : Vocabulary C)
    (f : Visitor σ γ) (start : γ)
    (hkinds : ∀ item ∈ d.items [] steps, v.kind? item.kind.tag = some item.kind)
    (hrestores : ∀ item ∈ d.items [] steps, item.kind.isInline = false →
      ∀ client, Step.setWriter (some client) ∈ steps → ∀ blob, client.Encodes item blob →
        ∃ reader, reader? = some reader ∧ reader.Restores blob item)
    (hf : ∀ view s state, (f view s state).1 = .ok ()) :
    let played := ((d.run steps).tape.setReader reader?).forEach v f start (d.run steps).session
    ∃ visits : List (View × Session σ),
      played.1 = .ok (d.items [] steps).length ∧ played.2.1 = f.after visits start ∧
      List.Forall₂ (fun item visit => visit.1.Shows item) (d.items [] steps) visits := by
  intro played
  have hfresh : d.tape.Fresh d.session.store [] := .withCapacity hmade
  have hholds : d.Holds [] [] := hfresh.holds
  obtain ⟨c, hhas, hgiven, hrecords⟩ := TapeState.holds_run hholds steps
  rw [TapeState.given_nil] at hgiven
  have hitems : c.records.map Recorded.item = d.items [] steps := by
    rw [hrecords, TapeState.map_item_log]
    rfl
  have hblobs : ∀ r ∈ c.records, r.MadeIn steps := by
    have hnone : ∀ r ∈ ([] : List Recorded), r.MadeIn ([] : List (Step σ)) := by simp
    rw [hrecords]
    refine TapeState.madeIn_of_mem_log hholds hnone ?_ steps
    intro client hclient
    rw [hfresh.writer_eq] at hclient
    exact absurd hclient (by simp)
  have hplay : ∀ r ∈ c.records, r.PlayableBy v reader? := by
    intro r hr
    have hitem : r.item ∈ d.items [] steps := hitems ▸ List.mem_map_of_mem hr
    refine ⟨hkinds r.item hitem, ?_⟩
    cases r with
    | inline item hinline => trivial
    | encoded item blob hinline hlen =>
      obtain ⟨client, hclient, hblob⟩ := hblobs _ hr
      exact hrestores item hitem hinline client hclient blob hblob
  have hset : ((d.run steps).tape.setReader reader?).Has (d.run steps).session.store c :=
    hhas.of_eq rfl rfl rfl rfl
  obtain ⟨visits, hcount, hafter, hvisits⟩ := hset.forEach hgiven hplay hf start
  rw [← hitems, List.length_map]
  exact ⟨visits, hcount, hafter, List.forall₂_map_left_iff.2 hvisits⟩

/-- Three items in two segments, one of them encoded. -/
theorem forEach_visits_items_sample :
    let played := ((Sample.tapeState.run Sample.steps).tape.setReader (some Sample.reader)).forEach
      Sample.coreVocabulary (fun _ _ seen => (.ok (), seen + 1)) 0
      (Sample.tapeState.run Sample.steps).session
    ∃ visits : List (View × Session Tallies),
      played.1 = .ok 3 ∧
      List.Forall₂ (fun item visit => visit.1.Shows item)
        [Sample.uniform Sample.trackedKind 7, Sample.blob [1, 2, 3],
          Sample.uniform Sample.byteKind 9] visits := by
  have hitems : Sample.tapeState.items [] Sample.steps =
      [Sample.uniform Sample.trackedKind 7, Sample.blob [1, 2, 3],
        Sample.uniform Sample.byteKind 9] := rfl
  have hrestores : ∀ item ∈ Sample.tapeState.items [] Sample.steps, item.kind.isInline = false →
      ∀ client, Step.setWriter (some client) ∈ Sample.steps → ∀ blob, client.Encodes item blob →
        ∃ reader, some Sample.reader = some reader ∧ reader.Restores blob item := by
    intro item hitem hinline client hclient blob hblob
    obtain rfl : client = Sample.dirtyClient := by simpa [Sample.steps] using hclient
    obtain rfl : item = Sample.blob [1, 2, 3] := by
      rw [hitems] at hitem
      simp only [List.mem_cons, List.not_mem_nil, or_false] at hitem
      rcases hitem with rfl | rfl | rfl
      · exact absurd hinline (by decide)
      · rfl
      · exact absurd hinline (by decide)
    obtain ⟨state, hstate⟩ := hblob
    obtain rfl : [1, 2, 3] = blob := Option.some.inj (Except.ok.inj hstate)
    exact ⟨_, rfl, ReadingClient.restores_of_decode rfl fun _ _ => rfl⟩
  have hmade : withCapacity 12 = .ok Sample.tapeState.tape := rfl
  obtain ⟨visits, hcount, -, hvisits⟩ := forEach_visits_items hmade
    Sample.steps (some Sample.reader) Sample.coreVocabulary
    (fun _ _ seen => (.ok (), seen + 1)) 0 (by rw [hitems]; decide) hrestores (fun _ _ _ => rfl)
  exact ⟨visits, hcount, hvisits⟩

end Tape

end CommandTape
