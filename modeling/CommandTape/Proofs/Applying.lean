import CommandTape.Proofs.Framing
import CommandTape.Proofs.Steps

/-!
# Replaying

What a playback shows, and what it comes to, does not depend on the visitor, as long as that takes
all items: one itinerary guides all visitors (`Playback.Guides`), and leads only to items whose tags
the consumer knows. So the registered application of what is visited never fails for a reason, and
replaying a tape is visiting every item and applying it, whatever bytes the tape shows and whatever
the reading client makes of them (`Tape.replay_applies_visits`).
-/

namespace CommandTape

variable {σ γ C α β : Type}

/-! ## Itineraries -/

namespace Playback

/-- Where a playback leads: the items that it shows, each with the session at that time, and what it
comes to behind the last of them. -/
structure Itinerary (σ α : Type) where
  visits : List (View × Session σ)
  outcome : Outcome DecodeError α
  session : Session σ
  slot : Slot

/-- What is played, whoever the visitor is. -/
abbrev Guided (σ α : Type) := (γ : Type) → Visitor σ γ → γ → Outcome DecodeError α × Playback σ γ

/-- The itinerary guides every visitor: what is played shows its items, which have known tags, and
comes to what it says, unless the visitor gives up at one of them. -/
structure Guides (v : Vocabulary C) (i : Itinerary σ α) (played : Guided σ α) : Prop where
  known : ∀ visit ∈ i.visits, v.contains visit.1.tag = true
  taken : ∀ (γ : Type) (f : Visitor σ γ) (state : γ), (f.showAll i.visits state).1 = .ok () →
    played γ f state = (i.outcome, ⟨i.session, i.slot, (f.showAll i.visits state).2⟩)
  givenUp : ∀ (γ : Type) (f : Visitor σ γ) (state : γ) (e : Fault),
    (f.showAll i.visits state).1 = .error e →
    (played γ f state).1 = .error (.fault e) ∧
      (played γ f state).2.visited = (f.showAll i.visits state).2

variable {v : Vocabulary C}

/-- Where nothing is shown, all visitors come to the same. -/
theorem guides_of_unseen {outcome : Outcome DecodeError α} {session : Session σ} {slot : Slot}
    {played : Guided σ α}
    (h : ∀ γ f state, played γ f state = (outcome, ⟨session, slot, state⟩)) :
    Guides v ⟨[], outcome, session, slot⟩ played where
  known := by simp
  taken γ f state _ := h γ f state
  givenUp γ f state e hshown := absurd hshown (by simp [Visitor.showAll])

/-- Where one item is shown, all visitors that take it come to the same. -/
theorem guides_of_visit {view : View} {s session : Session σ} {outcome : Outcome DecodeError α}
    {slot : Slot} {played : Guided σ α} (hknown : v.contains view.tag = true)
    (htaken : ∀ γ (f : Visitor σ γ) state next, f view s state = (.ok (), next) →
      played γ f state = (outcome, ⟨session, slot, next⟩))
    (hgivenUp : ∀ γ (f : Visitor σ γ) state e next, f view s state = (.error e, next) →
      (played γ f state).1 = .error (.fault e) ∧ (played γ f state).2.visited = next) :
    Guides v ⟨[(view, s)], outcome, session, slot⟩ played where
  known := by simpa using hknown
  taken γ f state hshown := by
    rcases hvisit : f view s state with ⟨e | u, next⟩
    · simp [Visitor.showAll, hvisit] at hshown
    · rw [htaken γ f state next hvisit]
      simp only [Visitor.showAll, hvisit]
  givenUp γ f state e hshown := by
    rcases hvisit : f view s state with ⟨e' | u, next⟩
    · obtain rfl : e' = e := by simpa [Visitor.showAll, hvisit] using hshown
      simpa only [Visitor.showAll, hvisit] using hgivenUp γ f state e' next hvisit
    · simp [Visitor.showAll, hvisit] at hshown

namespace Guides

variable {i : Itinerary σ α} {j : Itinerary σ β} {played : Guided σ α} {whole : Guided σ β}

/-- What a playback that ends well goes on with leads further. -/
theorem andThen {a : α} (h : Guides v i played)
    (next : (γ : Type) → Visitor σ γ → Playback σ γ → Outcome DecodeError β × Playback σ γ)
    (hok : i.outcome = .ok a)
    (hnext : Guides v j fun γ f state => next γ f ⟨i.session, i.slot, state⟩)
    (hwhole : ∀ γ f state q, played γ f state = (.ok a, q) → whole γ f state = next γ f q)
    (hfault : ∀ γ f state e q, played γ f state = (.error (.fault e), q) →
      whole γ f state = (.error (.fault e), q)) :
    Guides v ⟨i.visits ++ j.visits, j.outcome, j.session, j.slot⟩ whole := by
  have hfront : ∀ γ (f : Visitor σ γ) state, (f.showAll i.visits state).1 = .ok () →
      whole γ f state = next γ f ⟨i.session, i.slot, (f.showAll i.visits state).2⟩ := by
    intro γ f state hshown
    refine hwhole γ f state _ ?_
    rw [h.taken γ f state hshown, hok]
  refine ⟨?_, ?_, ?_⟩
  · intro visit hvisit
    rcases List.mem_append.1 hvisit with hvisit | hvisit
    · exact h.known visit hvisit
    · exact hnext.known visit hvisit
  · intro γ f state hshown
    cases hfirst : (f.showAll i.visits state).1 with
    | ok u =>
      rw [Visitor.showAll_append_of_ok hfirst] at hshown ⊢
      rw [hfront γ f state hfirst]
      exact hnext.taken γ f _ hshown
    | error e =>
      rw [Visitor.showAll_append_of_error hfirst, hfirst] at hshown
      exact absurd hshown (by simp)
  · intro γ f state e hshown
    cases hfirst : (f.showAll i.visits state).1 with
    | ok u =>
      rw [Visitor.showAll_append_of_ok hfirst] at hshown ⊢
      rw [hfront γ f state hfirst]
      exact hnext.givenUp γ f _ e hshown
    | error e' =>
      rw [Visitor.showAll_append_of_error hfirst] at hshown ⊢
      obtain rfl : e' = e := Except.error.inj (hfirst.symm.trans hshown)
      obtain ⟨houtcome, hvisited⟩ := h.givenUp γ f state e' hfirst
      rw [hfault γ f state e' _ (Prod.ext houtcome rfl)]
      exact ⟨rfl, hvisited⟩

/-- What a playback that ends comes to in the end is said by its outcome. -/
theorem ending (h : Guides v i played) (outcome : Outcome DecodeError β) (session : Session σ)
    (hwhole : ∀ γ f state q, played γ f state = (i.outcome, q) → q.session = i.session →
      whole γ f state = (outcome, { q with session := session }))
    (hfault : ∀ γ f state e q, played γ f state = (.error (.fault e), q) →
      whole γ f state = (.error (.fault e), q)) :
    Guides v ⟨i.visits, outcome, session, i.slot⟩ whole where
  known := h.known
  taken γ f state hshown := hwhole γ f state _ (h.taken γ f state hshown) rfl
  givenUp γ f state e hshown := by
    obtain ⟨houtcome, hvisited⟩ := h.givenUp γ f state e hshown
    rw [hfault γ f state e _ (Prod.ext houtcome rfl)]
    exact ⟨rfl, hvisited⟩

end Guides

/-! ## Playing under an itinerary -/

section Playing

variable {v : Vocabulary C} (reader? : Option (ReadingClient σ))

theorem contains_of_kind? {tag : Tag} {kind : Kind} (h : v.kind? tag = some kind) :
    v.contains tag = true := by
  obtain ⟨entry, hfind, -⟩ := Option.map_eq_some_iff.1 h
  exact Option.isSome_of_eq_some hfind

/-- The item in the slot is shown if it has the tag of its record. -/
theorem exists_guides_visitSlot {tag : Tag} (hknown : v.contains tag = true) (session : Session σ)
    (slot : Slot) :
    ∃ i : Itinerary σ Unit, Guides v i fun _ f state =>
      (⟨session, slot, state⟩ : Playback σ _).visitSlot f tag := by
  cases hview : slot.view? with
  | none =>
    let reason := "reading client produced no item for type " ++ Hexadecimal.ofTag tag
    refine ⟨⟨[], .error (.failed (.malformed reason)), session, slot⟩,
      guides_of_unseen fun γ f state => ?_⟩
    simp only [visitSlot, hview, reason]
  | some view =>
    by_cases htag : view.tag = tag
    · refine ⟨⟨[(view, session)], .ok (), session.destroy slot.reset.2, slot.reset.1⟩,
        guides_of_visit (htag ▸ hknown) ?_ ?_⟩
      · intro γ f state next hvisit
        simp only [visitSlot, hview, if_pos htag, visit, hvisit]
        rfl
      · intro γ f state e next hvisit
        simp only [visitSlot, hview, if_pos htag, visit, hvisit, and_self]
    · refine ⟨⟨[], .error (.failed (.tagMismatch tag view.tag)), session.destroy slot.reset.2,
        slot.reset.1⟩, guides_of_unseen fun γ f state => ?_⟩
      simp only [visitSlot, hview, if_neg htag]
      rfl

/-- Playing a record whose tag is known. -/
theorem exists_guides_playFrame {frame : Frame} (hknown : frame.KnownBy v) (session : Session σ)
    (slot : Slot) :
    ∃ i : Itinerary σ Unit, Guides v i fun _ f state =>
      (⟨session, slot, state⟩ : Playback σ _).playFrame reader? f frame := by
  obtain ⟨location, body⟩ := frame
  cases body with
  | inline view =>
    obtain ⟨kind, item, hkind, -, -⟩ := hknown
    refine ⟨⟨[(view, session)], .ok (), session, slot⟩,
      guides_of_visit (contains_of_kind? hkind) ?_ ?_⟩
    · intro γ f state next hvisit
      simp only [playFrame, visit, hvisit, Outcome.ofFaulty_ok]
    · intro γ f state e next hvisit
      simp only [playFrame, visit, hvisit, and_true]
      rfl
  | encoded tag blob =>
    obtain ⟨kind, hkind, -⟩ := hknown
    cases reader? with
    | none =>
      exact ⟨⟨[], .error (.failed .missingReadingClient), session, slot⟩,
        guides_of_unseen fun γ f state => rfl⟩
    | some client =>
      -- decoding does not see the state of the visitor
      let decoded := (⟨session, slot, ()⟩ : Playback σ Unit).decode client tag blob location
      have hdecode : ∀ γ (state : γ),
          (⟨session, slot, state⟩ : Playback σ γ).decode client tag blob location =
            (decoded.1, ⟨decoded.2.session, decoded.2.slot, state⟩) := fun γ state => rfl
      cases houtcome : decoded.1 with
      | error h =>
        refine ⟨⟨[], .error h, decoded.2.session, decoded.2.slot⟩,
          guides_of_unseen fun γ f state => ?_⟩
        simp only [playFrame, hdecode, houtcome]
      | ok u =>
        obtain ⟨i, hi⟩ := exists_guides_visitSlot (contains_of_kind? hkind) decoded.2.session
          decoded.2.slot
        refine ⟨i, ?_⟩
        simp only [playFrame, hdecode, houtcome]
        exact hi

/-- Playing records whose tags are known. -/
theorem exists_guides_playFrames {frames : List Frame} (hknown : ∀ frame ∈ frames, frame.KnownBy v)
    (count : Nat) (session : Session σ) (slot : Slot) :
    ∃ i : Itinerary σ Nat, Guides v i fun _ f state =>
      (⟨session, slot, state⟩ : Playback σ _).playFrames reader? f frames count := by
  induction frames generalizing count session slot with
  | nil => exact ⟨⟨[], .ok count, session, slot⟩, guides_of_unseen fun γ f state => rfl⟩
  | cons frame rest ih =>
    obtain ⟨hframe, hrest⟩ := List.forall_mem_cons.1 hknown
    obtain ⟨i, hi⟩ := exists_guides_playFrame reader? hframe session slot
    have hfault : ∀ γ (f : Visitor σ γ) state h q,
        (⟨session, slot, state⟩ : Playback σ γ).playFrame reader? f frame = (.error h, q) →
        (⟨session, slot, state⟩ : Playback σ γ).playFrames reader? f (frame :: rest) count =
          (.error h, q) := by
      intro γ f state h q hplay
      rw [playFrames, hplay]
    cases houtcome : i.outcome with
    | ok u =>
      obtain ⟨j, hj⟩ := ih hrest (count + 1) i.session i.slot
      refine ⟨_, hi.andThen (fun γ f q => q.playFrames reader? f rest (count + 1)) houtcome hj ?_
        fun γ f state e => hfault γ f state _⟩
      intro γ f state q hplay
      rw [playFrames, hplay]
    | error h =>
      refine ⟨_, hi.ending (.error h) i.session ?_ fun γ f state e => hfault γ f state _⟩
      intro γ f state q hplay hsession
      rw [hfault γ f state h q (houtcome ▸ hplay), ← hsession]

/-- The tags of the records that bytes are split into are known. -/
theorem known_of_mem_split (hasClient : Bool) (segment : SegmentId) (offset : Nat) (rest : Extent) :
    ∀ frame ∈ (Frame.split v hasClient segment offset rest).1, frame.KnownBy v := by
  fun_induction Frame.split v hasClient segment offset rest with
  | case1 | case2 => simp
  | case3 offset rest hrest other hread =>
    exact List.forall_mem_singleton.2 (Frame.liesAt_of_read hread).known
  | case4 offset rest hrest other hread next hadd frames halt hsplit ih =>
    rw [hsplit] at ih
    exact List.forall_mem_cons.2 ⟨(Frame.liesAt_of_read hread).known, ih⟩

/-- Playing a segment, whatever bytes it has. -/
theorem exists_guides_playSegment (segment : SegmentId) (data : Extent) (session : Session σ)
    (slot : Slot) :
    ∃ i : Itinerary σ Nat, Guides v i fun _ f state =>
      (⟨session, slot, state⟩ : Playback σ _).playSegment v reader? f segment data := by
  have hknown := known_of_mem_split (v := v) reader?.isSome segment 0 data
  rcases hsplit : Frame.split v reader?.isSome segment 0 data with ⟨frames, halt?⟩
  rw [hsplit] at hknown
  obtain ⟨i, hi⟩ := exists_guides_playFrames reader? hknown 0 session slot
  have hplayed : ∀ γ (f : Visitor σ γ) state,
      (⟨session, slot, state⟩ : Playback σ γ).playSegment v reader? f segment data =
        haltedBy ((⟨session, slot, state⟩ : Playback σ γ).playFrames reader? f frames 0) halt? := by
    intro γ f state
    rw [playSegment, playRecords_eq, hsplit]
  have hfault : ∀ γ (f : Visitor σ γ) state h q,
      (⟨session, slot, state⟩ : Playback σ γ).playFrames reader? f frames 0 = (.error h, q) →
      (⟨session, slot, state⟩ : Playback σ γ).playSegment v reader? f segment data =
        (.error h, q) := by
    intro γ f state h q hplay
    rw [hplayed, hplay]
    rfl
  refine ⟨_, hi.ending (haltedBy (i.outcome, (⟨session, slot, ()⟩ : Playback σ Unit)) halt?).1
    i.session ?_ fun γ f state e => hfault γ f state _⟩
  intro γ f state q hplay hsession
  rw [hplayed, hplay, ← hsession]
  rcases i.outcome with h | count <;> cases halt? <;> rfl

/-- Playing segments. -/
theorem exists_guides_playViews (views : List SegmentView) (count : Nat) (session : Session σ)
    (slot : Slot) :
    ∃ i : Itinerary σ Nat, Guides v i fun _ f state =>
      (⟨session, slot, state⟩ : Playback σ _).playViews v reader? f views count := by
  induction views generalizing count session slot with
  | nil => exact ⟨⟨[], .ok count, session, slot⟩, guides_of_unseen fun γ f state => rfl⟩
  | cons view rest ih =>
    obtain ⟨i, hi⟩ := exists_guides_playSegment (v := v) reader? view.id view.data
      session slot
    have hfault : ∀ γ (f : Visitor σ γ) state e q,
        (⟨session, slot, state⟩ : Playback σ γ).playSegment v reader? f view.id view.data =
          (.error (.fault e), q) →
        (⟨session, slot, state⟩ : Playback σ γ).playViews v reader? f (view :: rest) count =
          (.error (.fault e), q) := by
      intro γ f state e q hplay
      rw [playViews, hplay]
    rcases houtcome : i.outcome with (reason | e) | n
    · refine ⟨_, hi.ending (.error (.failed reason))
        (i.session.note (.stopped view.id count reason)) ?_ hfault⟩
      intro γ f state q hplay hsession
      rw [playViews, hplay, houtcome, ← hsession]
    · refine ⟨_, hi.ending (.error (.fault e)) i.session ?_ hfault⟩
      intro γ f state q hplay hsession
      rw [hfault γ f state e q (houtcome ▸ hplay), ← hsession]
    · obtain ⟨j, hj⟩ := ih (count + n) i.session i.slot
      refine ⟨_, hi.andThen (fun γ f q => q.playViews v reader? f rest (count + n)) houtcome hj ?_
        hfault⟩
      intro γ f state q hplay
      rw [playViews, hplay]

end Playing

end Playback

/-! ## Applying what is visited -/

namespace Visitor

/-- The visitor that takes down all items, each with the session at that time. -/
def collect : Visitor σ (List (View × Session σ)) :=
  fun view session seen => (.ok (), seen ++ [(view, session)])

theorem after_collect (visits seen : List (View × Session σ)) :
    collect.after visits seen = seen ++ visits := by
  induction visits generalizing seen with
  | nil => exact (List.append_nil seen).symm
  | cons visit rest ih => exact (ih _).trans (List.append_assoc seen [visit] rest)

end Visitor

namespace Vocabulary

/-- Applies the items of records to a context one after the other, up to the first that cannot be
applied. -/
def applyEach (v : Vocabulary C) : List View → C → Outcome DecodeError Unit × C
  | [], context => (.ok (), context)
  | view :: rest, context =>
    match v.apply view context with
    | (.ok (), context) => v.applyEach rest context
    | (.error h, context) => (.error h, context)

/-- Applying an item whose tag is known only fails by a fault. -/
theorem apply_of_contains {v : Vocabulary C} {view : View} (h : v.contains view.tag = true)
    (context : C) : ∃ outcome next, v.apply view context = (.ofFaulty outcome, next) := by
  obtain ⟨entry, hfind⟩ := Option.isSome_iff_exists.1 h
  unfold apply
  rw [hfind]
  dsimp only
  rcases view.get entry.kind with e | item
  · exact ⟨.error e, context, rfl⟩
  · exact ⟨_, _, rfl⟩

end Vocabulary

namespace Tape

/-- The items that are visited, in order, each with the session at that time. -/
def visits (tape : Tape σ) (v : Vocabulary C) (s : Session σ) : List (View × Session σ) :=
  (tape.forEach v .collect [] s).2.1

/-- Every visitor is shown the same items, whose tags are known, and comes to the same, unless it
gives up at one of them. -/
theorem exists_forEach_eq (tape : Tape σ) (v : Vocabulary C) (s : Session σ) :
    (∀ visit ∈ tape.visits v s, v.contains visit.1.tag = true) ∧
    ∃ outcome last, ∀ (γ : Type) (f : Visitor σ γ) (start : γ),
      let shown := f.showAll (tape.visits v s) start
      (shown.1 = .ok () → tape.forEach v f start s = (outcome, shown.2, last)) ∧
      ∀ e, shown.1 = .error e →
        (tape.forEach v f start s).1 = .error (.fault e) ∧
          (tape.forEach v f start s).2.1 = shown.2 := by
  obtain ⟨i, hi⟩ := Playback.exists_guides_playViews (v := v) tape.reader
    (tape.views s.store) 0 s .empty
  have hvisits : tape.visits v s = i.visits := by
    have hshown : Visitor.collect.showAll i.visits [] = (.ok (), i.visits) := by
      rw [Visitor.showAll_of_total (fun _ _ _ => rfl), Visitor.after_collect, List.nil_append]
    have hplayed := hi.taken _ Visitor.collect [] (by rw [hshown])
    simp only [visits, forEach, hplayed, hshown]
    rfl
  rw [hvisits]
  refine ⟨hi.known, i.outcome, i.session.destroy i.slot.reset.2, fun γ f start => ⟨?_, ?_⟩⟩
  · intro hshown
    simp only [forEach, hi.taken γ f start hshown]
    rfl
  · intro e hshown
    exact hi.givenUp γ f start e hshown

/-- Showing items whose tags are known to the visitor that applies them is applying them, and no
failure is put off. -/
theorem showAll_applyUnlessFailed {v : Vocabulary C} {visits : List (View × Session σ)}
    (hknown : ∀ visit ∈ visits, v.contains visit.1.tag = true) (context : C) :
    ∃ outcome next, v.applyEach (visits.map Prod.fst) context = (.ofFaulty outcome, next) ∧
      (applyUnlessFailed v).showAll visits (none, context) = (outcome, none, next) := by
  induction visits generalizing context with
  | nil => exact ⟨.ok (), context, rfl, rfl⟩
  | cons visit rest ih =>
    obtain ⟨hvisit, hrest⟩ := List.forall_mem_cons.1 hknown
    obtain ⟨outcome, next, happly⟩ := Vocabulary.apply_of_contains hvisit context
    cases outcome with
    | error e =>
      refine ⟨.error e, next, ?_, ?_⟩
      · rw [List.map_cons, Vocabulary.applyEach, happly]
        rfl
      · simp only [Visitor.showAll, applyUnlessFailed, happly]
        rfl
    | ok u =>
      obtain ⟨outcome, last, heach, hshown⟩ := ih hrest next
      refine ⟨outcome, last, ?_, ?_⟩
      · rw [List.map_cons, Vocabulary.applyEach, happly]
        exact heach
      · simp only [Visitor.showAll, applyUnlessFailed, happly, Outcome.ofFaulty_ok]
        exact hshown

/-- Replaying is visiting every item and applying it, whatever bytes the tape shows, and whatever
the reading client makes of blobs. No item that is visited lacks an application, so none fails for a
reason, and no failure is ever put off. If no application gives up, all items that are visited are
applied in order, also those before an error; replaying comes to that context, and to the same count
or the same error as visiting the items in any other way. -/
theorem replay_applies_visits (tape : Tape σ) (v : Vocabulary C) (context : C) (s : Session σ) :
    let visits := tape.visits v s
    let applied := v.applyEach (visits.map Prod.fst) context
    (∀ visit ∈ visits, ∀ before reason, (v.apply visit.1 before).1 ≠ .error (.failed reason)) ∧
    (tape.forEach v (applyUnlessFailed v) (none, context) s).2.1.1 = none ∧
    ((∀ e, applied.1 ≠ .error (.fault e)) →
      applied.1 = .ok () ∧ (tape.replay v context s).2.1 = applied.2 ∧
      ∀ (γ : Type) (f : Visitor σ γ) (start : γ), (∀ view s state, (f view s state).1 = .ok ()) →
        (tape.forEach v f start s).2.1 = f.after visits start ∧
        (tape.replay v context s).1 = (tape.forEach v f start s).1 ∧
        (tape.replay v context s).2.2 = (tape.forEach v f start s).2.2) := by
  intro visits applied
  obtain ⟨hknown, outcome, last, hplayed⟩ := tape.exists_forEach_eq v s
  obtain ⟨ends, next, happlied, hshown⟩ := showAll_applyUnlessFailed hknown context
  obtain ⟨htaken, hgivenUp⟩ := hplayed _ (applyUnlessFailed v) (none, context)
  refine ⟨?_, ?_, ?_⟩
  · intro visit hvisit before reason
    obtain ⟨outcome, next, happly⟩ := Vocabulary.apply_of_contains (hknown visit hvisit) before
    rw [happly]
    cases outcome <;> simp [Outcome.ofFaulty]
  · cases ends with
    | error e => rw [(hgivenUp e (congrArg Prod.fst hshown)).2, hshown]
    | ok u => rw [htaken (congrArg Prod.fst hshown), hshown]
  · intro hquiet
    obtain ⟨rfl⟩ : ends = .ok () := by
      cases ends with
      | error e => exact absurd (congrArg Prod.fst happlied) (hquiet e)
      | ok u => rfl
    have hreplay : tape.replay v context s = (outcome, next, last) := by
      rw [replay, htaken (congrArg Prod.fst hshown), hshown]
      cases outcome <;> rfl
    have heach : applied = (.ok (), next) := happlied
    rw [hreplay, heach]
    refine ⟨rfl, rfl, fun γ f start hf => ?_⟩
    have hall := f.showAll_of_total hf visits start
    rw [(hplayed γ f start).1 (congrArg Prod.fst hall), hall]
    exact ⟨rfl, rfl, rfl⟩

/-- An item is applied, and the one behind it cannot be decoded without a reading client. -/
theorem replay_applies_visits_sample :
    let d := Sample.tapeState.run Sample.steps
    let views := (d.tape.visits Sample.coreVocabulary d.session).map Prod.fst
    let replayed := d.tape.replay Sample.coreVocabulary .empty d.session
    replayed.1 = .error (.failed .missingReadingClient) ∧
      replayed.2.1 = (Sample.coreVocabulary.applyEach views .empty).2 ∧
      views.length = 1 := by
  intro d views replayed
  have hfold : (Sample.coreVocabulary.applyEach views .empty).1 = .ok () := by decide +kernel
  obtain ⟨-, -, happly⟩ := d.tape.replay_applies_visits Sample.coreVocabulary .empty d.session
  obtain ⟨-, hcontext, hsame⟩ := happly fun e => by
    intro h
    exact absurd (hfold.symm.trans h) (by simp)
  obtain ⟨-, houtcome, -⟩ := hsame Nat (fun _ _ count => (.ok (), count + 1)) 0 fun _ _ _ => rfl
  exact ⟨houtcome.trans (by decide +kernel), hcontext, by decide +kernel⟩

end Tape

end CommandTape
