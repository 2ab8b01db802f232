import CommandTape.Proofs.Copies
import CommandTape.Proofs.Growing
import CommandTape.Proofs.HandingOff
import CommandTape.Proofs.Mappings

/-!
# What is handed off stays as it was

A tape that was handed off goes on being written to, in the very memory that the other program has
mapped. But all that is written lies behind what was shown when the tape was handed off. So the
other program's tape shows what was shown then, and plays it, whenever the message is taken and
whatever is recorded before and after (`TapeState.published_stays`).
-/

namespace CommandTape

variable {σ : Type}

/-- What the view shows is the front of a block, which is covered by the contents; and if the view
has a descriptor of memory, that stands for the block. -/
structure SegmentView.LiesAt (view : SegmentView) (store : Store) (c : Contents) (block : Nat) :
    Prop where
  covers : c.Covers block view.data.length
  read_eq : store.read block 0 view.data.length = view.data.toList
  block_eq : ∀ other, view.descriptor = some (.memory other) → other = block

/-- What the view shows lies at the front of a block, which its descriptor stands for, if it has one
of memory. -/
def SegmentView.StaysIn (view : SegmentView) (store : Store) : Prop :=
  ∃ block, (∀ other, view.descriptor = some (.memory other) → other = block) ∧
    store.read block 0 view.data.length = view.data.toList

/-- All that a tape shows is covered by its contents. -/
theorem Tape.Has.exists_liesAt {tape : Tape σ} {store : Store} {c : Contents}
    (h : tape.Has store c) (hshares : ∀ m ∈ tape.mappings, m.SharesItself) :
    ∀ view ∈ tape.views store, ∃ block, view.LiesAt store c block := by
  intro view hmem
  rw [h.views_eq] at hmem
  rcases List.mem_append.1 hmem with hgiven | hown
  · obtain ⟨segment, hsegment, rfl⟩ := List.mem_map.1 hgiven
    have hfrozen : segment ∈ tape.frozen := by
      rw [h.frozen]
      exact List.mem_append_left _ hsegment
    refine ⟨segment.mapping.block, Or.inr (Or.inl ⟨segment, hsegment, rfl⟩), ?_, ?_⟩
    · rw [(h.given segment hsegment).length_data, segment.toList_data]
    · exact hshares _ (mem_mappings_of_frozen hfrozen)
  · obtain ⟨chapter, hfilled, rfl⟩ := List.mem_map.1 hown
    have hchapter : chapter ∈ c.chapters := (List.mem_filter.1 hfilled).1
    have hlies := h.chapters chapter hchapter
    have hlength : (chapter.view store).data.length = chapter.text.length := by
      rw [← Extent.length_toList, hlies.toList_view]
    refine ⟨chapter.segment.mapping.block, ?_, ?_, hshares _ (h.mem_mappings hchapter)⟩
    · exact Or.inr (Or.inr ⟨chapter, hchapter, rfl, Nat.le_of_eq hlength⟩)
    · rw [hlength, hlies.toList_view]
      exact hlies.read_eq

namespace Message.Describes

variable {m : Message} {sender : UInt64} {views : List SegmentView}

theorem exists_descriptor (h : m.Describes sender views) {i : Nat} {view : SegmentView}
    (hget : views[i]? = some view) :
    ∃ descriptor, m.descriptors[i]? = some descriptor ∧ view.descriptor = some descriptor := by
  have hmap : (m.descriptors.map some)[i]? = some view.descriptor := by
    rw [h.descriptors_eq, List.getElem?_map, hget, Option.map_some]
  rw [List.getElem?_map] at hmap
  obtain ⟨descriptor, hdescriptor, hsome⟩ := Option.map_eq_some_iff.1 hmap
  exact ⟨descriptor, hdescriptor, hsome.symm⟩

/-- Whoever takes the message is shown what the message describes, as long as that is still in
memory. -/
theorem shown_of_read (h : m.Describes sender views) (hle : views.length ≤ segmentLimit)
    {store : Store} {uid : UInt64} {segments : List Segment}
    (hread : m.read store = .ok (uid, segments)) :
    uid = sender ∧ ∀ later : Store, (∀ view ∈ views, view.StaysIn later) →
      (segments.map (Segment.view later)).map SegmentView.shown =
        views.map SegmentView.shown := by
  rcases m.wellFormed_or_rejected store with hwell | ⟨reason, hrejected⟩
  · obtain ⟨segments', hread', hlength, htakes⟩ := read_of_wellFormed hwell
    obtain ⟨rfl, rfl⟩ := Prod.mk.inj (Except.ok.inj (hread'.symm.trans hread))
    rw [h.count_eq hle] at hlength
    refine ⟨h.sender_eq, fun later hlater => List.ext_getElem? fun i => ?_⟩
    rw [List.getElem?_map, List.getElem?_map, List.getElem?_map]
    cases hview : views[i]? with
    | none =>
      have hend : segments'.length ≤ i := by
        rw [hlength]
        exact List.getElem?_eq_none_iff.1 hview
      rw [List.getElem?_eq_none hend]
      rfl
    | some view =>
      obtain ⟨block, hblock, hkept⟩ := hlater view (List.mem_of_getElem? hview)
      obtain ⟨descriptor, hget, hdescriptor⟩ := h.exists_descriptor hview
      obtain ⟨segment, hsegment, htake⟩ := htakes i descriptor hget
      obtain ⟨hid, hclaim⟩ := entry_tableOf hview
      rw [h.table_eq, hid, hclaim] at htake
      -- the descriptor that was sent stands for the block that the view lies in
      obtain rfl : segment.mapping.block = block := by
        refine hblock _ ?_
        rw [hdescriptor, htake.descriptor_eq]
      have hdata : (segment.data later).toList = view.data.toList := by
        rw [segment.toList_data, htake.capacity_eq, hkept]
      rw [hsegment]
      simp only [Option.map_some, SegmentView.shown, Segment.view, htake.id_eq, hdata]
  · cases hread.symm.trans (read_of_rejected hrejected)

end Message.Describes

namespace TapeState

/-- What a tape shows is still in memory after any steps but clearing. -/
theorem stays_run {now : TapeState σ} {c : Contents} (h : now.tape.Has now.session.store c)
    (hshares : ∀ m ∈ now.tape.mappings, m.SharesItself) {steps : List (Step σ)}
    (hclear : Step.clear ∉ steps) :
    ∀ view ∈ now.tape.views now.session.store, view.StaysIn (now.run steps).session.store := by
  intro view hmem
  obtain ⟨c', -, hgrows⟩ := growsTo_run h hclear
  obtain ⟨block, hblock⟩ := h.exists_liesAt hshares view hmem
  refine ⟨block, hblock.block_eq, ?_⟩
  rw [hgrows.read_eq block _ hblock.covers]
  exact hblock.read_eq

/-- Whatever was done with a tape, until it is cleared what it shows only grows: every segment is in
its place, with its bytes in front. If its memory is shared under names of its own, then a tape that
was handed off, and taken at any later time, shows what was shown when it was handed off. It does so
whatever the writer does after that except for clearing, and plays the same to a visitor that looks
at items. -/
theorem published_stays {d : TapeState σ} {given : List Segment}
    (hfresh : d.tape.Fresh d.session.store given) (steps : List (Step σ)) :
    let now := d.run steps
    let views := now.tape.views now.session.store
    (∀ later, Step.clear ∉ later →
      SegmentView.GrowInto views
        ((now.run later).tape.views (now.run later).session.store)) ∧
    ((∀ segment ∈ given, segment.mapping.SharesItself) →
      ∀ sender m, (now.tape.handOff sender now.session).1 = .ok m →
      ∀ before after, Step.clear ∉ before ++ after →
      ∀ (τ : Type) (s : Session τ) uid (reader : Tape τ),
        s.store = (now.run before).session.store → (Tape.receive m s).1 = .ok (uid, reader) →
        let later := ((now.run before).run after).session.store
        uid = sender ∧
        (reader.views s.store).map SegmentView.shown = views.map SegmentView.shown ∧
        (reader.views later).map SegmentView.shown = views.map SegmentView.shown ∧
        ∀ (γ C : Type) (client? : Option (ReadingClient τ)) (v : Vocabulary C)
          (g : View → γ → Except Fault Unit × γ) (start : γ) (t t' : Session τ),
          t.store = s.store → t'.store = later → t'.clients = t.clients →
          let played := (reader.setReader client?).forEach v (.ofView g) start t
          let played' := (reader.setReader client?).forEach v (.ofView g) start t'
          played'.1 = played.1 ∧ played'.2.1 = played.2.1) := by
  intro now views
  obtain ⟨c, hnow, -, -⟩ := holds_run (d := d) hfresh.holds steps
  refine ⟨?_, ?_⟩
  · intro later hclear
    obtain ⟨c', hlater, hgrows⟩ := growsTo_run hnow hclear
    have hviews : views = c.views now.session.store := hnow.views_eq
    rw [hviews, hlater.views_eq]
    exact hgrows.views
  · intro hgiven sender m hsent before after hclear τ s uid reader hstore htaken later
    have hstart : ∀ mapping ∈ d.tape.mappings, mapping.SharesItself := by
      rw [hfresh.mappings_eq]
      intro mapping hmem
      obtain ⟨segment, hsegment, rfl⟩ := List.mem_map.1 hmem
      exact hgiven segment hsegment
    have hshares : ∀ mapping ∈ now.tape.mappings, mapping.SharesItself :=
      mappings_run hstart (fun _ _ h => h.sharesItself) steps
    rw [Tape.handOff_fst] at hsent
    rcases Message.ofViews_cases sender views with ⟨m', hm', hdescribes, hle, -⟩ | ⟨reason, hm', -⟩
    · obtain rfl := Except.ok.inj (hm'.symm.trans hsent)
      obtain ⟨segments, hread, rfl⟩ := Tape.receive_eq_ok htaken
      obtain ⟨huid, hshown⟩ := hdescribes.shown_of_read hle hread
      have hbefore : (Tape.views (Tape.ofSegments segments : Tape τ) s.store).map
          SegmentView.shown = views.map SegmentView.shown := by
        rw [Tape.views_ofSegments, hstore]
        refine hshown _ (stays_run hnow hshares ?_)
        exact fun hmem => hclear (List.mem_append_left _ hmem)
      have hafter : (Tape.views (Tape.ofSegments segments : Tape τ) later).map
          SegmentView.shown = views.map SegmentView.shown := by
        simp only [later, ← run_append]
        rw [Tape.views_ofSegments]
        exact hshown _ (stays_run hnow hshares hclear)
      refine ⟨huid, hbefore, hafter, ?_⟩
      intro γ C client? v g start t t' ht ht' hclients played played'
      refine Tape.forEach_of_shown rfl hclients ?_ v g start
      rw [ht, ht']
      exact hafter.trans hbefore.symm
    · cases hm'.symm.trans hsent

end TapeState

/-- Records an item in shared memory. -/
def Sample.sharedSteps : List (Step Tallies) :=
  [.setWriter (some (Supplier.client ⟨64, 0, 0, none, none, .shared⟩ .core 0)),
    .tryAppend (Sample.uniform Sample.byteKind 1)]

/-- A tape in shared memory is handed off with one item on it. The message is taken after a second
was recorded, and a third one follows. -/
theorem TapeState.published_stays_sample :
    let now := Sample.tapeState.run Sample.sharedSteps
    let before := now.run [.tryAppend (Sample.uniform Sample.byteKind 2)]
    let later := before.run [.append (Sample.uniform Sample.trackedKind 3)]
    ∃ m reader, (now.tape.handOff 3 now.session).1 = .ok m ∧
      (Tape.receive m before.session).1 = .ok (3, reader) ∧
      SegmentView.GrowInto (now.tape.views now.session.store)
        (later.tape.views later.session.store) ∧
      (reader.views later.session.store).map SegmentView.shown =
        (now.tape.views now.session.store).map SegmentView.shown ∧
      ((reader.setReader none).forEach Sample.coreVocabulary
        (.ofView fun _ count => (.ok (), count + 1)) 0
        { before.session with store := later.session.store }).1 =
      ((reader.setReader none).forEach Sample.coreVocabulary
        (.ofView fun _ count => (.ok (), count + 1)) 0 before.session).1 := by
  have hmade : Tape.withCapacity 12 = .ok Sample.tapeState.tape := rfl
  have hstays :=
    TapeState.published_stays (d := Sample.tapeState) (.withCapacity hmade) Sample.sharedSteps
  have hboth : ((Sample.tapeState.run Sample.sharedSteps).tape.handOff 3
      (Sample.tapeState.run Sample.sharedSteps).session).1.toOption.bind (fun m =>
        (Tape.receive m ((Sample.tapeState.run Sample.sharedSteps).run
          [.tryAppend (Sample.uniform Sample.byteKind 2)]).session :
            Outcome Failure (UInt64 × Tape Tallies) × _).1.toOption.map Prod.fst) = some 3 := by
    decide +kernel
  -- from here on the state is any in which this comes out well
  generalize Sample.tapeState.run Sample.sharedSteps = now at hstays hboth ⊢
  dsimp only at hstays ⊢
  cases hsent : (now.tape.handOff 3 now.session).1 with
  | error reason =>
    rw [hsent] at hboth
    cases hboth
  | ok m =>
    rw [hsent] at hboth
    cases htaken : (Tape.receive m
        (now.run [.tryAppend (Sample.uniform Sample.byteKind 2)]).session :
          Outcome Failure (UInt64 × Tape Tallies) × Session Tallies).1 with
    | error halt =>
      simp only [Except.toOption, Option.bind_some, htaken] at hboth
      cases hboth
    | ok taken =>
      obtain ⟨uid, reader⟩ := taken
      have hnamed : ∀ segment ∈ ([] : List Segment), segment.mapping.SharesItself := by simp
      obtain ⟨rfl, -, hafter, hplays⟩ := hstays.2 hnamed 3 m hsent
        [.tryAppend (Sample.uniform Sample.byteKind 2)]
        [.append (Sample.uniform Sample.trackedKind 3)] (by simp) Tallies _ uid reader rfl htaken
      have hgrows := hstays.1 [.tryAppend (Sample.uniform Sample.byteKind 2),
        .append (Sample.uniform Sample.trackedKind 3)] (by simp)
      refine ⟨m, reader, rfl, htaken, hgrows, hafter, ?_⟩
      exact (hplays Nat (Journal String) none Sample.coreVocabulary
        (fun _ count => (.ok (), count + 1)) 0 _
        { (now.run [.tryAppend (Sample.uniform Sample.byteKind 2)]).session with
          store := ((now.run [.tryAppend (Sample.uniform Sample.byteKind 2)]).run
            [.append (Sample.uniform Sample.trackedKind 3)]).session.store } rfl rfl rfl).1

end CommandTape
