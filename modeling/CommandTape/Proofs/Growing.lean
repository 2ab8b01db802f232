import CommandTape.Proofs.Steps

/-!
# What is shown only grows

Until a tape is cleared, what it shows stays: every segment keeps its place, and behind its bytes
come more at the most (`Contents.GrowsTo.views`). The memory that is shown is never written to again
either, so who else maps it reads the same (`Contents.GrowsTo.read_eq`). `Contents.Moves` lists all
that a step other than clearing can do to the contents of a tape; what a run does follows by
composition (`TapeState.growsTo_run`).
-/

namespace CommandTape

variable {σ : Type}

/-! ## Views that go on -/

namespace SegmentView

/-- The later view is one of the same segment, and shows the same bytes first. -/
structure GoesOnAs (view later : SegmentView) : Prop where
  id_eq : later.id = view.id
  descriptor_eq : later.descriptor = view.descriptor
  front : view.data.toList <+: later.data.toList

theorem GoesOnAs.refl (view : SegmentView) : view.GoesOnAs view := ⟨rfl, rfl, List.prefix_rfl⟩

theorem GoesOnAs.trans {view later last : SegmentView} (h : view.GoesOnAs later)
    (h' : later.GoesOnAs last) : view.GoesOnAs last :=
  ⟨h'.id_eq.trans h.id_eq, h'.descriptor_eq.trans h.descriptor_eq, h.front.trans h'.front⟩

/-- Every view is still in its place and goes on as it was, and all but the last are the same. -/
def GrowInto (before after : List SegmentView) : Prop :=
  ∀ (i : Nat) (view : SegmentView), before[i]? = some view →
    ∃ later, after[i]? = some later ∧ view.GoesOnAs later ∧ (i + 1 < before.length → later = view)

namespace GrowInto

variable {views views' views'' : List SegmentView}

/-- More views may come behind. -/
theorem append_right (views more : List SegmentView) : GrowInto views (views ++ more) := by
  intro i view hget
  have hlt : i < views.length := (List.getElem?_eq_some_iff.1 hget).1
  refine ⟨view, ?_, .refl view, fun _ => rfl⟩
  rw [List.getElem?_append_left hlt]
  exact hget

theorem refl (views : List SegmentView) : GrowInto views views := by
  intro i view hget
  exact ⟨view, hget, .refl view, fun _ => rfl⟩

/-- The last view may go on. -/
theorem concat (front : List SegmentView) {last last' : SegmentView} (h : last.GoesOnAs last') :
    GrowInto (front ++ [last]) (front ++ [last']) := by
  intro i view hget
  rw [List.length_append, List.length_singleton]
  by_cases hlt : i < front.length
  · rw [List.getElem?_append_left hlt] at hget ⊢
    exact ⟨view, hget, .refl view, fun _ => rfl⟩
  · have hle : front.length ≤ i := Nat.le_of_not_lt hlt
    rw [List.getElem?_append_right hle] at hget ⊢
    have hlast : i - front.length = 0 := by
      have hbound := (List.getElem?_eq_some_iff.1 hget).1
      simpa using hbound
    rw [hlast] at hget ⊢
    obtain rfl : last = view := Option.some.inj hget
    exact ⟨last', rfl, h, fun hbefore => absurd hbefore (by omega)⟩

theorem length_le (h : GrowInto views views') : views.length ≤ views'.length := by
  cases hlength : views.length with
  | zero => exact Nat.zero_le _
  | succ n =>
    have hlt : n < views.length := by omega
    obtain ⟨later, hlater, -⟩ := h n views[n] (List.getElem?_eq_getElem hlt)
    exact (List.getElem?_eq_some_iff.1 hlater).1

theorem trans (h : GrowInto views views') (h' : GrowInto views' views'') :
    GrowInto views views'' := by
  intro i view hget
  obtain ⟨later, hlater, hgoes, hsame⟩ := h i view hget
  obtain ⟨last, hlast, hgoes', hsame'⟩ := h' i later hlater
  refine ⟨last, hlast, hgoes.trans hgoes', ?_⟩
  intro hlt
  rw [hsame' (Nat.lt_of_lt_of_le hlt h.length_le), hsame hlt]

end GrowInto

end SegmentView

/-! ## Steps -/

namespace Contents

/-- What a step other than clearing does to contents: it leaves them as they are or begins a new
chapter, and then it may write a record behind the current one. Memory is kept, but for the record.
-/
inductive Moves (store : Store) (c : Contents) : Store → Contents → Prop
  | kept {store' : Store} {c' : Contents} (hkept : store.KeptIn store')
      (hturn : c' = c ∨ ∃ segment, c' = c.turn segment) : Moves store c store' c'
  | written {store' : Store} {c' : Contents} {chapter : Chapter} (r : Recorded)
      (hkept : store.KeptIn store') (hturn : c' = c ∨ ∃ segment, c' = c.turn segment)
      (hc : c'.current = some chapter) :
      Moves store c
        (store'.write chapter.segment.mapping.block chapter.text.length r.bytes) (c'.write r)

end Contents

/-- What recording an item does to the contents of a tape. -/
theorem Tape.Has.moves_tryAppend {tape : Tape σ} {s : Session σ} {c : Contents}
    (h : tape.Has s.store c) (item : Item) :
    ∃ c', (tape.tryAppend item s).2.1.Has (tape.tryAppend item s).2.2.store c' ∧
      c.Moves s.store (tape.tryAppend item s).2.2.store c' := by
  have happended := h.tryAppend item
  generalize tape.tryAppend item s = result at happended
  cases happended with
  | refused h' s' hkept hgone => exact ⟨c, h.mono hkept, .kept hkept (Or.inl rfl)⟩
  | readOnly next s' segment hreadOnly hkept hsame hnext hgone =>
    exact ⟨_, hnext, .kept hkept (Or.inr ⟨segment, rfl⟩)⟩
  | dropped s' hinline hrecord hkept hgone => exact ⟨c, h.mono hkept, .kept hkept (Or.inl rfl)⟩
  | stored r next s' c' chapter hrecord hkept hsame hturn hc hnext hgone =>
    exact ⟨_, hnext, .written r hkept hturn hc⟩

/-- Every step but clearing only moves the contents of a tape. -/
theorem Step.moves_perform {d : TapeState σ} {c : Contents} (h : d.tape.Has d.session.store c)
    {step : Step σ} (hclear : step ≠ .clear) :
    ∃ c', (step.perform d).tape.Has (step.perform d).session.store c' ∧
      c.Moves d.session.store (step.perform d).session.store c' := by
  have hkept {s : Session σ} (hstore : s.store = d.session.store) :
      ∃ c', d.tape.Has s.store c' ∧ c.Moves d.session.store s.store c' := by
    rw [hstore]
    exact ⟨c, h, .kept (.refl _) (Or.inl rfl)⟩
  cases step with
  | tryAppend item => exact h.moves_tryAppend item
  | append item =>
    rw [perform, Tape.ofResult_append]
    exact h.moves_tryAppend item
  | setWriter client => exact ⟨c, h.of_eq rfl rfl rfl rfl, .kept (.refl _) (Or.inl rfl)⟩
  | setReader client => exact ⟨c, h.of_eq rfl rfl rfl rfl, .kept (.refl _) (Or.inl rfl)⟩
  | createSegment minimum =>
    have hcreated := (d.tape.keptIn_createSegment minimum d.session).kept
    exact ⟨c, h.mono hcreated, .kept hcreated (Or.inl rfl)⟩
  | forEach v f start => exact hkept (d.tape.forEach_destroys v f start d.session).1
  | replay v context => exact hkept (d.tape.store_replay v context d.session)
  | handOff sender => exact hkept (d.tape.store_handOff sender d.session)
  | clear => exact absurd rfl hclear

/-! ## What is shown -/

namespace Contents

/-- What is shown of the segments that are only read. -/
def settled (c : Contents) (store : Store) : List SegmentView :=
  c.given.map (Segment.view store) ++ c.full.map (Chapter.view store)

/-- Behind the segments that are only read, the current chapter is shown once something is written
to it. -/
theorem views_eq_settled {c : Contents} {chapter : Chapter} (hc : c.current = some chapter)
    (hfull : ∀ chapter ∈ c.full, chapter.records ≠ []) (store : Store) :
    c.views store = c.settled store ++
      if chapter.records = [] then [] else [chapter.view store] := by
  have hfilter : c.full.filter (fun chapter => !chapter.records.isEmpty) = c.full := by
    rw [List.filter_eq_self]
    intro chapter hmem
    simp [hfull chapter hmem]
  rw [views, filled, chapters, hc, List.filter_append, hfilter, List.map_append, settled,
    List.append_assoc]
  by_cases hempty : chapter.records = []
  · simp [hempty, Segment.view]
  · simp [hempty, Segment.view]

end Contents

namespace Tape.Has

variable {tape : Tape σ} {store : Store} {c : Contents} {chapter : Chapter}

/-- The segments that are only read lie in other blocks than the one that is written to. -/
theorem settled_write (h : tape.Has store c) (hc : c.current = some chapter) (before : Store)
    (offset : Nat) (bs : Bytes) :
    c.settled (before.write chapter.segment.mapping.block offset bs) = c.settled before := by
  have hne : ∀ segment ∈ c.given ++ c.full.map Chapter.segment,
      chapter.segment.mapping.block ≠ segment.mapping.block := by
    intro segment hmem
    rw [← h.frozen] at hmem
    exact (h.apart chapter hc segment hmem).symm
  rw [Contents.settled, Contents.settled]
  congr 1
  · refine List.map_congr_left fun segment hmem => ?_
    rw [Segment.view, Segment.view, Segment.data, Segment.data,
      Store.block_write_of_ne _ _ _ (hne segment (List.mem_append_left _ hmem))]
  · refine List.map_congr_left fun other hmem => ?_
    have hother := hne other.segment (List.mem_append_right _ (List.mem_map_of_mem hmem))
    rw [Chapter.view, Chapter.view, Segment.data, Segment.data,
      Store.block_write_of_ne _ _ _ hother]

/-- Writing a record behind the current chapter makes the chapter's view go on. -/
theorem growInto_write {r : Recorded} {next : Tape σ} (hc : c.current = some chapter)
    (hlies : chapter.records ≠ [] → chapter.LiesIn store)
    (hnext : next.Has
      (store.write chapter.segment.mapping.block chapter.text.length r.bytes) (c.write r)) :
    SegmentView.GrowInto (c.views store) ((c.write r).views
      (store.write chapter.segment.mapping.block chapter.text.length r.bytes)) := by
  have hcurrent := Contents.current_write hc r
  have hfull : ∀ other ∈ c.full, other.records ≠ [] := fun other hmem => (hnext.full other hmem).1
  have hsettled : (c.write r).settled
      (store.write chapter.segment.mapping.block chapter.text.length r.bytes) =
        c.settled store := hnext.settled_write hcurrent store _ _
  have hwritten : (chapter.write r).records ≠ [] := by simp [Chapter.write]
  rw [Contents.views_eq_settled hc hfull, Contents.views_eq_settled hcurrent hfull, hsettled,
    if_neg hwritten]
  by_cases hempty : chapter.records = []
  · rw [if_pos hempty, List.append_nil]
    exact .append_right _ _
  · rw [if_neg hempty]
    refine .concat _ ⟨rfl, rfl, ?_⟩
    rw [(hlies hempty).toList_view,
      (hnext.chapters _ (mem_chapters_of_current hcurrent)).toList_view, chapter.text_write]
    exact List.prefix_append _ _

end Tape.Has

namespace Contents

variable {c c' : Contents} {store store' : Store} {tape next : Tape σ}

theorem views_of_turned (hturn : c' = c ∨ ∃ segment, c' = c.turn segment) (store : Store) :
    c'.views store = c.views store := by
  rcases hturn with rfl | ⟨segment, rfl⟩
  · rfl
  · exact c.views_turn segment store

/-- What is shown grows with every step but clearing. -/
theorem Moves.growInto (h : c.Moves store store' c') (hbefore : tape.Has store c)
    (hafter : next.Has store' c') :
    SegmentView.GrowInto (c.views store) (c'.views store') := by
  cases h with
  | kept hkept hturn =>
    rw [views_of_turned hturn, hbefore.views_mono hkept]
    exact .refl _
  | @written kept turned chapter r hkept hturn hc =>
    rw [← hbefore.views_mono hkept, ← views_of_turned hturn]
    refine Tape.Has.growInto_write hc (fun hne => ?_) hafter
    rcases hturn with rfl | ⟨segment, rfl⟩
    · exact (hbefore.mono hkept).chapters chapter (Tape.Has.mem_chapters_of_current hc)
    · -- nothing was written to a new chapter before
      obtain rfl : ⟨segment, []⟩ = chapter := Option.some.inj hc
      exact absurd rfl hne

/-! ## The memory that is shown -/

/-- The first `n` bytes of the block are memory that is shown. -/
def Covers (c : Contents) (block n : Nat) : Prop :=
  n = 0 ∨ (∃ segment ∈ c.given, segment.mapping.block = block) ∨
    ∃ chapter ∈ c.chapters, chapter.segment.mapping.block = block ∧ n ≤ chapter.text.length

variable {block n : Nat}

/-- A chapter that is left keeps its memory. -/
theorem Covers.turn (h : c.Covers block n) (segment : Segment) :
    (c.turn segment).Covers block n := by
  rcases h with hzero | hgiven | ⟨chapter, hmem, hblock, hle⟩
  · exact Or.inl hzero
  · exact Or.inr (Or.inl hgiven)
  · rcases List.mem_append.1 hmem with hfull | hcurrent
    · have hleft : chapter ∈ c.left := List.mem_append_left _ hfull
      exact Or.inr (Or.inr ⟨chapter, List.mem_append_left _ hleft, hblock, hle⟩)
    · by_cases hempty : chapter.records = []
      · rw [Chapter.text, hempty, Recorded.text_nil] at hle
        exact Or.inl (Nat.le_zero.1 hle)
      · have hfilled : chapter ∈ c.current.toList.filter fun chapter =>
            !chapter.records.isEmpty := by
          simpa [hempty] using hcurrent
        have hleft : chapter.close ∈ c.left :=
          List.mem_append_right _ (List.mem_map_of_mem hfilled)
        exact Or.inr (Or.inr ⟨chapter.close, List.mem_append_left _ hleft, hblock, hle⟩)

theorem Covers.of_turned (h : c.Covers block n) (hturn : c' = c ∨ ∃ segment, c' = c.turn segment) :
    c'.Covers block n := by
  rcases hturn with rfl | ⟨segment, rfl⟩
  · exact h
  · exact h.turn segment

theorem Covers.write (h : c.Covers block n) (r : Recorded) : (c.write r).Covers block n := by
  rcases h with hzero | hgiven | ⟨chapter, hmem, hblock, hle⟩
  · exact Or.inl hzero
  · exact Or.inr (Or.inl hgiven)
  · rcases List.mem_append.1 hmem with hfull | hcurrent
    · exact Or.inr (Or.inr ⟨chapter, List.mem_append_left _ hfull, hblock, hle⟩)
    · have hc : c.current = some chapter := Option.mem_toList.1 hcurrent
      have hwritten : chapter.write r ∈ (c.write r).chapters :=
        Tape.Has.mem_chapters_of_current (Contents.current_write hc r)
      refine Or.inr (Or.inr ⟨chapter.write r, hwritten, hblock, ?_⟩)
      rw [chapter.text_write, List.length_append]
      omega

theorem Moves.covers (h : c.Moves store store' c') (hcovers : c.Covers block n) :
    c'.Covers block n := by
  cases h with
  | kept hkept hturn => exact hcovers.of_turned hturn
  | written r hkept hturn hc => exact (hcovers.of_turned hturn).write r

/-- Memory that is shown is in the store. -/
theorem Covers.block_lt (h : c.Covers block n) (hhas : tape.Has store c) (hpos : n ≠ 0) :
    block < store.next := by
  rcases h with hzero | ⟨segment, hmem, rfl⟩ | ⟨chapter, hmem, rfl, -⟩
  · exact absurd hzero hpos
  · exact (hhas.given segment hmem).block_lt
  · exact (hhas.chapters chapter hmem).lies.block_lt

/-- A record that is written behind the current chapter leaves the memory that is shown. -/
theorem Covers.read_write {chapter : Chapter} (h : c.Covers block n) {r : Recorded}
    (hc : c.current = some chapter) {bs : Bytes}
    (hnext : next.Has store' (c.write r)) (store : Store) :
    (store.write chapter.segment.mapping.block chapter.text.length bs).read block 0 n =
      store.read block 0 n := by
  have hcurrent := Contents.current_write hc r
  have hne : ∀ segment ∈ c.given ++ c.full.map Chapter.segment,
      segment.mapping.block ≠ chapter.segment.mapping.block := by
    intro segment hmem
    refine hnext.apart _ hcurrent segment ?_
    rw [hnext.frozen]
    exact hmem
  by_cases hblock : chapter.segment.mapping.block = block
  · have hle : n ≤ chapter.text.length := by
      rcases h with hzero | ⟨segment, hmem, heq⟩ | ⟨other, hmem, heq, hle⟩
      · omega
      · exact absurd (heq.trans hblock.symm) (hne segment (List.mem_append_left _ hmem))
      · rcases List.mem_append.1 hmem with hfull | hother
        · refine absurd (heq.trans hblock.symm) (hne other.segment ?_)
          exact List.mem_append_right _ (List.mem_map_of_mem hfull)
        · rw [hc] at hother
          rwa [List.mem_singleton.1 hother] at hle
    subst hblock
    by_cases hlt : chapter.segment.mapping.block < store.next
    · rw [Store.read, Store.read, Store.block_write_self _ _ _ hlt, Block.read_write_before _ hle]
    · have hnone : store.get? chapter.segment.mapping.block = none :=
        Array.getElem?_eq_none (Nat.le_of_not_lt hlt)
      rw [Store.read, Store.read, Store.block, Store.block, Store.get?_write_self, hnone,
        Option.map_none]
  · rw [Store.read, Store.read, Store.block_write_of_ne _ _ _ hblock]

/-- No step but clearing changes the memory that is shown. -/
theorem Moves.read_eq (h : c.Moves store store' c') (hbefore : tape.Has store c)
    (hafter : next.Has store' c') (hcovers : c.Covers block n) :
    store'.read block 0 n = store.read block 0 n := by
  have hread {kept : Store} (hkept : store.KeptIn kept) :
      kept.read block 0 n = store.read block 0 n := by
    by_cases hzero : n = 0
    · subst hzero
      simp [Store.read, Block.read_eq]
    · rw [Store.read, Store.read, hkept.block_eq (hcovers.block_lt hbefore hzero)]
  cases h with
  | kept hkept hturn => exact hread hkept
  | @written kept turned chapter r hkept hturn hc =>
    rw [(hcovers.of_turned hturn).read_write hc hafter, hread hkept]

/-! ## Runs -/

/-- What steps without clearing make of contents: what is shown grows, and the memory that is shown
stays as it is. -/
structure GrowsTo (store : Store) (c : Contents) (store' : Store) (c' : Contents) : Prop where
  views : SegmentView.GrowInto (c.views store) (c'.views store')
  covers : ∀ block n, c.Covers block n → c'.Covers block n
  read_eq : ∀ block n, c.Covers block n → store'.read block 0 n = store.read block 0 n

theorem GrowsTo.refl (store : Store) (c : Contents) : c.GrowsTo store store c :=
  ⟨.refl _, fun _ _ h => h, fun _ _ _ => rfl⟩

theorem GrowsTo.trans {store'' : Store} {c'' : Contents} (h : c.GrowsTo store store' c')
    (h' : c'.GrowsTo store' store'' c'') : c.GrowsTo store store'' c'' := by
  refine ⟨h.views.trans h'.views, ?_, ?_⟩
  · intro block n hcovers
    exact h'.covers block n (h.covers block n hcovers)
  · intro block n hcovers
    rw [h'.read_eq block n (h.covers block n hcovers), h.read_eq block n hcovers]

theorem Moves.growsTo (h : c.Moves store store' c') (hbefore : tape.Has store c)
    (hafter : next.Has store' c') : c.GrowsTo store store' c' :=
  ⟨h.growInto hbefore hafter, fun _ _ => h.covers, fun _ _ => h.read_eq hbefore hafter⟩

end Contents

/-- What is shown grows in the course of any steps without clearing. -/
theorem TapeState.growsTo_run {d : TapeState σ} {c : Contents} (h : d.tape.Has d.session.store c)
    {steps : List (Step σ)} (hclear : Step.clear ∉ steps) :
    ∃ c', (d.run steps).tape.Has (d.run steps).session.store c' ∧
      c.GrowsTo d.session.store (d.run steps).session.store c' := by
  induction steps generalizing d c with
  | nil => exact ⟨c, h, .refl _ c⟩
  | cons step rest ih =>
    have hstep : step ≠ .clear := fun heq => hclear (heq ▸ List.mem_cons_self)
    obtain ⟨c', hnext, hmoves⟩ := Step.moves_perform h hstep
    obtain ⟨c'', hlast, hgrows⟩ := ih hnext fun hmem => hclear (List.mem_cons_of_mem _ hmem)
    exact ⟨c'', hlast, (hmoves.growsTo h hnext).trans hgrows⟩

end CommandTape
