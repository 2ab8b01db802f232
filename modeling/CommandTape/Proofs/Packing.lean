import CommandTape.Proofs.Placing
import CommandTape.Proofs.Sharing
import Mathlib.Data.List.Chain

/-!
# How few segments a tape takes

A tape puts a record behind the others as long as it fits, and only then turns to another segment.
So of two parts that follow one another, the first and the front of the second are too much for one
segment (`Recorded.FollowsFor`), and whoever divides the same records into parts that fit is never
ahead of the tape (`Recorded.length_le_of_followsFor`). The invariant that leads there is
`TapeState.Packs`.
-/

namespace CommandTape

variable {σ : Type}

/-! ## Parts of a row of records -/

namespace Recorded

theorem total_append (a b : List Recorded) : total (a ++ b) = total a + total b := by
  rw [← length_text, ← length_text, ← length_text, text_append, List.length_append]

theorem size_pos (r : Recorded) : 0 < r.size := by
  have hheader := r.headerSize_le_length_bytes
  have hpos : 0 < Layout.headerSize := by decide
  rw [r.length_bytes] at hheader
  omega

/-- The records may share a segment of the given capacity, or are only one. -/
def FitsIn (capacity : Nat) (part : List Recorded) : Prop :=
  (∃ r, part = [r]) ∨ total part ≤ capacity

/-- The first record of the second part is too much for the first part. -/
def FollowsFor (capacity : Nat) (part next : List Recorded) : Prop :=
  ∀ r ∈ next.head?, capacity < total part + r.size

/-- A part that starts no later than another and fits does not end later, if what follows that one
is too much for it. -/
theorem eq_nil_of_fitsIn {capacity : Nat} {extra part more : List Recorded}
    {rest : List (List Recorded)} (hne : part ≠ [])
    (hchain : List.IsChain (FollowsFor capacity) (part :: rest))
    (hrest : ∀ next ∈ rest, next ≠ []) (hfits : FitsIn capacity (extra ++ part ++ more))
    (hfront : more <+: rest.flatten) : more = [] := by
  cases more with
  | nil => rfl
  | cons r more =>
    exfalso
    cases rest with
    | nil => simp at hfront
    | cons next rest =>
      have hnext := hrest next List.mem_cons_self
      have hhead : next.head? = some r := by
        cases next with
        | nil => exact absurd rfl hnext
        | cons r' next =>
          rw [List.flatten_cons, List.cons_append, List.cons_prefix_cons] at hfront
          rw [hfront.1, List.head?_cons]
      have hmuch : capacity < total part + r.size :=
        (List.isChain_cons_cons.1 hchain).1 r hhead
      rcases hfits with ⟨only, hone⟩ | htotal
      · have hlength := congrArg List.length hone
        have hpos := List.length_pos_iff.2 hne
        simp only [List.length_append, List.length_cons, List.length_nil] at hlength
        omega
      · rw [total_append, total_append, total] at htotal
        omega

/-- Nobody divides records into fewer parts that fit. -/
theorem length_le_of_followsFor {capacity : Nat} {others parts : List (List Recorded)}
    {extra : List Recorded} (hchain : List.IsChain (FollowsFor capacity) parts)
    (hparts : ∀ part ∈ parts, part ≠ []) (hothers : ∀ other ∈ others, FitsIn capacity other)
    (hflatten : others.flatten = extra ++ parts.flatten) : parts.length ≤ others.length := by
  induction others generalizing parts extra with
  | nil =>
    cases parts with
    | nil => exact Nat.le_refl _
    | cons part rest =>
      have hne := hparts part List.mem_cons_self
      have hnil := List.append_eq_nil_iff.1 hflatten.symm
      exact absurd (List.append_eq_nil_iff.1 hnil.2).1 hne
  | cons other others ih =>
    cases parts with
    | nil => exact Nat.zero_le _
    | cons part rest =>
      have hne := hparts part List.mem_cons_self
      have hrest : ∀ next ∈ rest, next ≠ [] := fun next hmem =>
        hparts next (List.mem_cons_of_mem _ hmem)
      have hfits := hothers other List.mem_cons_self
      -- the other part ends no later than this one, so what is left starts no later either
      have hleft : ∃ extra', others.flatten = extra' ++ rest.flatten := by
        rw [List.flatten_cons, List.flatten_cons, ← List.append_assoc] at hflatten
        rcases List.append_eq_append_iff.1 hflatten with
          ⟨extra', -, hothers⟩ | ⟨more, hother, hrest'⟩
        · exact ⟨extra', hothers⟩
        · rw [hother] at hfits
          have hmore := eq_nil_of_fitsIn hne hchain hrest hfits ⟨_, hrest'.symm⟩
          refine ⟨[], ?_⟩
          rw [hrest', hmore]
          rfl
      obtain ⟨extra', hflatten'⟩ := hleft
      have hlength := ih hchain.tail hrest
        (fun other hmem => hothers other (List.mem_cons_of_mem _ hmem)) hflatten'
      exact Nat.succ_le_succ hlength

end Recorded

/-! ## The capacity of segments -/

/-- A tape as it is made, and the capacity of the segments that it allocates for itself. -/
inductive Tape.MadeFor (store : Store) : Tape σ → List Segment → Nat → Prop
  | withCapacity {capacity : Nat} {tape : Tape σ} (h : Tape.withCapacity capacity = .ok tape) :
      MadeFor store tape [] (Layout.roundUp (max capacity Layout.headerSize))
  | ofSegments {segments : List Segment} (h : ∀ segment ∈ segments, segment.LiesIn store) :
      MadeFor store (.ofSegments segments) segments Layout.defaultCapacity

/-- The least capacity of segments, if a tape allocates them that was made for one of its own, or if
they are supplied in shared memory. -/
inductive Obtaining (own : Nat) : Option (WritingClient σ) → Nat → Prop
  | allocated : Obtaining own none own
  | shared {machine : Machine} {name : String} {capacity : Nat}
      {encode : View → σ → Except Fault (Option Bytes) × σ} {client : WritingClient σ}
      (h : SharedMemory.client machine name capacity encode = .ok client) :
      Obtaining own (some client) (Layout.roundUp (max capacity Layout.alignment))

theorem Tape.MadeFor.fresh {store : Store} {tape : Tape σ} {segments : List Segment} {own : Nat}
    (h : tape.MadeFor store segments own) : tape.Fresh store segments := by
  cases h with
  | withCapacity h => exact .withCapacity h
  | ofSegments h => exact .ofSegments h

theorem Tape.MadeFor.segmentCapacity_eq {store : Store} {tape : Tape σ} {segments : List Segment}
    {own : Nat} (h : tape.MadeFor store segments own) : tape.segmentCapacity = own := by
  cases h with
  | withCapacity h => exact segmentCapacity_of_withCapacity h
  | ofSegments h => rfl

theorem Tape.MadeFor.own_mod {store : Store} {tape : Tape σ} {segments : List Segment} {own : Nat}
    (h : tape.MadeFor store segments own) : own % 8 = 0 := by
  rw [← h.segmentCapacity_eq]
  exact h.fresh.capacity_mod

theorem WritingClient.OffersShared.offersWritable {client : WritingClient σ} {machine : Machine}
    (h : client.OffersShared machine) : client.OffersWritable := by
  intro size next state supply clients offer hsupply hoffer
  exact (h size next state supply clients offer hsupply hoffer).writable

/-- The size of shared memory is the larger of what is asked for and what the client was set to. -/
theorem SharedMemory.size_of_supply {machine : Machine} {name : String} {capacity minimum : Nat}
    {next : SegmentId} {answer : Supply} {offer : Offer} (hcapacity : capacity % 8 = 0)
    (hminimum : minimum % 8 = 0) (h : supply machine name capacity minimum next = .ok answer)
    (hoffer : answer.offer = some offer) :
    offer.block.size = max minimum capacity := by
  have hmod : max minimum capacity % 8 = 0 := by omega
  obtain ⟨block, hcreate, rfl⟩ := supply_eq_ok h hoffer
  rw [Layout.roundUp_eq_self hmod] at hcreate
  exact (create_eq_ok hcreate).1

theorem Session.capacity_of_allocate {s s' : Session σ} {capacity : Nat} {segment : Segment}
    (h : s.allocate capacity = (.ok segment, s')) :
    segment.capacity = capacity ∧ segment.mapping.length = capacity := by
  rcases s.allocate_cases capacity with
    ⟨h', heq⟩ | ⟨other, t, heq, hadds, hcapacity, -, -⟩
  · cases h.symm.trans heq
  · rw [Except.ok.inj (Prod.mk.inj (h.symm.trans heq)).1, ← hadds.capacity_eq]
    exact ⟨hcapacity, hcapacity⟩

/-- Whether it is allocated or supplied, a segment is as large as segments are at least, or as large
as it has to be. -/
theorem Tape.capacity_of_createSegment {tape : Tape σ} {capacity size : Nat}
    (hobtaining : Obtaining tape.segmentCapacity tape.writer capacity) (hmod : size % 8 = 0)
    {s s' : Session σ} {segment : Segment}
    (hcreate : tape.createSegment size s = (.ok segment, s')) :
    segment.capacity = max size capacity ∧ segment.mapping.length = max size capacity := by
  have hle : size ≤ Layout.memoryLimit := by
    rcases tape.createSegment_cases size s with
      ⟨h, t, heq, -⟩ | ⟨other, t, heq, -, hsize, -⟩
    · cases hcreate.symm.trans heq
    · have hcap := other.capacity_le
      have hmap := other.mapping.length_lt
      omega
  generalize hwriter : tape.writer = writer at hobtaining
  cases hobtaining with
  | allocated =>
    rw [createSegment_of_no_writer hwriter hmod (Word.add_lt_limit hle), allocated] at hcreate
    rcases hmade : s.allocate (max size tape.segmentCapacity) with ⟨h | own, t⟩
    · rw [hmade] at hcreate
      cases hcreate
    · rw [hmade] at hcreate
      rw [← Except.ok.inj (Prod.mk.inj hcreate).1]
      exact Session.capacity_of_allocate hmade
  | shared hclient =>
    rw [createSegment_of_writer hwriter hmod (Word.add_lt_limit hle)] at hcreate
    obtain ⟨answer, clients, offer, hsupply, hoffer, rfl⟩ := supplied_eq_ok hcreate
    rw [SharedMemory.supply_client hclient] at hsupply
    have hsize := SharedMemory.size_of_supply (Layout.roundUp_mod _) hmod
      (Prod.mk.inj hsupply).1 hoffer
    obtain ⟨-, hlength, -⟩ :=
      Session.mapping_adopt (s.asked answer clients) offer
    have hadds := (s.asked answer clients).adds_adopt offer
    rw [hadds.capacity_eq, hlength, hsize]
    exact ⟨rfl, rfl⟩

/-! ## How a tape packs -/

namespace Contents

/-- The parts that the records lie on the tape in. -/
def parts (c : Contents) : List (List Recorded) := c.chapters.map Chapter.records

theorem flatten_parts (c : Contents) : c.parts.flatten = c.records := List.flatMap_def.symm

theorem parts_write {c : Contents} {chapter : Chapter} (h : c.current = some chapter)
    (r : Recorded) :
    (c.write r).parts = c.full.map Chapter.records ++ [chapter.records ++ [r]] := by
  simp [parts, chapters, write, h, Chapter.write]

theorem parts_of_current {c : Contents} {chapter : Chapter} (h : c.current = some chapter) :
    c.parts = c.full.map Chapter.records ++ [chapter.records] := by
  simp [parts, chapters, h]

/-- A record that begins a new chapter leaves the parts as they are, and begins a new one. -/
theorem parts_turn_write {c : Contents} (h : ∀ chapter ∈ c.current, chapter.records ≠ [])
    (segment : Segment) (r : Recorded) : ((c.turn segment).write r).parts = c.parts ++ [[r]] := by
  cases hc : c.current with
  | none => simp [parts, chapters, write, turn, left, hc, Chapter.write]
  | some chapter =>
    have hne : chapter.records ≠ [] := h chapter hc
    simp [parts, chapters, write, turn, left, hc, hne, Chapter.write, Chapter.close]

end Contents

/-- The tape has nothing but records of its own, in parts that fit segments of the given capacity,
each of which began because it had to. The segment that is written to is no larger than that, unless
its first record is. -/
structure TapeState.Packs (d : TapeState σ) (c : Contents) (capacity : Nat) : Prop where
  ready : d.tape.Ready d.session.store c
  given_eq : c.given = []
  full_eq : c.current = none → c.full = []
  obtaining : Obtaining d.tape.segmentCapacity d.tape.writer capacity
  ne_nil : ∀ part ∈ c.parts, part ≠ []
  fits : ∀ part ∈ c.parts, Recorded.FitsIn capacity part
  chain : List.IsChain (Recorded.FollowsFor capacity) c.parts
  room : ∀ chapter ∈ c.current, ∀ r ∈ chapter.records.head?,
    chapter.segment.capacity = max r.size capacity

namespace TapeState.Packs

variable {d : TapeState σ} {c : Contents} {capacity : Nat}

theorem of_keptIn (h : d.Packs c capacity) {s : Session σ}
    (hkept : d.session.store.KeptIn s.store) : TapeState.Packs ⟨d.tape, s⟩ c capacity :=
  ⟨h.ready.mono hkept, h.given_eq, h.full_eq, h.obtaining, h.ne_nil, h.fits, h.chain, h.room⟩

theorem of_store_eq (h : d.Packs c capacity) {s : Session σ}
    (hstore : s.store = d.session.store) : TapeState.Packs ⟨d.tape, s⟩ c capacity := by
  refine h.of_keptIn ?_
  rw [hstore]
  exact .refl _

theorem records_ne_nil (h : d.Packs c capacity) {chapter : Chapter}
    (hc : c.current = some chapter) : chapter.records ≠ [] := by
  refine h.ne_nil _ ?_
  rw [Contents.parts_of_current hc]
  exact List.mem_append_right _ (List.mem_singleton_self _)

theorem exists_first (h : d.Packs c capacity) {chapter : Chapter}
    (hc : c.current = some chapter) : ∃ r rest, chapter.records = r :: rest ∧
      chapter.segment.capacity = max r.size capacity := by
  obtain ⟨r, rest, hrecords⟩ := List.exists_cons_of_ne_nil (h.records_ne_nil hc)
  refine ⟨r, rest, hrecords, h.room chapter hc r ?_⟩
  rw [hrecords]
  rfl

variable {r : Recorded} {last : Tape σ} {s' : Session σ}

/-- A record that fits goes to the part that is being written. -/
theorem write (h : d.Packs c capacity) {chapter : Chapter} (hc : c.current = some chapter)
    (hfits : chapter.text.length + r.size ≤ chapter.segment.capacity)
    (hsame : d.tape.SameSetup last) (hhas : last.Has s'.store (c.write r)) :
    TapeState.Packs ⟨last, s'⟩ (c.write r) capacity := by
  obtain ⟨first, rest, hrecords, hcapacity⟩ := h.exists_first hc
  have hparts := Contents.parts_of_current hc
  have hne := h.ne_nil
  have hfit := h.fits
  have hchain := h.chain
  rw [hparts] at hne hfit hchain
  have hlast : Recorded.FitsIn capacity (chapter.records ++ [r]) := by
    have hpos := r.size_pos
    rw [Chapter.text, Recorded.length_text, hcapacity] at hfits
    have htotal : first.size ≤ Recorded.total chapter.records := by
      rw [hrecords, Recorded.total]
      exact Nat.le_add_right _ _
    refine Or.inr ?_
    rw [Recorded.total_append, Recorded.total, Recorded.total]
    omega
  have hhead : (chapter.records ++ [r]).head? = chapter.records.head? := by
    rw [hrecords]
    rfl
  have hcurrent := Contents.current_write hc r
  refine ⟨h.ready.write hsame hhas hc, h.given_eq, ?_, ?_, ?_, ?_, ?_, ?_⟩
  · intro hnone
    cases hcurrent.symm.trans hnone
  · rw [hsame.segmentCapacity_eq, hsame.writer_eq]
    exact h.obtaining
  · intro part hmem
    rw [Contents.parts_write hc] at hmem
    rcases List.mem_append.1 hmem with hmem | hmem
    · exact hne part (List.mem_append_left _ hmem)
    · rw [List.mem_singleton.1 hmem]
      exact List.append_ne_nil_of_right_ne_nil _ (List.cons_ne_nil _ _)
  · intro part hmem
    rw [Contents.parts_write hc] at hmem
    rcases List.mem_append.1 hmem with hmem | hmem
    · exact hfit part (List.mem_append_left _ hmem)
    · rw [List.mem_singleton.1 hmem]
      exact hlast
  · obtain ⟨hfull, -, hjoin⟩ := List.isChain_append.1 hchain
    rw [Contents.parts_write hc]
    refine List.isChain_append.2 ⟨hfull, List.isChain_singleton _, ?_⟩
    intro part hpart next hnext
    obtain rfl := Option.some.inj hnext
    intro r' hr'
    rw [hhead] at hr'
    exact hjoin part hpart chapter.records rfl r' hr'
  · intro other hother r' hr'
    obtain rfl := Option.some.inj (hcurrent.symm.trans hother)
    have hr' : r' ∈ (chapter.records ++ [r]).head? := hr'
    rw [hhead] at hr'
    exact h.room chapter hc r' hr'

/-- A record that does not fit begins a part. -/
theorem turn_write (h : d.Packs c capacity) {segment : Segment}
    (hlacks : d.tape.LacksRoom r.size) (hcapacity : segment.capacity = max r.size capacity)
    (hsame : d.tape.SameSetup last) (hhas : last.Has s'.store ((c.turn segment).write r)) :
    TapeState.Packs ⟨last, s'⟩ ((c.turn segment).write r) capacity := by
  have hnew : ∀ chapter ∈ c.current, chapter.records ≠ [] := fun chapter hc => h.records_ne_nil hc
  have hparts := Contents.parts_turn_write hnew segment r
  refine ⟨h.ready.write hsame hhas rfl, h.given_eq, ?_, ?_, ?_, ?_, ?_, ?_⟩
  · intro hnone
    cases hnone
  · rw [hsame.segmentCapacity_eq, hsame.writer_eq]
    exact h.obtaining
  · intro part hmem
    rw [hparts] at hmem
    rcases List.mem_append.1 hmem with hmem | hmem
    · exact h.ne_nil part hmem
    · rw [List.mem_singleton.1 hmem]
      exact List.cons_ne_nil _ _
  · intro part hmem
    rw [hparts] at hmem
    rcases List.mem_append.1 hmem with hmem | hmem
    · exact h.fits part hmem
    · exact Or.inl ⟨r, List.mem_singleton.1 hmem⟩
  · rw [hparts]
    refine List.isChain_append.2 ⟨h.chain, List.isChain_singleton _, ?_⟩
    intro part hpart next hnext r' hr'
    obtain rfl := Option.some.inj hnext
    obtain rfl := Option.some.inj hr'
    cases hc : c.current with
    | none =>
      simp [Contents.parts, Contents.chapters, hc, h.full_eq hc] at hpart
    | some chapter =>
      obtain ⟨first, rest, -, hroom⟩ := h.exists_first hc
      have hlast : part = chapter.records := by
        rw [Contents.parts_of_current hc, List.getLast?_concat] at hpart
        exact (Option.some.inj hpart).symm
      have hsegment : d.tape.writable = some chapter.segment := by
        rw [h.ready.has.writable, hc]
        rfl
      have hmuch := hlacks chapter.segment hsegment
      rw [h.ready.has.written_eq hc, Chapter.text, Recorded.length_text, hroom] at hmuch
      rw [hlast]
      omega
  · intro chapter hchapter r' hr'
    obtain rfl := Option.some.inj hchapter
    obtain rfl := Option.some.inj hr'
    exact hcapacity

/-- Recording an item adds its record to the parts, or leaves them as they are. -/
theorem tryAppend (h : d.Packs c capacity) (item : Item) :
    ∃ c', (TapeState.ofResult (d.tape.tryAppend item d.session)).Packs c' capacity ∧
      c'.records = c.records ++ d.tape.recorded item d.session := by
  have hnothing : ∀ s : Session σ, d.session.store.KeptIn s.store →
      ∃ c', TapeState.Packs ⟨d.tape, s⟩ c' capacity ∧ c'.records = c.records ++ [] := by
    intro s hkept
    exact ⟨c, h.of_keptIn hkept, (List.append_nil _).symm⟩
  by_cases hfits : item.kind.fits = true
  · cases hrecord : d.tape.recordOf item d.session with
    | none =>
      obtain ⟨htape, hstore, -, -⟩ := Tape.tryAppend_of_no_record hfits hrecord
      have hrecorded : d.tape.recorded item d.session = [] := by
        rw [Tape.recorded, hrecord]
        cases (d.tape.tryAppend item d.session).1 <;> rfl
      rw [hrecorded, TapeState.ofResult, htape]
      exact hnothing _ (hstore ▸ .refl _)
    | some r =>
      have hrecords := h.ready.records hfits hrecord
      unfold Tape.recorded
      rw [hrecord]
      generalize d.tape.tryAppend item d.session = result at hrecords
      cases hrecords with
      | tooLarge h' s' hlarge hplace hkept => exact hnothing s' hkept
      | refused h' s₁ s' hlacks hcreate hplace hstore hclients =>
        exact hnothing s' (hstore ▸ Tape.kept_of_createSegment hcreate)
      | here last chapter hroom hc hfits' hplace hsame hhas =>
        exact ⟨_, h.write hc hfits' hsame hhas, c.records_write hc r⟩
      | turned last s₁ s' segment hlacks hcreate hstore hclients hfits' hwritable hplace hsame
          hhas =>
        obtain ⟨hcapacity, -⟩ := Tape.capacity_of_createSegment h.obtaining r.size_mod hcreate
        refine ⟨_, h.turn_write hlacks hcapacity hsame hhas, ?_⟩
        rw [Contents.records_write rfl, Contents.records_turn]
        rfl
  · rw [Tape.recorded, Tape.tryAppend, if_neg hfits]
    exact hnothing _ (.refl _)

end TapeState.Packs

/-- The step neither clears the tape nor changes where segments come from. -/
def Step.Continues : Step σ → Prop
  | setWriter _ => False
  | clear => False
  | _ => True

namespace TapeState.Packs

variable {d : TapeState σ} {c : Contents} {capacity : Nat}

theorem perform (h : d.Packs c capacity) (step : Step σ) (hstep : step.Continues) :
    ∃ c', (step.perform d).Packs c' capacity ∧ c'.records = step.log d c.records := by
  cases step with
  | tryAppend item => exact h.tryAppend item
  | append item =>
    rw [Step.perform, Tape.ofResult_append]
    exact h.tryAppend item
  | setWriter client => exact hstep.elim
  | setReader client =>
    exact ⟨c, ⟨h.ready.setReader client, h.given_eq, h.full_eq, h.obtaining, h.ne_nil, h.fits,
      h.chain, h.room⟩, rfl⟩
  | createSegment minimum =>
    exact ⟨c, h.of_keptIn (d.tape.keptIn_createSegment minimum d.session).kept, rfl⟩
  | forEach v f start =>
    exact ⟨c, h.of_store_eq (d.tape.forEach_destroys v f start d.session).1, rfl⟩
  | replay v context => exact ⟨c, h.of_store_eq (d.tape.store_replay v context d.session), rfl⟩
  | handOff sender => exact ⟨c, h.of_store_eq (d.tape.store_handOff sender d.session), rfl⟩
  | clear => exact hstep.elim

theorem run (h : d.Packs c capacity) {steps : List (Step σ)}
    (hsteps : ∀ step ∈ steps, step.Continues) :
    ∃ c', (d.run steps).Packs c' capacity ∧ c'.records = d.log c.records steps := by
  induction steps generalizing d c with
  | nil => exact ⟨c, h, rfl⟩
  | cons step rest ih =>
    obtain ⟨c', hstep, hrecords⟩ := h.perform step (hsteps step List.mem_cons_self)
    obtain ⟨last, hlast, hlog⟩ := ih hstep
      fun other hmem => hsteps other (List.mem_cons_of_mem _ hmem)
    refine ⟨last, hlast, ?_⟩
    rw [hlog, hrecords, log]

/-- What the tape shows are its parts. -/
theorem toList_views (h : d.Packs c capacity) :
    (d.tape.views d.session.store).map (fun view => view.data.toList) =
      c.parts.map Recorded.text := by
  have hfilled : c.filled = c.chapters := by
    refine List.filter_eq_self.2 fun chapter hmem => ?_
    simp [h.ne_nil _ (List.mem_map_of_mem hmem)]
  rw [h.ready.has.views_eq, Contents.views, h.given_eq, List.map_nil, List.nil_append,
    h.ready.has.toList_views, hfilled, Contents.parts, List.map_map]
  rfl

theorem segmentCount_eq (h : d.Packs c capacity) : d.tape.segmentCount = c.parts.length := by
  have hlength := congrArg List.length h.toList_views
  rw [List.length_map, List.length_map] at hlength
  rw [h.ready.has.segmentCount_eq, ← h.ready.has.views_eq, hlength]

/-- Room that is just enough is enough. -/
theorem stays (h : d.Packs c capacity) {item : Item} (hfits : item.kind.fits = true)
    {r : Recorded} (hrecord : d.tape.recordOf item d.session = some r) {segment : Segment}
    (hsegment : d.tape.writable = some segment)
    (hroom : d.tape.written + r.size ≤ segment.capacity) :
    let next := d.tape.tryAppend item d.session
    next.1 = .ok () ∧ next.2.1.frozen = d.tape.frozen ∧ next.2.1.writable = some segment := by
  have hnot : ¬d.tape.LacksRoom r.size := fun hlacks =>
    absurd (hlacks segment hsegment) (Nat.not_lt.2 hroom)
  have hrecords := h.ready.records hfits hrecord
  generalize d.tape.tryAppend item d.session = result at hrecords
  cases hrecords with
  | tooLarge h' s' hlarge hplace hkept =>
    have hcap := segment.capacity_le
    have hmap := segment.mapping.length_lt
    omega
  | refused h' s₁ s' hlacks hcreate hplace hstore hclients => exact absurd hlacks hnot
  | here last chapter _ hc hfits' hplace hsame hhas =>
    refine ⟨rfl, hhas.frozen.trans h.ready.has.frozen.symm, ?_⟩
    rw [← hsegment, hhas.writable, h.ready.has.writable, Contents.write, hc]
    rfl
  | turned last s₁ s' other hlacks hcreate hstore hclients hfits' hwritable hplace hsame hhas =>
    exact absurd hlacks hnot

/-- A record that is larger than segments are has a segment of its own size. -/
theorem own_segment (h : d.Packs c capacity) {item : Item} (hfits : item.kind.fits = true)
    {r : Recorded} (hrecord : d.tape.recordOf item d.session = some r)
    (hlarge : capacity < r.size) :
    let next := d.tape.tryAppend item d.session
    next.1 = .ok () → next.2.1.written = r.size ∧
      ∃ segment ∈ next.2.1.writable, segment.capacity = r.size ∧
        segment.mapping.length = r.size := by
  have hrecords := h.ready.records hfits hrecord
  generalize d.tape.tryAppend item d.session = result at hrecords
  intro next hok
  cases hrecords with
  | tooLarge h' s' hlarge hplace hkept => cases hok
  | refused h' s₁ s' hlacks hcreate hplace hstore hclients => cases hok
  | here last chapter hroom hc hfits' hplace hsame hhas =>
    -- the first record of the chapter leaves no room for one that is larger than segments are
    obtain ⟨first, rest, hrecords, hcapacity⟩ := h.exists_first hc
    rw [Chapter.text, Recorded.length_text, hrecords, Recorded.total, hcapacity] at hfits'
    omega
  | turned last s₁ s' segment hlacks hcreate hstore hclients hfits' hwritable hplace hsame hhas =>
    obtain ⟨hcapacity, hlength⟩ := Tape.capacity_of_createSegment h.obtaining r.size_mod hcreate
    have hmax : max r.size capacity = r.size := Nat.max_eq_left (Nat.le_of_lt hlarge)
    rw [hmax] at hcapacity hlength
    have hcurrent : ((c.turn segment).write r).current = some ⟨segment, [r]⟩ := rfl
    refine ⟨?_, segment, ?_, hcapacity, hlength⟩
    · show last.written = r.size
      rw [hhas.written_eq hcurrent, Chapter.text, Recorded.length_text, Recorded.total,
        Recorded.total, Nat.add_zero]
    · show last.writable = some segment
      rw [hhas.writable, hcurrent]
      rfl

end TapeState.Packs

/-! ## The least count of segments -/

/-- Steps keep the capacity that the tape was made with. -/
theorem Step.segmentCapacity_perform {d : TapeState σ} {given : List Segment}
    {records : List Recorded} (h : d.Holds given records) (step : Step σ) :
    (step.perform d).tape.segmentCapacity = d.tape.segmentCapacity := by
  obtain ⟨c, hhas, -, -⟩ := h
  cases step with
  | tryAppend item => exact (hhas.sameSetup_tryAppend item).segmentCapacity_eq
  | append item =>
    rw [perform, Tape.ofResult_append]
    exact (hhas.sameSetup_tryAppend item).segmentCapacity_eq
  | clear =>
    obtain ⟨next, s', heq, -, -, -, hsame⟩ := hhas.clear
    rw [perform, heq]
    exact hsame.segmentCapacity_eq
  | _ => rfl

theorem TapeState.segmentCapacity_run {d : TapeState σ} {given : List Segment}
    {records : List Recorded} (h : d.Holds given records) (steps : List (Step σ)) :
    (d.run steps).tape.segmentCapacity = d.tape.segmentCapacity := by
  induction steps generalizing d given records with
  | nil => rfl
  | cons step rest ih =>
    rw [run, ih (step.holds_perform h), step.segmentCapacity_perform h]

/-- A tape as it is made, or as it is whenever it was cleared, and the capacity that it was made
for. -/
inductive TapeState.Started (own : Nat) : TapeState σ → Prop
  | made {tape : Tape σ} {s : Session σ} (h : tape.MadeFor s.store [] own) : Started own ⟨tape, s⟩
  | cleared {d : TapeState σ} {segments : List Segment}
      (h : d.tape.MadeFor d.session.store segments own) (steps : List (Step σ)) :
      Started own (d.run (steps ++ [.clear]))

namespace TapeState

variable {d : TapeState σ} {own capacity : Nat} {client : Option (WritingClient σ)}

/-- There is nothing on such a tape. -/
theorem Started.has (h : d.Started own) :
    d.tape.Has d.session.store ⟨[], [], none⟩ ∧ d.tape.segmentCapacity = own := by
  cases h with
  | @made tape s h =>
    refine ⟨?_, h.segmentCapacity_eq⟩
    cases h with
    | withCapacity h =>
      obtain ⟨segmentCapacity, rfl⟩ := Tape.eq_of_withCapacity h
      exact Tape.has_nothing rfl rfl rfl rfl _
    | ofSegments h => exact Tape.has_ofSegments h
  | @cleared d segments h steps =>
    have hholds : d.Holds segments [] := h.fresh.holds
    obtain ⟨c, hhas, -, -⟩ := holds_run hholds steps
    obtain ⟨next, s', heq, -, -, hnext, -⟩ := hhas.clear
    have hrun : d.run (steps ++ [.clear]) = ⟨next, s'⟩ := by
      rw [run_append]
      show TapeState.ofResult _ = _
      rw [heq]
      rfl
    have hcapacity :=
      (segmentCapacity_run hholds (steps ++ [.clear])).trans h.segmentCapacity_eq
    rw [hrun] at hcapacity ⊢
    exact ⟨hnext, hcapacity⟩

theorem Started.own_mod (h : d.Started own) : own % 8 = 0 := by
  cases h with
  | made h => exact h.own_mod
  | cleared h steps => exact h.own_mod

theorem Obtaining.offersWritable (h : Obtaining own client capacity) :
    ∀ made ∈ client, made.OffersWritable := by
  intro made hmade
  cases h with
  | allocated => cases hmade
  | shared hclient =>
    obtain rfl := Option.some.inj hmade
    exact (SharedMemory.offersShared_client hclient).offersWritable

theorem Started.packs (h : d.Started own) (hobtaining : Obtaining own client capacity) :
    TapeState.Packs ⟨d.tape.setWriter client, d.session⟩ ⟨[], [], none⟩ capacity := by
  have hown := h.own_mod
  obtain ⟨hhas, rfl⟩ := h.has
  have hwritable : d.tape.writable = none := hhas.writable
  refine ⟨⟨hhas.of_eq rfl rfl rfl rfl, hown, Obtaining.offersWritable hobtaining, ?_⟩, rfl,
    fun _ => rfl, hobtaining, ?_, ?_, List.isChain_nil, ?_⟩
  · simp [Tape.setWriter, hwritable]
  · simp [Contents.parts, Contents.chapters]
  · simp [Contents.parts, Contents.chapters]
  · simp

/-- A tape that is made or cleared, and that allocates its segments or is supplied with shared
memory, takes no more segments than it has to: what it shows are the records in a row of parts, each
of which fits a segment or is one record, and there is no way to divide the same records into fewer.
What still fits stays in the segment, be it to the last byte, and what is larger than segments are
has one of its own size. -/
theorem fewest_segments (hstarted : d.Started own) (hobtaining : Obtaining own client capacity)
    {steps : List (Step σ)} (hsteps : ∀ step ∈ steps, step.Continues) :
    let start : TapeState σ := ⟨d.tape.setWriter client, d.session⟩
    let last := start.run steps
    (∃ parts : List (List Recorded), parts.flatten = start.log [] steps ∧
      (last.tape.views last.session.store).map (fun view => view.data.toList) =
        parts.map Recorded.text ∧
      last.tape.segmentCount = parts.length ∧
      ∀ part ∈ parts, part ≠ [] ∧ Recorded.FitsIn capacity part) ∧
    (∀ others : List (List Recorded), others.flatten = start.log [] steps →
      (∀ other ∈ others, Recorded.FitsIn capacity other) →
        last.tape.segmentCount ≤ others.length) ∧
    ∀ item r, item.kind.fits = true → last.tape.recordOf item last.session = some r →
      let next := last.tape.tryAppend item last.session
      (∀ segment, last.tape.writable = some segment →
        last.tape.written + r.size ≤ segment.capacity →
          next.1 = .ok () ∧ next.2.1.frozen = last.tape.frozen ∧
            next.2.1.writable = some segment) ∧
      (capacity < r.size → next.1 = .ok () → next.2.1.written = r.size ∧
        ∃ segment ∈ next.2.1.writable, segment.capacity = r.size ∧
          segment.mapping.length = r.size) := by
  intro start last
  obtain ⟨c, hlast, hrecords⟩ := (hstarted.packs hobtaining).run hsteps
  have hflatten : c.parts.flatten = start.log [] steps := c.flatten_parts.trans hrecords
  refine ⟨⟨c.parts, hflatten, hlast.toList_views, hlast.segmentCount_eq, ?_⟩, ?_, ?_⟩
  · intro part hmem
    exact ⟨hlast.ne_nil part hmem, hlast.fits part hmem⟩
  · intro others hothers hfits
    rw [hlast.segmentCount_eq]
    have hsame : others.flatten = [] ++ c.parts.flatten := hothers.trans hflatten.symm
    exact Recorded.length_le_of_followsFor hlast.chain hlast.ne_nil hfits hsame
  · intro item r hfits hrecord
    exact ⟨fun segment hsegment hroom => hlast.stays hfits hrecord hsegment hroom,
      fun hlarge hok => hlast.own_segment hfits hrecord hlarge hok⟩

end TapeState

namespace Sample

/-- A client for shared memory, in segments of twenty bytes or, rounded up, of twenty-four. -/
def smallClient : WritingClient Tallies where
  supply minimum next state := (SharedMemory.supply machine "tape" 24 minimum next, state)
  encode := Encoder.core.counted 0

/-- Records that fill a segment, or take most of one, or more than one has. -/
def packedSteps : List (Step Tallies) :=
  [.append (blob [1, 2, 3]), .append (uniform byteKind 1), .append (uniform byteKind 2),
    .append (blob (List.replicate 20 7))]

end Sample

/-- Twenty-four bytes fill the first segment, sixteen and sixteen are too much for one, and forty
have a segment of their own; nobody does with fewer than these four. -/
theorem TapeState.fewest_segments_sample :
    let start : TapeState Tallies := ⟨Sample.tapeState.tape.setWriter (some Sample.smallClient),
      Sample.tapeState.session⟩
    let last := start.run Sample.packedSteps
    (last.tape.views last.session.store).map (fun view => view.data.length) = [24, 16, 16, 40] ∧
    ∀ others : List (List Recorded), others.flatten = start.log [] Sample.packedSteps →
      (∀ other ∈ others, Recorded.FitsIn 24 other) → 4 ≤ others.length := by
  intro start last
  have hmade : Tape.withCapacity 12 = .ok Sample.tapeState.tape := rfl
  have hclient : SharedMemory.client Sample.machine "tape" 20 (Encoder.core.counted 0) =
      .ok Sample.smallClient := rfl
  have hsteps : ∀ step ∈ Sample.packedSteps, step.Continues := by
    simp [Sample.packedSteps, Step.Continues]
  obtain ⟨-, hfewest, -⟩ :=
    TapeState.fewest_segments (.made (.withCapacity hmade)) (.shared hclient) hsteps
  have hcount : last.tape.segmentCount = 4 := by decide +kernel
  refine ⟨by decide +kernel, fun others hothers hfits => ?_⟩
  rw [← hcount]
  exact hfewest others hothers hfits

end CommandTape
