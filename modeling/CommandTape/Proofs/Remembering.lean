import CommandTape.Proofs.Growing
import CommandTape.Proofs.Locking

/-!
# What is remembered leads to live records

A tape remembers an inline item that is left to destroy by the place that its segment has among
those of the tape, or will have once it is only read. A segment keeps its place when the tape goes
on to another, since one that something was written to is never skipped, so at any time the place is
that of a segment that still holds the item's record, in front of the end of what was written
(`Tape.Leads`). No two entries lead to one record, and clearing never finds a segment missing
(`TapeState.remembers_live`).
-/

namespace CommandTape

variable {σ : Type}

/-! ## What is remembered of records -/

/-- The record of the one entry ends before that of the other starts, or lies in a segment before
its. -/
def Pending.Before (p q : Pending) : Prop :=
  p.segmentIndex < q.segmentIndex ∨
    p.segmentIndex = q.segmentIndex ∧ p.location.offset + p.kind.recordSize ≤ q.location.offset

namespace Recorded

variable {id : SegmentId} {index offset : Nat} {records : List Recorded} {p : Pending}

/-- An entry is the place of the record of an inline item among the others. -/
theorem exists_of_mem_remember (hmem : p ∈ remember id index offset records) :
    ∃ before item hinline after, records = before ++ inline item hinline :: after ∧
      p = ⟨⟨id, offset + (text before).length⟩, index, item.kind⟩ := by
  induction records generalizing offset with
  | nil => exact absurd hmem List.not_mem_nil
  | cons r rest ih =>
    rcases List.mem_append.1 hmem with hfirst | hrest
    · cases r with
      | inline item hinline =>
        rw [pending] at hfirst
        split at hfirst
        · exact ⟨[], item, hinline, rest, rfl, List.mem_singleton.1 hfirst⟩
        · exact absurd hfirst List.not_mem_nil
      | encoded item blob hinline hlen => exact absurd hfirst List.not_mem_nil
    · obtain ⟨before, item, hinline, after, hrecords, hp⟩ := ih hrest
      refine ⟨r :: before, item, hinline, after, by rw [hrecords, List.cons_append], ?_⟩
      rw [hp, text_cons, List.length_append, Nat.add_assoc]

/-- The entries of records in a row come one behind the other. -/
theorem pairwise_remember (id : SegmentId) (index offset : Nat) (records : List Recorded) :
    (remember id index offset records).Pairwise Pending.Before := by
  induction records generalizing offset with
  | nil => exact List.Pairwise.nil
  | cons r rest ih =>
    have hlater := ih (offset + r.bytes.length)
    cases r with
    | encoded item blob hinline hlen => exact hlater
    | inline item hinline =>
      rw [remember, pending]
      split
      · refine List.pairwise_cons.2 ⟨fun q hq => Or.inr ⟨?_, ?_⟩, hlater⟩
        · exact (Tape.segmentIndex_of_mem_remember hq).symm
        · obtain ⟨before, other, hother, after, -, rfl⟩ := exists_of_mem_remember hq
          rw [bytes, Record.length_inline]
          exact Nat.le_add_right _ _
      · exact hlater

end Recorded

namespace Chapter

variable {index : Nat} {chapters : List Chapter}

/-- An entry is one of a record in the chapter at its place. -/
theorem exists_of_mem_remember {p : Pending} (hmem : p ∈ remember index chapters) :
    ∃ i chapter, chapters[i]? = some chapter ∧
      p ∈ Recorded.remember chapter.segment.id (index + i) 0 chapter.records := by
  induction chapters generalizing index with
  | nil => exact absurd hmem List.not_mem_nil
  | cons chapter rest ih =>
    rcases List.mem_append.1 hmem with hfirst | hrest
    · exact ⟨0, chapter, rfl, hfirst⟩
    · obtain ⟨i, other, hget, hp⟩ := ih hrest
      rw [Nat.add_right_comm, Nat.add_assoc] at hp
      exact ⟨i + 1, other, hget, hp⟩

/-- The entries of chapters in a row come one behind the other. -/
theorem pairwise_remember (index : Nat) (chapters : List Chapter) :
    (remember index chapters).Pairwise Pending.Before := by
  induction chapters generalizing index with
  | nil => exact List.Pairwise.nil
  | cons chapter rest ih =>
    refine List.pairwise_append.2 ⟨Recorded.pairwise_remember _ _ _ _, ih (index + 1), ?_⟩
    intro p hp q hq
    have hindex := Tape.segmentIndex_of_mem_remember hp
    have hle := Tape.le_segmentIndex_of_mem_remember hq
    exact Or.inl (by omega)

end Chapter

namespace Tape

variable {tape : Tape σ} {store : Store} {c : Contents}

/-! ## Live records -/

/-- The segment that holds an item is the one at the place that is remembered. -/
theorem holder?_eq_getElem? (tape : Tape σ) (p : Pending) :
    tape.holder? p = (tape.frozen ++ tape.writable.toList)[p.segmentIndex]? := by
  unfold holder?
  by_cases hlt : p.segmentIndex < tape.frozen.length
  · rw [if_pos hlt, List.getElem?_append_left hlt]
  · rw [if_neg hlt, List.getElem?_append_right (Nat.le_of_not_lt hlt)]
    by_cases heq : p.segmentIndex = tape.frozen.length
    · rw [if_pos heq, heq, Nat.sub_self]
      cases tape.writable <;> rfl
    · have hpos : 1 ≤ p.segmentIndex - tape.frozen.length := by omega
      have hbehind : tape.writable.toList.length ≤ p.segmentIndex - tape.frozen.length := by
        cases tape.writable with
        | none => exact Nat.zero_le _
        | some segment => exact hpos
      rw [if_neg heq, List.getElem?_eq_none hbehind]

/-- The count of bytes of the segment at a place that are in use: all of them if it is only read,
and what was written if it is written to. -/
def extentOf (tape : Tape σ) (index : Nat) (segment : Segment) : Nat :=
  if index < tape.frozen.length then segment.capacity else tape.written

/-- The entry leads to a live record: its place is one of the segments that are only read, or the
next if there is a segment that is written to; the segment there has the identifier that is
remembered, and may be written to; and at the offset that is remembered it has the whole record, in
front of the end of what is in use, of an item of the kind that is remembered. -/
structure Leads (tape : Tape σ) (store : Store) (p : Pending) (item : Item) : Prop where
  index_le : p.segmentIndex ≤ tape.frozen.length
  writable_of_eq : p.segmentIndex = tape.frozen.length → tape.writable.isSome = true
  kind_eq : item.kind = p.kind
  live : ∃ segment, (tape.frozen ++ tape.writable.toList)[p.segmentIndex]? = some segment ∧
    segment.id = p.location.segment ∧ segment.mapping.writable = true ∧
    p.location.offset + p.kind.recordSize ≤ tape.extentOf p.segmentIndex segment ∧
    store.read segment.mapping.block p.location.offset p.kind.recordSize = Record.inline item

theorem Leads.holder_ne_none {p : Pending} {item : Item} (h : tape.Leads store p item) :
    tape.holder? p ≠ none := by
  obtain ⟨segment, hget, -⟩ := h.live
  rw [holder?_eq_getElem?, hget]
  exact Option.some_ne_none segment

/-- What is remembered is the place of a record in a chapter, and leads to its segment. -/
theorem Has.chapter_of_mem_pending (h : tape.Has store c) {p : Pending}
    (hmem : p ∈ tape.pending.toList) :
    ∃ i chapter, c.chapters[i]? = some chapter ∧ tape.holder? p = some chapter.segment ∧
      p ∈ Recorded.remember chapter.segment.id (c.given.length + i) 0 chapter.records := by
  rw [h.pending] at hmem
  obtain ⟨i, chapter, hget, hrecord⟩ := Chapter.exists_of_mem_remember hmem
  have hindex := segmentIndex_of_mem_remember hrecord
  have hholder := h.holder_eq hget p.location p.kind
  rw [← hindex] at hholder
  exact ⟨i, chapter, hget, hholder, hrecord⟩

/-- What is in use of a chapter's segment is what was written to it. -/
theorem Has.extentOf_eq (h : tape.Has store c) {i : Nat} {chapter : Chapter}
    (hget : c.chapters[i]? = some chapter) :
    tape.extentOf (c.given.length + i) chapter.segment = chapter.text.length := by
  have hcount : tape.frozen.length = c.given.length + c.full.length := by
    rw [h.frozen, List.length_append, List.length_map]
  rw [Contents.chapters] at hget
  rcases Nat.lt_or_ge i c.full.length with hlt | hge
  · rw [List.getElem?_append_left hlt] at hget
    rw [extentOf, if_pos (by omega)]
    exact (h.full chapter (List.mem_of_getElem? hget)).2
  · rw [List.getElem?_append_right hge] at hget
    rw [extentOf, if_neg (by omega)]
    exact h.written_eq (Option.mem_toList.1 (List.mem_of_getElem? hget))

/-- An inline record is what is read from its place in a chapter. -/
theorem read_inline {chapter : Chapter} (hlies : chapter.LiesIn store)
    {before after : List Recorded} {item : Item} {hinline : item.kind.isInline = true}
    (hrecords : chapter.records = before ++ .inline item hinline :: after) :
    (Recorded.text before).length + item.kind.recordSize ≤ chapter.text.length ∧
    store.read chapter.segment.mapping.block (Recorded.text before).length item.kind.recordSize =
      Record.inline item := by
  have htext : chapter.text =
      Recorded.text before ++ (Record.inline item ++ Recorded.text after) := by
    rw [Chapter.text, hrecords, Recorded.text_append, Recorded.text_cons, Recorded.bytes]
  have hsize := Record.length_inline item
  have hfits : (Recorded.text before).length + item.kind.recordSize ≤ chapter.text.length := by
    rw [htext, List.length_append, List.length_append, hsize]
    omega
  have hread := hlies.read_eq
  rw [Store.read] at hread
  refine ⟨hfits, ?_⟩
  rw [Store.read, Block.read_drop_take hfits, hread, htext, List.drop_left, List.take_left' hsize]

/-- Whatever a tape remembers leads to the live record of an item on it. -/
theorem Has.leads (h : tape.Has store c) {p : Pending} (hmem : p ∈ tape.pending.toList) :
    ∃ item hinline, .inline item hinline ∈ c.records ∧ tape.Leads store p item := by
  obtain ⟨i, chapter, hget, hholder, hrecord⟩ := h.chapter_of_mem_pending hmem
  obtain ⟨before, item, hinline, after, hrecords, rfl⟩ := Recorded.exists_of_mem_remember hrecord
  have hchapter := List.mem_of_getElem? hget
  have hlies := h.chapters chapter hchapter
  obtain ⟨hfits, hread⟩ := read_inline hlies hrecords
  have hplace := hholder
  rw [holder?_eq_getElem?] at hplace
  have hcount : tape.frozen.length = c.given.length + c.full.length := by
    rw [h.frozen, List.length_append, List.length_map]
  have hbound := (List.getElem?_eq_some_iff.1 hget).1
  rw [Contents.chapters, List.length_append] at hbound
  refine ⟨item, hinline, ?_, ?_, ?_, rfl, chapter.segment, hplace, rfl, ?_, ?_, ?_⟩
  · refine List.mem_flatMap.2 ⟨chapter, hchapter, ?_⟩
    rw [hrecords]
    exact List.mem_append_right _ List.mem_cons_self
  · have hlast : c.current.toList.length ≤ 1 := by cases c.current <;> simp
    show c.given.length + i ≤ tape.frozen.length
    omega
  · intro heq
    rw [holder?, if_neg (by omega), if_pos heq] at hholder
    exact Option.isSome_of_eq_some hholder
  · exact hlies.writable (by rw [hrecords]; simp)
  · rw [h.extentOf_eq hget, Nat.zero_add]
    exact hfits
  · rw [Nat.zero_add]
    exact hread

/-! ## Segments in blocks of their own -/

/-- The segments behind the first `given` lie in different blocks. -/
def Spread (tape : Tape σ) (given : Nat) : Prop :=
  ((tape.frozen.drop given ++ tape.writable.toList).map fun segment => segment.mapping.block).Nodup

/-- The tape's own segments are those of the chapters. -/
theorem Has.own_segments (h : tape.Has store c) :
    tape.frozen.drop c.given.length ++ tape.writable.toList = c.chapters.map Chapter.segment := by
  rw [h.frozen, h.writable, List.drop_left, Contents.chapters, List.map_append]
  congr 1
  cases c.current <;> rfl

theorem Has.spread_iff (h : tape.Has store c) :
    tape.Spread c.given.length ↔
      (c.chapters.map fun chapter => chapter.segment.mapping.block).Nodup := by
  rw [Spread, h.own_segments, List.map_map]
  rfl

/-- A tape as it is made has no segments of its own. -/
theorem Fresh.spread {segments : List Segment} (h : tape.Fresh store segments) :
    tape.Spread segments.length := by
  rw [Spread, h.frozen_eq, h.writable_eq, List.drop_length]
  exact List.nodup_nil

/-- Entries with different places lead to segments in different blocks. -/
theorem Has.block_ne (h : tape.Has store c) (hspread : tape.Spread c.given.length) {p q : Pending}
    (hp : p ∈ tape.pending.toList) (hq : q ∈ tape.pending.toList)
    (hne : p.segmentIndex ≠ q.segmentIndex) {a b : Segment} (ha : tape.holder? p = some a)
    (hb : tape.holder? q = some b) : a.mapping.block ≠ b.mapping.block := by
  obtain ⟨i, first, hfirst, hfirsta, hpi⟩ := h.chapter_of_mem_pending hp
  obtain ⟨j, second, hsecond, hsecondb, hqj⟩ := h.chapter_of_mem_pending hq
  obtain rfl := Option.some.inj (hfirsta.symm.trans ha)
  obtain rfl := Option.some.inj (hsecondb.symm.trans hb)
  rw [segmentIndex_of_mem_remember hpi, segmentIndex_of_mem_remember hqj] at hne
  intro hblock
  have hlt : i < (c.chapters.map fun chapter => chapter.segment.mapping.block).length := by
    rw [List.length_map]
    exact (List.getElem?_eq_some_iff.1 hfirst).1
  have hsame : i = j := by
    refine (List.getElem?_inj hlt (h.spread_iff.1 hspread)).1 ?_
    rw [List.getElem?_map, List.getElem?_map, hfirst, hsecond, Option.map_some, Option.map_some,
      hblock]
  exact hne (congrArg (c.given.length + ·) hsame)

/-- The segment that is written to lies apart from the others, so a tape is spread if the full
chapters are. -/
theorem Has.spread_of_full (h : tape.Has store c)
    (hfull : (c.full.map fun chapter => chapter.segment.mapping.block).Nodup) :
    tape.Spread c.given.length := by
  rw [h.spread_iff, Contents.chapters, List.map_append]
  cases hc : c.current with
  | none => simpa using hfull
  | some chapter =>
    refine List.nodup_append.2 ⟨hfull, List.pairwise_singleton _ _, ?_⟩
    intro block hblock other hother heq
    obtain ⟨full, hmem, rfl⟩ := List.mem_map.1 hblock
    rw [Option.toList_some, List.map_singleton, List.mem_singleton] at hother
    refine h.apart chapter hc full.segment ?_ (heq.trans hother)
    rw [h.frozen]
    exact List.mem_append_right _ (List.mem_map_of_mem hmem)

/-- Whatever steps do to the contents of a tape, each new segment lies in a block of its own. -/
theorem Has.spread_moves {next : Tape σ} {store' : Store} {c' : Contents} (h : tape.Has store c)
    (hnext : next.Has store' c') (hmoves : c.Moves store store' c')
    (hspread : tape.Spread c.given.length) :
    c'.given = c.given ∧ next.Spread c'.given.length := by
  have hchapters := h.spread_iff.1 hspread
  have hturned : ∀ {turned : Contents}, (turned = c ∨ ∃ segment, turned = c.turn segment) →
      turned.given = c.given ∧
        (turned.full.map fun chapter => chapter.segment.mapping.block).Sublist
          (c.chapters.map fun chapter => chapter.segment.mapping.block) := by
    rintro turned (rfl | ⟨segment, rfl⟩)
    · exact ⟨rfl, (List.sublist_append_left _ _).map _⟩
    · refine ⟨rfl, ?_⟩
      have hleft : ((c.turn segment).full.map fun chapter => chapter.segment.mapping.block) =
          (c.full ++ c.current.toList.filter fun chapter => !chapter.records.isEmpty).map
            fun chapter => chapter.segment.mapping.block := by
        simp only [Contents.turn, Contents.left, List.map_append, List.map_map]
        rfl
      rw [hleft]
      exact ((List.Sublist.refl _).append List.filter_sublist).map _
  cases hmoves with
  | kept hkept hturn =>
    obtain ⟨hgiven, hfull⟩ := hturned hturn
    exact ⟨hgiven, hnext.spread_of_full (hchapters.sublist hfull)⟩
  | written r hkept hturn hc =>
    obtain ⟨hgiven, hfull⟩ := hturned hturn
    exact ⟨hgiven, hnext.spread_of_full (hchapters.sublist hfull)⟩

/-! ## Clearing -/

/-- Destroying items whose segments are there reports nothing. -/
theorem notices_destroyAll {pending : List Pending} (h : ∀ p ∈ pending, tape.holder? p ≠ none)
    (s : Session σ) : (tape.destroyAll pending s).2.notices = s.notices := by
  induction pending generalizing s with
  | nil => rfl
  | cons p rest ih =>
    obtain ⟨hfirst, hrest⟩ := List.forall_mem_cons.1 h
    have hdestroyed : (tape.destroyPending p s).2.notices = s.notices := by
      unfold destroyPending
      cases hholder : tape.holder? p with
      | none => exact absurd hholder hfirst
      | some segment =>
        dsimp only
        split <;> rfl
    rw [destroyAll]
    rcases heq : tape.destroyPending p s with ⟨f | u, s'⟩
    · rw [heq] at hdestroyed
      exact hdestroyed
    · rw [heq] at hdestroyed
      exact (ih hrest s').trans hdestroyed

/-- Clearing a tape reports how many items it destroys, if any, and nothing else. -/
theorem notices_clear (h : ∀ p ∈ tape.pending.toList, tape.holder? p ≠ none) (s : Session σ) :
    (tape.clear s).2.2.notices.toList = s.notices.toList ++
      if tape.pending.isEmpty then [] else [.destroying tape.pending.length] := by
  have hstart : (if tape.pending.isEmpty then s else
      s.note (.destroying tape.pending.length)).notices.toList = s.notices.toList ++
        if tape.pending.isEmpty then [] else [.destroying tape.pending.length] := by
    split
    · exact (List.append_nil _).symm
    · exact Journal.toList_add _ _
  have hquiet := notices_destroyAll h
    (if tape.pending.isEmpty then s else s.note (.destroying tape.pending.length))
  rw [← hstart]
  simp only [clear]
  rcases heq : tape.destroyAll tape.pending.toList
    (if tape.pending.isEmpty then s else s.note (.destroying tape.pending.length)) with ⟨f | u, s'⟩
  · rw [heq] at hquiet
    exact congrArg Journal.toList hquiet
  · rw [heq] at hquiet
    exact congrArg Journal.toList hquiet

end Tape

/-! ## In the course of steps -/

namespace TapeState

/-- The tape's own segments lie in blocks of their own after any steps. -/
theorem spread_run {d : TapeState σ} {segments : List Segment} {records : List Recorded}
    (h : d.Holds segments records) (hspread : d.tape.Spread segments.length)
    (steps : List (Step σ)) : (d.run steps).tape.Spread (given segments steps).length := by
  induction steps generalizing d segments records with
  | nil => exact hspread
  | cons step rest ih =>
    refine ih (step.holds_perform h) ?_
    obtain ⟨c, hhas, rfl, -⟩ := h
    by_cases hclear : step = .clear
    · subst hclear
      obtain ⟨next, s', heq, -, -, hnext, -⟩ := hhas.clear
      rw [Step.perform, heq]
      exact hnext.spread_of_full List.nodup_nil
    · obtain ⟨c', hnext, hmoves⟩ := Step.moves_perform hhas hclear
      obtain ⟨hgiven, hspread'⟩ := hhas.spread_moves hnext hmoves hspread
      have hkept : step.given c.given = c'.given := by
        rw [hgiven]
        cases step with
        | clear => exact absurd rfl hclear
        | _ => rfl
      rw [hkept]
      exact hspread'

/-- Whatever is done with a tape, over segments that were handed off or not, and however that comes
out: each item that it remembers to destroy was recorded and not cleared since, and its record is
where the tape says. No two entries lead to one record: they come one behind the other, in segments
that share no memory. So clearing finds every segment, and comes out well. -/
theorem remembers_live {d : TapeState σ} {segments : List Segment}
    (hfresh : d.tape.Fresh d.session.store segments) (steps : List (Step σ)) :
    let last := d.run steps
    (∀ p ∈ last.tape.pending.toList, ∃ item hinline, .inline item hinline ∈ d.log [] steps ∧
      last.tape.Leads last.session.store p item) ∧
    last.tape.pending.toList.Pairwise Pending.Before ∧
    (∀ p ∈ last.tape.pending.toList, ∀ q ∈ last.tape.pending.toList,
      p.segmentIndex ≠ q.segmentIndex → ∀ a b, last.tape.holder? p = some a →
        last.tape.holder? q = some b → a.mapping.block ≠ b.mapping.block) ∧
    (last.tape.clear last.session).1 = .ok () ∧
    (last.tape.clear last.session).2.2.notices.toList = last.session.notices.toList ++
      if last.tape.pending.isEmpty then [] else [.destroying last.tape.pending.length] := by
  intro last
  have hholds := holds_run hfresh.holds steps
  have hspread := spread_run hfresh.holds hfresh.spread steps
  obtain ⟨c, hhas, hgiven, hrecords⟩ := hholds
  rw [← hgiven] at hspread
  have hleads : ∀ p ∈ last.tape.pending.toList, ∃ item hinline,
      .inline item hinline ∈ d.log [] steps ∧ last.tape.Leads last.session.store p item := by
    rw [← hrecords]
    exact fun p hmem => hhas.leads hmem
  have hfound : ∀ p ∈ last.tape.pending.toList, last.tape.holder? p ≠ none := by
    intro p hmem
    obtain ⟨item, hinline, -, hlead⟩ := hleads p hmem
    exact hlead.holder_ne_none
  refine ⟨hleads, ?_, ?_, ?_, Tape.notices_clear hfound _⟩
  · rw [hhas.pending]
    exact Chapter.pairwise_remember _ _
  · exact fun p hp q hq hne a b ha hb => hhas.block_ne hspread hp hq hne ha hb
  · obtain ⟨next, s', heq, -⟩ := hhas.clear
    rw [heq]

/-- A tracked item in the tape's own segment, which is only read by then, another in a client's,
and a blob between them. -/
theorem remembers_live_sample :
    let steps := Sample.steps ++ [.tryAppend (Sample.uniform Sample.trackedKind 8)]
    let last := Sample.tapeState.run steps
    last.tape.pending.toList =
      [⟨⟨⟨1⟩, 0⟩, 0, Sample.trackedKind⟩, ⟨⟨⟨2⟩, 40⟩, 1, Sample.trackedKind⟩] ∧
    (∀ p ∈ last.tape.pending.toList, ∃ item hinline,
      .inline item hinline ∈ Sample.tapeState.log [] steps ∧
        last.tape.Leads last.session.store p item) ∧
    (last.tape.clear last.session).2.2.notices.toList =
      last.session.notices.toList ++ [.destroying 2] := by
  intro steps last
  have hmade : Tape.withCapacity 12 = .ok Sample.tapeState.tape := rfl
  obtain ⟨hlive, -, -, -, hcleared⟩ :=
    remembers_live (d := Sample.tapeState) (.withCapacity hmade) steps
  exact ⟨rfl, hlive, hcleared⟩

end TapeState

end CommandTape
