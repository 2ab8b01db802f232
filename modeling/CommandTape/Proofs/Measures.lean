import CommandTape.Proofs.Growing
import CommandTape.Proofs.HandingOff

/-!
# How large a tape is

A tape counts its bytes in several ways, and all come to the same: what it says its size is, what it
shows, and what was handed off to it together with the records of its own (`Tape.Measured`). A
segment joins those that are only read with as many bytes as were written to it, and keeps them
(`Tape.Freezes`); so every such segment of the tape's own has the length that it had at that moment
(`TapeState.Froze`).
-/

namespace CommandTape

variable {σ : Type}

/-! ## The size of records -/

namespace Recorded

/-- The size of the record. -/
def size : Recorded → Nat
  | inline item _ => item.kind.recordSize
  | encoded _ blob _ _ => Layout.encodedSize blob.length

/-- The size of records together. -/
def total : List Recorded → Nat
  | [] => 0
  | r :: rest => r.size + total rest

theorem length_bytes (r : Recorded) : r.bytes.length = r.size := by
  cases r with
  | inline item h => exact Record.length_inline item
  | encoded item blob h hlen => exact Record.length_encoded _ _

theorem size_mod (r : Recorded) : r.size % 8 = 0 := r.length_bytes ▸ r.length_bytes_mod

theorem length_text (records : List Recorded) : (text records).length = total records := by
  induction records with
  | nil => rfl
  | cons r rest ih => rw [text_cons, List.length_append, length_bytes, ih, total]

end Recorded

/-- An item lies in memory, and four bytes hold the length of a blob. -/
theorem Tape.size_lt_of_recordOf {tape : Tape σ} {item : Item} {s : Session σ} {r : Recorded}
    (hrecord : tape.recordOf item s = some r) : r.size < Layout.memoryLimit + 16 := by
  rcases recordOf_eq_some hrecord with
    ⟨hinline, rfl⟩ | ⟨client, blob, hinline, hlen, hwriter, hblob, rfl⟩
  · have hround := Layout.roundUp_lt item.kind.size
    have hsize := item.kind.size_lt
    show item.kind.recordSize < _
    unfold Kind.recordSize Layout.inlineSize Layout.headerSize
    omega
  · have hround := Layout.roundUp_lt blob.length
    show Layout.encodedSize blob.length < _
    unfold Layout.blobLimit at hlen
    unfold Layout.encodedSize Layout.blobOffset Layout.headerSize Layout.blobHeaderSize
      Layout.memoryLimit
    omega

/-! ## What is asked of a tape -/

namespace Tape

/-- What a tape says about its size, on which the given segments lie, and behind them the given
records. -/
structure Measured (tape : Tape σ) (store : Store) (given : List Segment)
    (records : List Recorded) : Prop where
  size_eq_shown : tape.size = SegmentView.total (tape.views store)
  size_eq_total : tape.size = Segment.total given + Recorded.total records
  segmentCount_eq : tape.segmentCount = (tape.views store).length
  isEmpty_iff : tape.isEmpty = true ↔ tape.views store = []
  /-- What the tape shows of its own is never nothing, and always whole units of eight bytes. -/
  own : ∃ own, tape.views store = given.map (Segment.view store) ++ own ∧
    ∀ view ∈ own, 0 < view.data.length ∧ view.data.length % Layout.alignment = 0
  written_le : ∀ segment, tape.writable = some segment → tape.written ≤ segment.capacity
  written_eq_zero : tape.writable = none → tape.written = 0

variable {tape next : Tape σ} {store store' : Store} {c c' : Contents}

/-- A chapter that something was written to shows whole units of eight bytes. -/
theorem Has.length_view_filled (h : tape.Has store c) {chapter : Chapter}
    (hmem : chapter ∈ c.filled) :
    0 < (chapter.view store).data.length ∧
      (chapter.view store).data.length % Layout.alignment = 0 := by
  have hlength : (chapter.view store).data.length = (Recorded.text chapter.records).length := by
    rw [← Extent.length_toList, (h.filled chapter hmem).toList_view]
    rfl
  have hne : chapter.records ≠ [] := by simpa using (List.mem_filter.1 hmem).2
  rw [hlength]
  refine ⟨?_, Recorded.length_text_mod _⟩
  exact Nat.pos_of_ne_zero fun hzero => hne (Recorded.length_text_eq_zero_iff.1 hzero)

/-- What a tape says about its size follows from its contents. -/
theorem Has.measured (h : tape.Has store c) : tape.Measured store c.given c.records := by
  refine ⟨h.size_eq_total, ?_, ?_, ?_, ⟨c.filled.map (Chapter.view store), h.views_eq, ?_⟩, ?_, ?_⟩
  · rw [h.size_eq, Recorded.length_text]
  · rw [h.segmentCount_eq, h.views_eq]
  · rw [h.isEmpty_eq, h.views_eq]
    exact List.isEmpty_iff
  · intro view hmem
    obtain ⟨chapter, hchapter, rfl⟩ := List.mem_map.1 hmem
    exact h.length_view_filled hchapter
  · intro segment hsegment
    obtain ⟨chapter, hc, rfl⟩ := Option.map_eq_some_iff.1 (h.writable.symm.trans hsegment)
    rw [h.written_eq hc]
    exact (h.chapters chapter (Has.mem_chapters_of_current hc)).length_le
  · intro hnone
    have hc : c.current = none := Option.map_eq_none_iff.1 (h.writable.symm.trans hnone)
    rw [h.written, hc]
    rfl

/-! ## Segments that are left -/

/-- The segment is the one that the tape writes to, cut to the bytes that were written. -/
structure Leaves (tape : Tape σ) (segment : Segment) : Prop where
  of_writable : ∃ last, tape.writable = some last ∧ segment = last.cut tape.written
  capacity_eq : segment.capacity = tape.written
  written_pos : 0 < tape.written

/-- The segments that are only read stay, or the one that was written to joins them. -/
inductive Freezes (tape next : Tape σ) : Prop
  | kept (h : next.frozen = tape.frozen)
  | joined (segment : Segment) (hleaves : tape.Leaves segment)
      (h : next.frozen = tape.frozen ++ [segment])

/-- The current chapter joins the full ones when a new one begins, if something was written to it.
-/
theorem Has.freezes_of_turned (h : tape.Has store c) (hnext : next.Has store' c')
    (hgiven : c'.given = c.given) (hfull : c'.full = c.full ∨ c'.full = c.left) :
    tape.Freezes next := by
  have hkept : c'.full = c.full → tape.Freezes next := by
    intro hsame
    refine .kept ?_
    rw [hnext.frozen, hgiven, hsame, h.frozen]
  rcases hfull with hsame | hleft
  · exact hkept hsame
  · cases hc : c.current with
    | none =>
      refine hkept ?_
      simp [hleft, Contents.left, hc]
    | some chapter =>
      by_cases hempty : chapter.records = []
      · refine hkept ?_
        simp [hleft, Contents.left, hc, hempty]
      · have hwritten := h.written_eq hc
        have hlies := h.chapters chapter (Has.mem_chapters_of_current hc)
        have hpos : 0 < chapter.text.length :=
          Nat.pos_of_ne_zero fun hzero => hempty (Recorded.length_text_eq_zero_iff.1 hzero)
        have hclosed : c.left = c.full ++ [chapter.close] := by simp [Contents.left, hc, hempty]
        refine .joined chapter.close.segment ⟨⟨chapter.segment, ?_, ?_⟩, ?_, ?_⟩ ?_
        · rw [h.writable, hc, Option.map_some]
        · rw [hwritten, Chapter.close]
        · rw [hwritten, hlies.capacity_close]
        · rw [hwritten]
          exact hpos
        · rw [hnext.frozen, hgiven, hleft, hclosed, h.frozen, List.map_append, List.map_singleton,
            List.append_assoc]

theorem Has.freezes_of_moves (h : tape.Has store c) (hnext : next.Has store' c')
    (hmoves : c.Moves store store' c') : tape.Freezes next := by
  have hturned : ∀ c', (c' = c ∨ ∃ segment, c' = c.turn segment) →
      c'.given = c.given ∧ (c'.full = c.full ∨ c'.full = c.left) := by
    rintro c' (rfl | ⟨segment, rfl⟩)
    · exact ⟨rfl, Or.inl rfl⟩
    · exact ⟨rfl, Or.inr rfl⟩
  cases hmoves with
  | kept hkept hturn =>
    obtain ⟨hgiven, hfull⟩ := hturned _ hturn
    exact h.freezes_of_turned hnext hgiven hfull
  | written r hkept hturn hc =>
    -- writing a record changes neither the given segments nor the full chapters
    obtain ⟨hgiven, hfull⟩ := hturned _ hturn
    exact h.freezes_of_turned hnext hgiven hfull

end Tape

namespace TapeState

/-- In the course of the steps the tape left the segment that it wrote to, and this is what became
of it. -/
def Froze (d : TapeState σ) (steps : List (Step σ)) (segment : Segment) : Prop :=
  ∃ past step future, steps = past ++ step :: future ∧ (d.run past).tape.Leaves segment ∧
    (step.perform (d.run past)).tape.frozen = (d.run past).tape.frozen ++ [segment]

variable {d : TapeState σ} {c : Contents} {given own : List Segment}

theorem Froze.cons {step : Step σ} {steps : List (Step σ)} {segment : Segment}
    (h : (step.perform d).Froze steps segment) : d.Froze (step :: steps) segment := by
  obtain ⟨past, last, future, rfl, hleaves, hfrozen⟩ := h
  exact ⟨step :: past, last, future, rfl, hleaves, hfrozen⟩

/-- What a step makes of the segments that are only read. -/
theorem frozen_perform (h : d.tape.Has d.session.store c) (hfrozen : d.tape.frozen = given ++ own)
    (step : Step σ) :
    ∃ own', (step.perform d).tape.frozen = step.given given ++ own' ∧
      ∀ segment ∈ own', segment ∈ own ∨ d.Froze [step] segment := by
  by_cases hclear : step = .clear
  · subst hclear
    obtain ⟨next, s', heq, -, -, hnext, -⟩ := h.clear
    refine ⟨[], ?_, by simp⟩
    rw [Step.perform, heq]
    exact hnext.frozen
  · have hgiven : step.given given = given := by
      cases step with
      | clear => exact absurd rfl hclear
      | _ => rfl
    obtain ⟨c', hnext, hmoves⟩ := Step.moves_perform h hclear
    rw [hgiven]
    cases h.freezes_of_moves hnext hmoves with
    | kept hsame =>
      refine ⟨own, ?_, fun segment hmem => Or.inl hmem⟩
      rw [hsame, hfrozen]
    | joined segment hleaves hjoined =>
      refine ⟨own ++ [segment], ?_, ?_⟩
      · rw [hjoined, hfrozen, List.append_assoc]
      · intro other hmem
        rcases List.mem_append.1 hmem with hmem | hmem
        · exact Or.inl hmem
        · rw [List.mem_singleton.1 hmem]
          exact Or.inr ⟨[], step, [], rfl, hleaves, hjoined⟩

/-- Behind what was handed off, the segments that are only read are those that the tape left. -/
theorem frozen_run {records : List Recorded} (h : d.Holds given records)
    (hfrozen : d.tape.frozen = given ++ own) (steps : List (Step σ)) :
    ∃ own', (d.run steps).tape.frozen = TapeState.given given steps ++ own' ∧
      ∀ segment ∈ own', segment ∈ own ∨ d.Froze steps segment := by
  induction steps generalizing d given own records with
  | nil => exact ⟨own, hfrozen, fun segment hmem => Or.inl hmem⟩
  | cons step rest ih =>
    have hnow := h
    obtain ⟨c, hhas, -⟩ := hnow
    obtain ⟨next, hnext, hstep⟩ := frozen_perform hhas hfrozen step
    obtain ⟨last, hlast, hrest⟩ := ih (step.holds_perform h) hnext
    refine ⟨last, hlast, ?_⟩
    intro segment hmem
    rcases hrest segment hmem with hbefore | hfroze
    · rcases hstep segment hbefore with hbefore | ⟨past, last, future, hsteps, hleaves, hjoined⟩
      · exact Or.inl hbefore
      · -- the one step is the first of all
        refine Or.inr ⟨past, last, future ++ rest, ?_, hleaves, hjoined⟩
        have hall := congrArg (· ++ rest) hsteps
        simpa using hall
    · exact Or.inr hfroze.cons

/-- Whatever was done with a tape, all that it says about its size agrees with what it shows, and
with what was handed off to it and the records of just the items that were recorded since it was
cleared. And of the segments that are only read, those of its own have as many bytes as were written
to them when they were left. -/
theorem measured_run (hfresh : d.tape.Fresh d.session.store given) (steps : List (Step σ)) :
    let last := d.run steps
    last.tape.Measured last.session.store (TapeState.given given steps) (d.log [] steps) ∧
    (d.log [] steps).map Recorded.item = d.items [] steps ∧
    ∃ own, last.tape.frozen = TapeState.given given steps ++ own ∧
      ∀ segment ∈ own, d.Froze steps segment := by
  intro last
  have hholds : d.Holds given [] := hfresh.holds
  obtain ⟨c, hhas, hgiven, hrecords⟩ := holds_run hholds steps
  have hfrozen : d.tape.frozen = given ++ [] := by
    rw [List.append_nil]
    exact hfresh.frozen_eq
  obtain ⟨own, hown, hfroze⟩ := frozen_run hholds hfrozen steps
  refine ⟨?_, map_item_log d [] steps, own, hown, ?_⟩
  · rw [← hgiven, ← hrecords]
    exact hhas.measured
  · intro segment hmem
    rcases hfroze segment hmem with hnone | hfroze
    · exact absurd hnone List.not_mem_nil
    · exact hfroze

/-- Sixteen bytes were handed off, and four items are recorded behind them: three fill the first
segment as far as they do, so that it is left for the fourth. -/
theorem measured_run_sample :
    let d : TapeState Tallies := ⟨.ofSegments [Sample.handed], Sample.sharing⟩
    let steps := .setWriter (some Sample.dirtyClient) ::
      Sample.steps ++ [.append (Sample.uniform Sample.byteKind 1)]
    let last := d.run steps
    last.tape.size = 88 ∧ SegmentView.total (last.tape.views last.session.store) = 88 ∧
      ∃ segment, last.tape.frozen = [Sample.handed, segment] ∧ segment.capacity = 56 ∧
        d.Froze steps segment := by
  intro d steps last
  have hlies : ∀ segment ∈ [Sample.handed], segment.LiesIn Sample.sharing.store :=
    Sample.handed_liesIn (by simp)
  obtain ⟨hmeasured, -, own, hown, hfroze⟩ := measured_run (d := d) (.ofSegments hlies) steps
  have hgiven : TapeState.given [Sample.handed] steps = [Sample.handed] := rfl
  have hsize : last.tape.size = 88 := by
    rw [hmeasured.size_eq_total]
    decide +kernel
  have hcapacities : last.tape.frozen.map Segment.capacity = [16, 56] := by decide +kernel
  rw [hgiven] at hown
  rw [hown, List.singleton_append, List.map_cons] at hcapacities
  obtain ⟨segment, rfl, hcapacity⟩ := List.map_eq_singleton_iff.1 (List.cons.inj hcapacities).2
  refine ⟨hsize, hmeasured.size_eq_shown.symm.trans hsize, segment, hown, hcapacity, ?_⟩
  exact hfroze segment (List.mem_singleton_self _)

end TapeState

end CommandTape
