import CommandTape.Proofs.Memory
import CommandTape.Tape

/-!
# What lies on a tape

A tape holds the segments that were handed off to it, and behind them *chapters*: segments of its
own with the records that were written to each. `Tape.Has` says of a tape and of the memory that its
segments lie in what its contents are. It is the invariant that all operations keep: what a tape
shows, how large it is and what it remembers to destroy follow from its contents
(`Tape.Has.views_eq`, `Tape.Has.size_eq`, and the field `pending`).
-/

namespace CommandTape

/-- A record that was put on a tape. -/
inductive Recorded where
  /-- An item that lies in its record. -/
  | inline (item : Item) (h : item.kind.isInline = true)
  /-- An item that does not, and the blob that a client made of it. -/
  | encoded (item : Item) (blob : Bytes) (h : item.kind.isInline = false)
      (hlen : blob.length < Layout.blobLimit)

namespace Recorded

/-- The item that was recorded. -/
def item : Recorded → Item
  | inline item _ => item
  | encoded item _ _ _ => item

/-- The record. -/
def bytes : Recorded → Bytes
  | inline item _ => Record.inline item
  | encoded item blob _ _ => Record.encoded item.kind.tag blob

/-- What is still to be destroyed once the record is written. An encoded item is gone by then. -/
def owed : Recorded → List Item
  | inline item _ => item.remains
  | encoded _ _ _ _ => []

/-- What the tape remembers of the record. -/
def pending (location : Location) (index : Nat) : Recorded → List Pending
  | inline item _ => if item.kind.needsDrop then [⟨location, index, item.kind⟩] else []
  | encoded _ _ _ _ => []

theorem length_bytes_mod (r : Recorded) : r.bytes.length % 8 = 0 := by
  cases r with
  | inline item h =>
    rw [bytes, Record.length_inline]
    exact Layout.inlineSize_mod _
  | encoded item blob h hlen =>
    rw [bytes, Record.length_encoded]
    exact Layout.encodedSize_mod _

theorem headerSize_le_length_bytes (r : Recorded) : Layout.headerSize ≤ r.bytes.length := by
  cases r with
  | inline item h =>
    rw [bytes, Record.length_inline]
    exact item.kind.headerSize_le_recordSize
  | encoded item blob h hlen =>
    rw [bytes, Record.length_encoded]
    unfold Layout.encodedSize Layout.blobOffset
    omega

/-! ## Records in a row -/

/-- The bytes of records, one behind the other. -/
def text (records : List Recorded) : Bytes := records.flatMap bytes

@[simp] theorem text_nil : text [] = [] := rfl

theorem text_cons (r : Recorded) (records : List Recorded) :
    text (r :: records) = r.bytes ++ text records := List.flatMap_cons

theorem text_append (a b : List Recorded) : text (a ++ b) = text a ++ text b :=
  List.flatMap_append

theorem text_concat (records : List Recorded) (r : Recorded) :
    text (records ++ [r]) = text records ++ r.bytes := by
  rw [text_append, text_cons, text_nil, List.append_nil]

theorem length_text_mod (records : List Recorded) : (text records).length % 8 = 0 := by
  induction records with
  | nil => rfl
  | cons r records ih =>
    have hr := r.length_bytes_mod
    rw [text_cons, List.length_append]
    omega

theorem length_text_eq_zero_iff {records : List Recorded} :
    (text records).length = 0 ↔ records = [] := by
  cases records with
  | nil => simp
  | cons r records =>
    have hr := r.headerSize_le_length_bytes
    have hpos : 0 < Layout.headerSize := by decide
    rw [text_cons, List.length_append]
    simp only [reduceCtorEq, iff_false]
    omega

/-- What the tape remembers of records that lie in one segment from `offset` on. -/
def remember (id : SegmentId) (index : Nat) : (offset : Nat) → List Recorded → List Pending
  | _, [] => []
  | offset, r :: rest => r.pending ⟨id, offset⟩ index ++
      remember id index (offset + r.bytes.length) rest

theorem remember_concat (id : SegmentId) (index offset : Nat) (records : List Recorded)
    (r : Recorded) :
    remember id index offset (records ++ [r]) =
      remember id index offset records ++
        r.pending ⟨id, offset + (text records).length⟩ index := by
  induction records generalizing offset with
  | nil => simp [remember]
  | cons r' records ih =>
    rw [List.cons_append, remember, remember, ih, text_cons, List.length_append,
      List.append_assoc, Nat.add_assoc]

end Recorded

/-! ## Chapters -/

/-- What a tape shows of a segment that is only read. -/
def Segment.view (store : Store) (segment : Segment) : SegmentView :=
  ⟨segment.id, segment.data store, segment.mapping.descriptor⟩

/-- A segment that a tape obtained, and the records that were written to it. -/
structure Chapter where
  segment : Segment
  records : List Recorded

namespace Chapter

/-- What was written to the segment. -/
def text (chapter : Chapter) : Bytes := Recorded.text chapter.records

/-- The chapter with one more record. -/
def write (chapter : Chapter) (r : Recorded) : Chapter :=
  { chapter with records := chapter.records ++ [r] }

theorem text_write (chapter : Chapter) (r : Recorded) :
    (chapter.write r).text = chapter.text ++ r.bytes := Recorded.text_concat _ _

/-- The chapter in a segment that is cut to what was written. -/
def close (chapter : Chapter) : Chapter :=
  { chapter with segment := chapter.segment.cut chapter.text.length }

/-- What the tape shows of the chapter. -/
def view (store : Store) (chapter : Chapter) : SegmentView :=
  ⟨chapter.segment.id, (chapter.segment.data store).take chapter.text.length,
    chapter.segment.mapping.descriptor⟩

/-- What the tape remembers of chapters, the first of which has the given place among the
segments. -/
def remember : (index : Nat) → List Chapter → List Pending
  | _, [] => []
  | index, chapter :: rest => Recorded.remember chapter.segment.id index 0 chapter.records ++
      remember (index + 1) rest

theorem remember_append (index : Nat) (a b : List Chapter) :
    remember index (a ++ b) = remember index a ++ remember (index + a.length) b := by
  induction a generalizing index with
  | nil => simp [remember]
  | cons chapter a ih =>
    have hplace : index + 1 + a.length = index + (a.length + 1) := by omega
    rw [List.cons_append, remember, remember, ih, List.append_assoc, List.length_cons, hplace]

/-- The records fill the front of the segment, which lies in the store, starts at a multiple of
eight, and may be written to if there are any. -/
structure LiesIn (chapter : Chapter) (store : Store) : Prop where
  lies : chapter.segment.LiesIn store
  length_le : chapter.text.length ≤ chapter.segment.capacity
  read_eq : store.read chapter.segment.mapping.block 0 chapter.text.length = chapter.text
  aligned : chapter.segment.isAligned = true
  writable : chapter.records ≠ [] → chapter.segment.mapping.writable = true

variable {chapter : Chapter} {s s' : Store}

theorem LiesIn.mono (h : chapter.LiesIn s) (hkept : s.KeptIn s') : chapter.LiesIn s' := by
  refine ⟨h.lies.mono hkept, h.length_le, ?_, h.aligned, h.writable⟩
  rw [Store.read, hkept.block_eq h.lies.block_lt]
  exact h.read_eq

theorem LiesIn.write_of_ne (h : chapter.LiesIn s) {n : Nat} (offset : Nat) (bs : Bytes)
    (hne : n ≠ chapter.segment.mapping.block) : chapter.LiesIn (s.write n offset bs) := by
  refine ⟨h.lies.write n offset bs, h.length_le, ?_, h.aligned, h.writable⟩
  rw [Store.read, Store.block_write_of_ne s offset bs hne]
  exact h.read_eq

/-- A record that fits behind those of a chapter is its next one. -/
theorem LiesIn.write (h : chapter.LiesIn s) {r : Recorded}
    (hfits : chapter.text.length + r.bytes.length ≤ chapter.segment.capacity)
    (hwritable : chapter.segment.mapping.writable = true) :
    (chapter.write r).LiesIn
      (s.write chapter.segment.mapping.block chapter.text.length r.bytes) := by
  have hsize : chapter.text.length + r.bytes.length ≤
      (s.block chapter.segment.mapping.block).size := by
    have hcap := chapter.segment.capacity_le
    rw [h.lies.length_eq] at hcap
    exact Nat.le_trans hfits hcap
  refine ⟨h.lies.write _ _ _, ?_, ?_, h.aligned, fun _ => hwritable⟩
  · rw [chapter.text_write, List.length_append]
    exact hfits
  · have hread := h.read_eq
    rw [Store.read] at hread ⊢
    rw [chapter.text_write, List.length_append]
    show Block.read (Store.block _ chapter.segment.mapping.block) _ _ = _
    rw [Store.block_write_self s _ _ h.lies.block_lt, Block.read_write_front hsize, hread]

theorem LiesIn.close (h : chapter.LiesIn s) : chapter.close.LiesIn s :=
  ⟨h.lies.cut _, Nat.le_min.2 ⟨Nat.le_refl _, h.length_le⟩, h.read_eq, h.aligned, h.writable⟩

theorem LiesIn.capacity_close (h : chapter.LiesIn s) :
    chapter.close.segment.capacity = chapter.text.length := Nat.min_eq_left h.length_le

theorem view_close (store : Store) (chapter : Chapter) :
    chapter.close.view store = chapter.view store := by
  have hdata := chapter.segment.take_data_cut store chapter.text.length
  exact congrArg (SegmentView.mk chapter.segment.id · chapter.segment.mapping.descriptor) hdata

/-- Closed chapters take as many bytes as their records. -/
theorem total_segments {chapters : List Chapter}
    (h : ∀ chapter ∈ chapters, chapter.segment.capacity = chapter.text.length) :
    Segment.total (chapters.map segment) =
      (Recorded.text (chapters.flatMap records)).length := by
  induction chapters with
  | nil => rfl
  | cons chapter rest ih =>
    have hrest := ih fun other hmem => h other (List.mem_cons_of_mem _ hmem)
    rw [List.map_cons, Segment.total, List.flatMap_cons, Recorded.text_append, List.length_append,
      hrest, h chapter List.mem_cons_self, text]

/-- What the tape shows of a chapter is what was written. -/
theorem LiesIn.toList_view (h : chapter.LiesIn s) :
    (chapter.view s).data.toList = chapter.text := by
  rw [view, Segment.toList_take_data _ _ h.length_le]
  exact h.read_eq

end Chapter

/-! ## Contents -/

/-- What lies on a tape: the segments that were handed off to it, its full chapters, and the one
that is being written. -/
structure Contents where
  given : List Segment
  full : List Chapter
  current : Option Chapter

namespace Contents

/-- All chapters. -/
def chapters (c : Contents) : List Chapter := c.full ++ c.current.toList

/-- All records of the tape's own. -/
def records (c : Contents) : List Recorded := c.chapters.flatMap Chapter.records

/-- The chapters that something was written to. -/
def filled (c : Contents) : List Chapter :=
  c.chapters.filter fun chapter => !chapter.records.isEmpty

/-- What is remembered to be destroyed. -/
def pending (c : Contents) : List Pending := Chapter.remember c.given.length c.chapters

/-- What the tape shows. -/
def views (c : Contents) (store : Store) : List SegmentView :=
  c.given.map (fun segment => ⟨segment.id, segment.data store, segment.mapping.descriptor⟩) ++
    c.filled.map (Chapter.view store)

/-- The contents with one more record in the current chapter. -/
def write (c : Contents) (r : Recorded) : Contents :=
  { c with current := c.current.map fun chapter => chapter.write r }

/-- The chapters that are full once the current one is left. -/
def left (c : Contents) : List Chapter :=
  c.full ++ (c.current.toList.filter fun chapter => !chapter.records.isEmpty).map Chapter.close

/-- The contents with a new chapter. -/
def turn (c : Contents) (segment : Segment) : Contents :=
  { c with full := c.left, current := some ⟨segment, []⟩ }

/-- Chapters that nothing was written to have no records. -/
theorem flatMap_filled (c : Contents) : c.filled.flatMap Chapter.records = c.records := by
  rw [filled, records]
  induction c.chapters with
  | nil => rfl
  | cons chapter rest ih =>
    cases hrecords : chapter.records with
    | nil => simp [hrecords, ih]
    | cons r more => simp [hrecords, ih]

theorem current_write {c : Contents} {chapter : Chapter} (h : c.current = some chapter)
    (r : Recorded) : (c.write r).current = some (chapter.write r) := by
  rw [write, h, Option.map_some]

theorem records_write {c : Contents} {chapter : Chapter} (h : c.current = some chapter)
    (r : Recorded) : (c.write r).records = c.records ++ [r] := by
  simp [records, chapters, write, h, Chapter.write]

theorem records_turn (c : Contents) (segment : Segment) : (c.turn segment).records = c.records := by
  cases hc : c.current with
  | none => simp [records, chapters, turn, left, hc]
  | some chapter =>
    by_cases hempty : chapter.records = []
    · simp [records, chapters, turn, left, hc, hempty]
    · simp [records, chapters, turn, left, hc, hempty, Chapter.close]

theorem pending_write {c : Contents} {chapter : Chapter} (h : c.current = some chapter)
    (r : Recorded) :
    (c.write r).pending = c.pending ++
      r.pending ⟨chapter.segment.id, chapter.text.length⟩ (c.given.length + c.full.length) := by
  simp only [pending, chapters, write, h, Option.map_some, Option.toList_some,
    Chapter.remember_append, Chapter.remember, Chapter.write, Recorded.remember_concat,
    List.append_nil, Nat.zero_add, List.append_assoc, Chapter.text]

theorem pending_turn (c : Contents) (segment : Segment) : (c.turn segment).pending = c.pending := by
  cases hc : c.current with
  | none => simp [pending, chapters, turn, left, hc, Chapter.remember_append, Chapter.remember,
      Recorded.remember]
  | some chapter =>
    by_cases hempty : chapter.records = []
    · simp [pending, chapters, turn, left, hc, hempty, Chapter.remember_append, Chapter.remember,
        Recorded.remember]
    · simp [pending, chapters, turn, left, hc, hempty, Chapter.remember_append, Chapter.remember,
        Recorded.remember, Chapter.close, Segment.cut]

theorem views_turn (c : Contents) (segment : Segment) (store : Store) :
    (c.turn segment).views store = c.views store := by
  cases hc : c.current with
  | none => simp [views, filled, chapters, turn, left, hc]
  | some chapter =>
    by_cases hempty : chapter.records = []
    · simp [views, filled, chapters, turn, left, hc, hempty]
    · have hclose : chapter.close.records.isEmpty = false := by simp [Chapter.close, hempty]
      simp [views, filled, chapters, turn, left, hc, hempty, hclose, Chapter.view_close]

end Contents

/-! ## Tapes and their contents -/

namespace Tape

variable {σ : Type}

/-- The contents of a tape. The chapter that is being written shares its block with no segment
before it, so what is written changes nothing else that the tape shows. -/
structure Has (tape : Tape σ) (store : Store) (c : Contents) : Prop where
  frozen : tape.frozen = c.given ++ c.full.map Chapter.segment
  writable : tape.writable = c.current.map Chapter.segment
  written : tape.written = (Recorded.text (c.current.toList.flatMap Chapter.records)).length
  pending : tape.pending.toList = c.pending
  given : ∀ segment ∈ c.given, segment.LiesIn store
  chapters : ∀ chapter ∈ c.chapters, chapter.LiesIn store
  full : ∀ chapter ∈ c.full, chapter.records ≠ [] ∧
    chapter.segment.capacity = chapter.text.length
  apart : ∀ chapter ∈ c.current, ∀ segment ∈ tape.frozen,
    segment.mapping.block ≠ chapter.segment.mapping.block

namespace Has

variable {tape next : Tape σ} {store store' : Store} {c : Contents}

theorem mono (h : tape.Has store c) (hkept : store.KeptIn store') : tape.Has store' c := by
  refine ⟨h.frozen, h.writable, h.written, h.pending, ?_, ?_, h.full, h.apart⟩
  · intro segment hmem
    exact (h.given segment hmem).mono hkept
  · intro chapter hmem
    exact (h.chapters chapter hmem).mono hkept

/-- The contents do not depend on the clients. -/
theorem of_eq (h : tape.Has store c) (hfrozen : next.frozen = tape.frozen)
    (hwritable : next.writable = tape.writable) (hwritten : next.written = tape.written)
    (hpending : next.pending = tape.pending) : next.Has store c := by
  refine ⟨?_, ?_, ?_, ?_, h.given, h.chapters, h.full, ?_⟩
  · rw [hfrozen, h.frozen]
  · rw [hwritable, h.writable]
  · rw [hwritten, h.written]
  · rw [hpending, h.pending]
  · rw [hfrozen]
    exact h.apart

theorem mem_chapters_of_full {chapter : Chapter} (hmem : chapter ∈ c.full) :
    chapter ∈ c.chapters := List.mem_append_left _ hmem

theorem mem_chapters_of_current {chapter : Chapter} (hc : c.current = some chapter) :
    chapter ∈ c.chapters := by
  rw [Contents.chapters, hc]
  exact List.mem_append_right _ (List.mem_singleton_self _)

theorem written_eq (h : tape.Has store c) {chapter : Chapter} (hc : c.current = some chapter) :
    tape.written = chapter.text.length := by
  rw [h.written, hc, Option.toList_some, List.flatMap_singleton, Chapter.text]

/-- The chapters that something was written to lie in memory. -/
theorem filled (h : tape.Has store c) : ∀ chapter ∈ c.filled, chapter.LiesIn store := by
  intro chapter hmem
  exact h.chapters chapter (List.mem_filter.1 hmem).1

/-- Every segment of the tape lies in memory. -/
theorem lies (h : tape.Has store c) {segment : Segment}
    (hmem : segment ∈ tape.frozen ++ tape.writable.toList) : segment.LiesIn store := by
  rw [h.frozen, h.writable] at hmem
  rcases List.mem_append.1 hmem with hfrozen | hcurrent
  · rcases List.mem_append.1 hfrozen with hgiven | hfull
    · exact h.given segment hgiven
    · obtain ⟨chapter, hchapter, rfl⟩ := List.mem_map.1 hfull
      exact (h.chapters chapter (mem_chapters_of_full hchapter)).lies
  · cases hc : c.current with
    | none =>
      rw [hc] at hcurrent
      exact absurd hcurrent List.not_mem_nil
    | some chapter =>
      rw [hc, Option.map_some, Option.toList_some, List.mem_singleton] at hcurrent
      rw [hcurrent]
      exact (h.chapters chapter (mem_chapters_of_current hc)).lies

/-! ### What follows from the contents -/

/-- What a full chapter's segment shows is the chapter. -/
theorem view_full (h : tape.Has store c) {chapter : Chapter} (hmem : chapter ∈ c.full) :
    (⟨chapter.segment.id, chapter.segment.data store, chapter.segment.mapping.descriptor⟩ :
      SegmentView) = chapter.view store := by
  have hcap := (h.full chapter hmem).2
  have hdata : (chapter.segment.data store).take chapter.text.length =
      chapter.segment.data store := by
    simp only [Segment.data, Extent.ofBlock, Extent.take, Extent.mk.injEq, true_and]
    omega
  rw [Chapter.view, hdata]

/-- The segments that were handed off are among those that are only read. -/
theorem length_given_le (h : tape.Has store c) : c.given.length ≤ tape.frozen.length := by
  rw [h.frozen, List.length_append]
  exact Nat.le_add_right _ _

/-- A tape shows its contents. -/
theorem views_eq (h : tape.Has store c) : tape.views store = c.views store := by
  have hfull : c.full.filter (fun chapter => !chapter.records.isEmpty) = c.full := by
    rw [List.filter_eq_self]
    intro chapter hmem
    simp [(h.full chapter hmem).1]
  have hmap : c.full.map (fun chapter => (⟨chapter.segment.id, chapter.segment.data store,
      chapter.segment.mapping.descriptor⟩ : SegmentView)) = c.full.map (Chapter.view store) :=
    List.map_congr_left fun chapter hmem => h.view_full hmem
  rw [views, h.frozen, h.writable, Contents.views, Contents.filled, Contents.chapters,
    List.filter_append, hfull, List.map_append, List.map_append, List.map_map, List.append_assoc]
  congr 1
  rw [← hmap]
  congr 1
  cases hc : c.current with
  | none => rfl
  | some chapter =>
    rw [h.written_eq hc]
    by_cases hempty : chapter.records = []
    · simp [hempty, Chapter.text]
    · have hpos : 0 < chapter.text.length :=
        Nat.pos_of_ne_zero fun hzero => hempty (Recorded.length_text_eq_zero_iff.1 hzero)
      simp [hempty, hpos, Chapter.view]

/-- A tape is as large as what was handed off to it and its records. -/
theorem size_eq (h : tape.Has store c) :
    tape.size = Segment.total c.given + (Recorded.text c.records).length := by
  have hfull := Chapter.total_segments fun chapter hmem => (h.full chapter hmem).2
  rw [size, h.frozen, h.written, Segment.total_append, hfull, Contents.records, Contents.chapters,
    List.flatMap_append, Recorded.text_append, List.length_append, Nat.add_assoc]

/-- Every segment of the tape shows the same while blocks are kept. -/
theorem data_eq (h : tape.Has store c) (hkept : store.KeptIn store') {segment : Segment}
    (hmem : segment ∈ tape.frozen ++ tape.writable.toList) :
    segment.data store' = segment.data store := (h.lies hmem).data_eq hkept

/-- Contents show the same while blocks are kept. -/
theorem views_mono (h : tape.Has store c) (hkept : store.KeptIn store') :
    c.views store' = c.views store := by
  have hgiven : c.given.map (fun segment => (⟨segment.id, segment.data store',
      segment.mapping.descriptor⟩ : SegmentView)) = c.given.map fun segment =>
        ⟨segment.id, segment.data store, segment.mapping.descriptor⟩ := by
    refine List.map_congr_left fun segment hmem => ?_
    rw [(h.given segment hmem).data_eq hkept]
  have hfilled : c.filled.map (Chapter.view store') = c.filled.map (Chapter.view store) := by
    refine List.map_congr_left fun chapter hmem => ?_
    rw [Chapter.view, Chapter.view, (h.filled chapter hmem).lies.data_eq hkept]
  rw [Contents.views, Contents.views, hgiven, hfilled]

/-- What a tape shows of a filled chapter is the text of its records. -/
theorem toList_views (h : tape.Has store c) :
    (c.filled.map (Chapter.view store)).map (fun view => view.data.toList) =
      c.filled.map Chapter.text := by
  rw [List.map_map]
  refine List.map_congr_left fun chapter hmem => ?_
  exact (h.filled chapter hmem).toList_view

theorem segmentCount_eq (h : tape.Has store c) :
    tape.segmentCount = (c.views store).length := by
  rw [← h.views_eq, segmentCount, views, List.length_append, List.length_map, h.writable]
  cases hc : c.current with
  | none => simp [h.written, hc]
  | some chapter =>
    simp only [Option.map_some]
    split <;> rfl

theorem isEmpty_eq (h : tape.Has store c) : tape.isEmpty = (c.views store).isEmpty := by
  rw [← h.views_eq, isEmpty, views, h.writable]
  cases hc : c.current with
  | none => simp [h.written, hc]
  | some chapter =>
    by_cases hzero : tape.written = 0
    · simp [hzero]
    · simp [hzero, Nat.pos_of_ne_zero hzero]

end Has

/-! ### How contents come about -/

theorem views_ofSegments (segments : List Segment) (store : Store) :
    (ofSegments segments : Tape σ).views store = segments.map (Segment.view store) :=
  List.append_nil _

/-- A tape over segments that lie in memory has these. -/
theorem has_ofSegments {given : List Segment} {store : Store}
    (h : ∀ segment ∈ given, segment.LiesIn store) :
    (ofSegments given : Tape σ).Has store ⟨given, [], none⟩ :=
  ⟨(List.append_nil given).symm, rfl, rfl, rfl, h, by simp [Contents.chapters], by simp, by simp⟩

/-- A tape on which nothing lies has nothing. -/
theorem has_nothing {tape : Tape σ} (hfrozen : tape.frozen = []) (hwritable : tape.writable = none)
    (hwritten : tape.written = 0) (hpending : tape.pending = .empty) (store : Store) :
    tape.Has store ⟨[], [], none⟩ := by
  refine ⟨hfrozen, hwritable, hwritten, ?_, by simp, by simp [Contents.chapters], by simp, by simp⟩
  rw [hpending]
  rfl

namespace Has

variable {tape next : Tape σ} {store : Store} {c : Contents}

/-- A tape that left its current chapter for a new segment. -/
theorem turn (h : tape.Has store c) {segment : Segment} (hlies : segment.LiesIn store)
    (haligned : segment.isAligned = true)
    (hnew : ∀ other ∈ tape.frozen ++ tape.writable.toList,
      other.mapping.block ≠ segment.mapping.block)
    (hfrozen : next.frozen = c.given ++ c.left.map Chapter.segment)
    (hwritable : next.writable = some segment) (hwritten : next.written = 0)
    (hpending : next.pending = tape.pending) : next.Has store (c.turn segment) := by
  have hleft : ∀ chapter ∈ c.left, chapter.LiesIn store ∧ chapter.records ≠ [] ∧
      chapter.segment.capacity = chapter.text.length ∧
      chapter.segment.mapping.block ≠ segment.mapping.block := by
    intro chapter hmem
    rw [h.frozen, h.writable] at hnew
    rcases List.mem_append.1 hmem with hfull | hcurrent
    · have hlies := h.chapters chapter (mem_chapters_of_full hfull)
      refine ⟨hlies, (h.full chapter hfull).1, (h.full chapter hfull).2, hnew _ ?_⟩
      exact List.mem_append_left _ (List.mem_append_right _ (List.mem_map_of_mem hfull))
    · obtain ⟨last, hlast, rfl⟩ := List.mem_map.1 hcurrent
      obtain ⟨hmem, hne⟩ := List.mem_filter.1 hlast
      have hc : c.current = some last := Option.mem_toList.1 hmem
      have hlies := h.chapters last (mem_chapters_of_current hc)
      refine ⟨hlies.close, by simpa [Chapter.close] using hne, hlies.capacity_close,
        hnew last.segment ?_⟩
      rw [hc]
      exact List.mem_append_right _ (List.mem_singleton_self _)
  refine ⟨hfrozen, hwritable, hwritten, ?_, h.given, ?_, ?_, ?_⟩
  · rw [hpending, h.pending, Contents.pending_turn]
  · intro chapter hmem
    rcases List.mem_append.1 hmem with hfull | hcurrent
    · exact (hleft chapter hfull).1
    · rw [List.mem_singleton.1 hcurrent]
      refine ⟨hlies, Nat.zero_le _, ?_, haligned, fun hne => absurd rfl hne⟩
      simp [Store.read, Block.read_eq, Chapter.text]
  · intro chapter hmem
    exact ⟨(hleft chapter hmem).2.1, (hleft chapter hmem).2.2.1⟩
  · intro chapter hmem other hother
    obtain rfl : chapter = ⟨segment, []⟩ := (Option.mem_some.1 hmem).symm
    rw [hfrozen] at hother
    rcases List.mem_append.1 hother with hgiven | hfull
    · refine hnew other ?_
      rw [h.frozen]
      exact List.mem_append_left _ (List.mem_append_left _ hgiven)
    · obtain ⟨chapter, hchapter, rfl⟩ := List.mem_map.1 hfull
      exact (hleft chapter hchapter).2.2.2

/-- A tape on which one more record was written. -/
theorem write (h : tape.Has store c) {chapter : Chapter} (hc : c.current = some chapter)
    {r : Recorded} (hfits : chapter.text.length + r.bytes.length ≤ chapter.segment.capacity)
    (hallowed : chapter.segment.mapping.writable = true)
    (hfrozen : next.frozen = tape.frozen) (hwritable : next.writable = tape.writable)
    (hwritten : next.written = chapter.text.length + r.bytes.length)
    (hpending : next.pending.toList = tape.pending.toList ++
      r.pending ⟨chapter.segment.id, chapter.text.length⟩ tape.frozen.length) :
    next.Has (store.write chapter.segment.mapping.block chapter.text.length r.bytes)
      (c.write r) := by
  have hapart := h.apart chapter hc
  rw [h.frozen] at hapart
  have hcount : tape.frozen.length = c.given.length + c.full.length := by
    rw [h.frozen, List.length_append, List.length_map]
  refine ⟨?_, ?_, ?_, ?_, ?_, ?_, h.full, ?_⟩
  · rw [hfrozen]
    exact h.frozen
  · rw [hwritable, h.writable, Contents.write, hc]
    rfl
  · rw [hwritten, Contents.write, hc, Option.map_some, Option.toList_some,
      List.flatMap_singleton, Chapter.write, Recorded.text_concat, List.length_append]
    rfl
  · rw [hpending, h.pending, hcount, Contents.pending_write hc]
  · intro segment hmem
    exact (h.given segment hmem).write _ _ _
  · intro other hmem
    rcases List.mem_append.1 hmem with hfull | hcurrent
    · refine (h.chapters other (mem_chapters_of_full hfull)).write_of_ne _ _ ?_
      refine (hapart other.segment ?_).symm
      exact List.mem_append_right _ (List.mem_map_of_mem hfull)
    · rw [Contents.write, hc] at hcurrent
      rw [List.mem_singleton.1 hcurrent]
      exact (h.chapters chapter (mem_chapters_of_current hc)).write hfits hallowed
  · intro other hmem segment hsegment
    rw [Contents.write, hc] at hmem
    obtain rfl : other = chapter.write r := (Option.mem_some.1 hmem).symm
    rw [hfrozen] at hsegment
    exact h.apart chapter hc segment hsegment

/-- Once a record is written, it is the last of what was written to the segment of its chapter. -/
theorem last_of_write {chapter : Chapter} {r : Recorded} (h : tape.Has store (c.write r))
    (hc : c.current = some chapter) :
    tape.writable = some chapter.segment ∧
      tape.written = chapter.text.length + r.bytes.length := by
  have hcurrent := Contents.current_write hc r
  constructor
  · rw [h.writable, hcurrent]
    rfl
  · rw [h.written_eq hcurrent, Chapter.text_write, List.length_append]

end Has

end Tape

end CommandTape
