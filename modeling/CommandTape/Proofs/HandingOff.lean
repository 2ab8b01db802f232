import CommandTape.Proofs.Messages
import CommandTape.Proofs.Steps

/-!
# Handing tapes off and taking them

Handing off and taking are inverse. A tape is handed off just if all it shows can be sent, and then
taking the message gives a tape that shows the same and is as large (`Message.Describes.read`). A
message that is taken is, byte for byte, the one that hands off the tape that it gives
(`Message.ofViews_of_wellFormed`).
-/

namespace CommandTape

variable {σ γ C : Type}

/-! ## What is shown and what it is shared as -/

namespace SegmentView

/-- The count of bytes that views show together. -/
def total : List SegmentView → Nat
  | [] => 0
  | view :: rest => view.data.length + total rest

theorem total_append (a b : List SegmentView) : total (a ++ b) = total a + total b := by
  induction a with
  | nil => exact (Nat.zero_add _).symm
  | cons view a ih => rw [List.cons_append, total, total, ih, Nat.add_assoc]

/-- The view has a descriptor that can be sent. -/
def Sendable (view : SegmentView) : Prop :=
  ∃ descriptor, view.descriptor = some descriptor ∧ descriptor ≠ .closed

/-- The view shows the first bytes of the block of shared memory that its descriptor stands for,
which can be mapped. -/
structure SharedFrom (view : SegmentView) (store : Store) (block : Nat) : Prop where
  descriptor_eq : view.descriptor = some (.memory block)
  block_eq : view.data.block = store.block block
  start_eq : view.data.start = 0
  size_pos : 0 < store.size block
  size_le : store.size block ≤ store.machine.mapLimit

end SegmentView

theorem Segment.LiesIn.length_data {segment : Segment} {store : Store} (h : segment.LiesIn store) :
    (segment.data store).length = segment.capacity := by
  have hle := segment.capacity_le
  rw [h.length_eq] at hle
  exact Nat.min_eq_left hle

theorem Segment.total_view {segments : List Segment} {store : Store}
    (h : ∀ segment ∈ segments, segment.LiesIn store) :
    SegmentView.total (segments.map (view store)) = total segments := by
  induction segments with
  | nil => rfl
  | cons segment rest ih =>
    have hfirst : (segment.view store).data.length = segment.capacity :=
      (h segment List.mem_cons_self).length_data
    rw [List.map_cons, SegmentView.total, total, hfirst,
      ih fun other hmem => h other (List.mem_cons_of_mem _ hmem)]

/-- Chapters show as many bytes as their records take. -/
theorem Chapter.total_view {chapters : List Chapter} {store : Store}
    (h : ∀ chapter ∈ chapters, chapter.LiesIn store) :
    SegmentView.total (chapters.map (view store)) =
      (Recorded.text (chapters.flatMap records)).length := by
  induction chapters with
  | nil => rfl
  | cons chapter rest ih =>
    have hfirst : (chapter.view store).data.length = (Recorded.text chapter.records).length := by
      rw [← Extent.length_toList, (h chapter List.mem_cons_self).toList_view]
      rfl
    rw [List.map_cons, SegmentView.total, List.flatMap_cons, Recorded.text_append,
      List.length_append, hfirst, ih fun other hmem => h other (List.mem_cons_of_mem _ hmem)]

/-- A tape is as large as what it shows. -/
theorem Tape.Has.size_eq_total {tape : Tape σ} {store : Store} {c : Contents}
    (h : tape.Has store c) : tape.size = SegmentView.total (tape.views store) := by
  rw [h.size_eq, h.views_eq, Contents.views, SegmentView.total_append,
    Chapter.total_view h.filled, c.flatMap_filled]
  exact congrArg (· + _) (Segment.total_view h.given).symm

namespace Message

/-! ## Describing what is shown -/

/-- The table that describes views. -/
def tableOf (views : List SegmentView) : Bytes :=
  views.flatMap fun view => entry view.id view.data.length

@[simp] theorem length_entry (id : SegmentId) (length : Nat) :
    (entry id length).length = entrySize := by
  simp [entry, entrySize]

theorem length_tableOf (views : List SegmentView) :
    (tableOf views).length = views.length * entrySize := by
  induction views with
  | nil => exact (Nat.zero_mul _).symm
  | cons view rest ih =>
    rw [tableOf, List.flatMap_cons, List.length_append, length_entry, List.length_cons,
      Nat.succ_mul, Nat.add_comm]
    exact congrArg (· + _) ih

/-- Views that can be sent are described in full while there is room for them. -/
theorem describe_of_sendable {views : List SegmentView} {count : Nat}
    (hcount : count + views.length ≤ segmentLimit) (h : ∀ view ∈ views, view.Sendable) :
    ∃ descriptors, describe views count = .ok (tableOf views, descriptors) ∧
      descriptors.map some = views.map SegmentView.descriptor := by
  induction views generalizing count with
  | nil => exact ⟨[], rfl, rfl⟩
  | cons view rest ih =>
    rw [List.length_cons] at hcount
    obtain ⟨descriptor, hdescriptor, hopen⟩ := h view List.mem_cons_self
    obtain ⟨descriptors, hrest, hmap⟩ :=
      ih (show count + 1 + rest.length ≤ segmentLimit by omega)
        fun other hmem => h other (List.mem_cons_of_mem _ hmem)
    have hroom : count ≠ segmentLimit := by omega
    refine ⟨descriptor :: descriptors, ?_, ?_⟩
    · cases descriptor with
      | closed => exact absurd rfl hopen
      | _ =>
        simp only [describe, hroom, hdescriptor, hrest, ↓reduceIte, bind, Except.bind, pure,
          Except.pure, tableOf, List.flatMap_cons]
    · rw [List.map_cons, List.map_cons, hmap, hdescriptor]

/-- What is described can be sent, and there is room for it. -/
theorem sendable_of_describe {views : List SegmentView} {count : Nat}
    {described : Bytes × List Descriptor} (hle : count ≤ segmentLimit)
    (h : describe views count = .ok described) :
    count + views.length ≤ segmentLimit ∧ ∀ view ∈ views, view.Sendable := by
  induction views generalizing count described with
  | nil => exact ⟨hle, by simp⟩
  | cons view rest ih =>
    by_cases hroom : count = segmentLimit
    · simp only [describe, hroom, ↓reduceIte] at h
      exact absurd h nofun
    · have hsent : ∃ descriptor, view.descriptor = some descriptor ∧ descriptor ≠ .closed ∧
          ∃ later, describe rest (count + 1) = .ok later := by
        cases hdescriptor : view.descriptor with
        | none =>
          simp only [describe, hroom, ↓reduceIte, hdescriptor] at h
          exact absurd h nofun
        | some descriptor =>
          cases hrest : describe rest (count + 1) with
          | error reason =>
            cases descriptor <;>
              simp only [describe, hroom, ↓reduceIte, hdescriptor, hrest] at h <;>
              exact absurd h nofun
          | ok later =>
            refine ⟨descriptor, rfl, ?_, later, rfl⟩
            rintro rfl
            simp only [describe, hroom, ↓reduceIte, hdescriptor] at h
            exact absurd h nofun
      obtain ⟨descriptor, hdescriptor, hopen, later, hrest⟩ := hsent
      obtain ⟨hcount, hall⟩ := ih (by omega) hrest
      refine ⟨by rw [List.length_cons]; omega, fun other hmem => ?_⟩
      rcases List.mem_cons.1 hmem with rfl | hmem
      · exact ⟨descriptor, hdescriptor, hopen⟩
      · exact hall other hmem

theorem length_descriptors {descriptors : List Descriptor} {views : List SegmentView}
    (h : descriptors.map some = views.map SegmentView.descriptor) :
    descriptors.length = views.length := by
  have hlength := congrArg List.length h
  rwa [List.length_map, List.length_map] at hlength

/-- The message that names the sender and describes views, with a descriptor for each. -/
structure Describes (m : Message) (sender : UInt64) (views : List SegmentView) : Prop where
  data_eq : m.data = header sender views.length (tableOf views) ++ tableOf views
  descriptors_eq : m.descriptors.map some = views.map SegmentView.descriptor

theorem Describes.length_eq {m : Message} {sender : UInt64} {views : List SegmentView}
    (h : m.Describes sender views) : m.descriptors.length = views.length :=
  length_descriptors h.descriptors_eq

/-- Views are described just if there are no more than one message may describe, and all can be
sent. -/
theorem ofViews_cases (sender : UInt64) (views : List SegmentView) :
    (∃ m, ofViews sender views = .ok m ∧ m.Describes sender views ∧
      views.length ≤ segmentLimit ∧ ∀ view ∈ views, view.Sendable) ∨
    ∃ reason, ofViews sender views = .error reason ∧
      ¬(views.length ≤ segmentLimit ∧ ∀ view ∈ views, view.Sendable) := by
  by_cases h : views.length ≤ segmentLimit ∧ ∀ view ∈ views, view.Sendable
  · have hcount : 0 + views.length ≤ segmentLimit := by
      rw [Nat.zero_add]
      exact h.1
    obtain ⟨descriptors, hdescribe, hdescriptors⟩ := describe_of_sendable hcount h.2
    have hlength := length_descriptors hdescriptors
    refine Or.inl ⟨⟨header sender descriptors.length (tableOf views) ++ tableOf views, descriptors⟩,
      ?_, ⟨by rw [hlength], hdescriptors⟩, h⟩
    simp only [ofViews, hdescribe, bind, Except.bind, pure, Except.pure]
  · refine Or.inr ?_
    cases hdescribe : describe views 0 with
    | error reason =>
      refine ⟨reason, ?_, h⟩
      simp only [ofViews, hdescribe, bind, Except.bind]
    | ok described =>
      have hsent := sendable_of_describe (Nat.zero_le _) hdescribe
      rw [Nat.zero_add] at hsent
      exact absurd hsent h

/-! ## Taking what was handed off -/

/-- What is read behind the front of bytes is read from what follows. -/
theorem field_append_right (width start : Nat) (front tail : Bytes) :
    field width (front ++ tail) (front.length + start) = field width tail start := by
  rw [field, ← List.drop_drop, List.drop_left, field]

/-- A number is read back from its bytes. -/
theorem field_encode {width n : Nat} (tail : Bytes) (h : n < Nat.pow 256 width) :
    field width (LittleEndian.encode width n ++ tail) 0 = n := by
  rw [field, List.drop_zero, List.take_left' (LittleEndian.length_encode _ _),
    LittleEndian.decode_encode_of_lt h]

@[simp] theorem length_header (sender : UInt64) (count : Nat) (table : Bytes) :
    (header sender count table).length = headerSize := by
  simp [header, headerSize]

/-- An entry of a table is one of the view that it describes. -/
theorem entry_tableOf {views : List SegmentView} {i : Nat} {view : SegmentView}
    (hget : views[i]? = some view) :
    idAt (tableOf views) i = view.id ∧ lengthAt (tableOf views) i = view.data.length := by
  induction views generalizing i with
  | nil => exact absurd hget (by simp)
  | cons first rest ih =>
    have htable : tableOf (first :: rest) = entry first.id first.data.length ++ tableOf rest :=
      List.flatMap_cons
    cases i with
    | zero =>
      obtain rfl : first = view := Option.some.inj hget
      have hid : first.id.raw.toNat < Nat.pow 256 8 := first.id.raw.toNat_lt
      have hlength : first.data.length < Nat.pow 256 8 := by
        have hstop := first.data.stop_le
        have hblock := Nat.lt_trans first.data.block.size_lt Word.memoryLimit_lt
        have hlimit : Word.limit = Nat.pow 256 8 := by decide
        omega
      have hsecond := field_append_right 8 0 (LittleEndian.encode 8 first.id.raw.toNat)
        (LittleEndian.encode 8 first.data.length ++ tableOf rest)
      rw [LittleEndian.length_encode, field_encode _ hlength] at hsecond
      rw [htable, entry, List.append_assoc, idAt, lengthAt, Nat.zero_mul, field_encode _ hid,
        UInt64.ofNat_toNat]
      exact ⟨rfl, hsecond⟩
    | succ i =>
      have hplace : (i + 1) * entrySize =
          (entry first.id first.data.length).length + i * entrySize := by
        rw [length_entry, Nat.succ_mul, Nat.add_comm]
      obtain ⟨hid, hlength⟩ := ih hget
      rw [htable, idAt, lengthAt, hplace, Nat.add_assoc, field_append_right, field_append_right]
      exact ⟨hid, hlength⟩

namespace Describes

variable {m : Message} {sender : UInt64} {views : List SegmentView} {store : Store}

theorem sender_eq (h : m.Describes sender views) : m.sender = sender := by
  have hsender : sender.toNat < Nat.pow 256 8 := sender.toNat_lt
  rw [Message.sender, h.data_eq, header, List.append_assoc, List.append_assoc, senderOffset,
    field_encode _ hsender, UInt64.ofNat_toNat]

theorem count_eq (h : m.Describes sender views) (hle : views.length ≤ segmentLimit) :
    m.count = views.length := by
  have hcount : views.length < Nat.pow 256 4 := Nat.lt_of_le_of_lt hle (by decide)
  have hfront := field_append_right 4 0 (LittleEndian.encode 8 sender.toNat)
    (LittleEndian.encode 4 views.length ++
      (LittleEndian.encode 4 (Checksum.crc32 (tableOf views)).toNat ++ tableOf views))
  rw [LittleEndian.length_encode, field_encode _ hcount] at hfront
  rw [Message.count, h.data_eq, header, List.append_assoc, List.append_assoc]
  exact hfront

theorem checksum_eq (h : m.Describes sender views) :
    m.checksum = (Checksum.crc32 (tableOf views)).toNat := by
  have hcrc : (Checksum.crc32 (tableOf views)).toNat < Nat.pow 256 4 :=
    (Checksum.crc32 (tableOf views)).toNat_lt
  have hfront := field_append_right 4 0
    (LittleEndian.encode 8 sender.toNat ++ LittleEndian.encode 4 views.length)
    (LittleEndian.encode 4 (Checksum.crc32 (tableOf views)).toNat ++ tableOf views)
  rw [List.length_append, LittleEndian.length_encode, LittleEndian.length_encode,
    field_encode _ hcrc] at hfront
  rw [Message.checksum, h.data_eq, header, List.append_assoc]
  exact hfront

theorem table_eq (h : m.Describes sender views) : m.table = tableOf views := by
  rw [Message.table, h.data_eq, ← length_header sender views.length (tableOf views),
    List.drop_left]

theorem framed (h : m.Describes sender views) (hle : views.length ≤ segmentLimit) : m.Framed := by
  have hlength : m.data.length = headerSize + views.length * entrySize := by
    rw [h.data_eq, List.length_append, length_header, length_tableOf]
  refine ⟨?_, ?_, ?_, ?_, ?_⟩
  · rw [hlength]
    exact Nat.le_add_right _ _
  · rw [h.count_eq hle]
    exact hle
  · rw [hlength, h.count_eq hle]
  · rw [h.length_eq, h.count_eq hle]
  · rw [h.table_eq, h.checksum_eq]

/-- Descriptors stand in the order of the views. -/
theorem exists_view (h : m.Describes sender views) {i : Nat} {descriptor : Descriptor}
    (hget : m.descriptors[i]? = some descriptor) :
    ∃ view, views[i]? = some view ∧ view.descriptor = some descriptor := by
  have hmap : (views.map SegmentView.descriptor)[i]? = some (some descriptor) := by
    rw [← h.descriptors_eq, List.getElem?_map, hget, Option.map_some]
  rw [List.getElem?_map] at hmap
  obtain ⟨view, hview, hdescriptor⟩ := Option.map_eq_some_iff.1 hmap
  exact ⟨view, hview, hdescriptor⟩

/-- A message that describes views of shared memory, all of whole records, is well-formed. -/
theorem wellFormed (h : m.Describes sender views) (hle : views.length ≤ segmentLimit)
    (hmod : ∀ view ∈ views, view.data.length % Layout.alignment = 0)
    (hshared : ∀ view ∈ views, ∃ block, view.SharedFrom store block) : m.WellFormed store := by
  refine ⟨h.framed hle, fun i descriptor hget => ?_⟩
  obtain ⟨view, hview, hdescriptor⟩ := h.exists_view hget
  have hmem : view ∈ views := List.mem_of_getElem? hview
  obtain ⟨block, hblock⟩ := hshared view hmem
  have hlength : view.data.length ≤ store.size block := by
    have hstop := view.data.stop_le
    rw [hblock.start_eq, hblock.block_eq, Nat.zero_add] at hstop
    exact hstop
  rw [h.table_eq, (entry_tableOf hview).2]
  refine ⟨block, ?_, hblock.size_pos, hblock.size_le, hlength, hmod view hmem⟩
  exact Option.some.inj (hdescriptor.symm.trans hblock.descriptor_eq)

/-- The segment that is taken for a view shows what the view shows. -/
theorem view_takes {view : SegmentView} {block : Nat} (hblock : view.SharedFrom store block)
    {descriptor : Descriptor} (hdescriptor : view.descriptor = some descriptor) {segment : Segment}
    (h : Takes store view.id view.data.length descriptor segment) : segment.view store = view := by
  obtain ⟨id, ⟨whole, start, length, hstop⟩, shared⟩ := view
  obtain rfl : whole = store.block block := hblock.block_eq
  obtain rfl : start = 0 := hblock.start_eq
  obtain rfl : segment.id = id := h.id_eq
  obtain rfl : shared = some descriptor := hdescriptor
  obtain rfl : segment.mapping.block = block := by
    have heq := Option.some.inj hblock.descriptor_eq
    rw [h.descriptor_eq] at heq
    exact Descriptor.memory.inj heq
  have hlength : segment.capacity = length := h.capacity_eq
  have hfits : min segment.capacity (store.block segment.mapping.block).size = length := by
    rw [hlength]
    omega
  simp only [Segment.view, Segment.data, Extent.ofBlock, h.shared_eq, hfits]

/-- Taking the message gives segments that show what the views show. -/
theorem read (h : m.Describes sender views) (hle : views.length ≤ segmentLimit)
    (hmod : ∀ view ∈ views, view.data.length % Layout.alignment = 0)
    (hshared : ∀ view ∈ views, ∃ block, view.SharedFrom store block) :
    ∃ segments, m.read store = .ok (sender, segments) ∧
      segments.map (Segment.view store) = views ∧
      ∀ segment ∈ segments, segment.LiesIn store := by
  obtain ⟨segments, hread, hlength, htakes⟩ := read_of_wellFormed (h.wellFormed hle hmod hshared)
  rw [h.sender_eq] at hread
  rw [h.count_eq hle] at hlength
  have hshown : ∀ (i : Nat) (view : SegmentView), views[i]? = some view → ∃ segment : Segment,
      segments[i]? = some segment ∧ segment.view store = view ∧ segment.LiesIn store := by
    intro i view hview
    obtain ⟨block, hblock⟩ := hshared view (List.mem_of_getElem? hview)
    have hget : m.descriptors[i]? = some (.memory block) := by
      have hmap : (m.descriptors.map some)[i]? = some (some (.memory block)) := by
        rw [h.descriptors_eq, List.getElem?_map, hview, Option.map_some, hblock.descriptor_eq]
      rw [List.getElem?_map] at hmap
      obtain ⟨descriptor, hdescriptor, hsome⟩ := Option.map_eq_some_iff.1 hmap
      rw [hdescriptor, Option.some.inj hsome]
    obtain ⟨segment, hsegment, htake⟩ := htakes i _ hget
    rw [h.table_eq, (entry_tableOf hview).1, (entry_tableOf hview).2] at htake
    exact ⟨segment, hsegment, view_takes hblock hblock.descriptor_eq htake, htake.lies⟩
  refine ⟨segments, hread, ?_, ?_⟩
  · refine List.ext_getElem? fun i => ?_
    rw [List.getElem?_map]
    cases hview : views[i]? with
    | none =>
      have hend : segments.length ≤ i := by
        rw [hlength]
        exact List.getElem?_eq_none_iff.1 hview
      rw [List.getElem?_eq_none hend, Option.map_none]
    | some view =>
      obtain ⟨segment, hsegment, hshow, -⟩ := hshown i view hview
      rw [hsegment, Option.map_some, hshow]
  · intro segment hmem
    obtain ⟨i, hi, hget⟩ := List.getElem_of_mem hmem
    obtain ⟨other, hother, -, hlies⟩ := hshown i _
      (List.getElem?_eq_getElem (show i < views.length by rwa [← hlength]))
    rw [List.getElem?_eq_getElem hi, hget] at hother
    obtain rfl := Option.some.inj hother
    exact hlies

end Describes

/-! ## Handing off what was taken -/

theorem field_lt (width : Nat) (bs : Bytes) (start : Nat) :
    field width bs start < Nat.pow 256 width := by
  refine Nat.lt_of_lt_of_le (LittleEndian.decode_lt _) (Nat.pow_le_pow_right (by decide) ?_)
  rw [List.length_take]
  exact Nat.min_le_left _ _

/-- A number that was read is written as the bytes that it was read from. -/
theorem encode_field {width start : Nat} {bs : Bytes} (h : start + width ≤ bs.length) :
    LittleEndian.encode width (field width bs start) = (bs.drop start).take width := by
  have hlength : ((bs.drop start).take width).length = width := by
    rw [List.length_take, List.length_drop]
    omega
  have hencode := LittleEndian.encode_decode ((bs.drop start).take width)
  rwa [hlength] at hencode

/-- What an entry of a table says is written as the entry. -/
theorem entry_at {table : Bytes} {i : Nat} (h : i * entrySize + entrySize ≤ table.length) :
    entry (idAt table i) (lengthAt table i) = (table.drop (i * entrySize)).take entrySize := by
  have hid : (UInt64.ofNat (field 8 table (i * entrySize))).toNat =
      field 8 table (i * entrySize) := UInt64.toNat_ofNat_of_lt' (field_lt 8 _ _)
  have hsplit : (table.drop (i * entrySize)).take entrySize = (table.drop (i * entrySize)).take 8 ++
      ((table.drop (i * entrySize)).drop 8).take 8 :=
    @List.take_add _ (table.drop (i * entrySize)) 8 8
  rw [entry, idAt, hid, lengthAt, encode_field (by unfold entrySize at h ⊢; omega),
    encode_field (by unfold entrySize at h ⊢; omega), hsplit, List.drop_drop]

/-- Views that show what a table says are described by the table. -/
theorem tableOf_eq {table : Bytes} {index : Nat} {views : List SegmentView}
    (hlength : table.length = (index + views.length) * entrySize)
    (h : ∀ i view, views[i]? = some view →
      view.id = idAt table (index + i) ∧ view.data.length = lengthAt table (index + i)) :
    tableOf views = table.drop (index * entrySize) := by
  induction views generalizing index with
  | nil =>
    rw [List.length_nil, Nat.add_zero] at hlength
    rw [← hlength, List.drop_length]
    rfl
  | cons view rest ih =>
    rw [List.length_cons] at hlength
    have hbound : index * entrySize + entrySize ≤ table.length := by
      rw [hlength]
      unfold entrySize
      omega
    have hnext : table.length = (index + 1 + rest.length) * entrySize := by
      rw [hlength]
      congr 1
      omega
    obtain ⟨hid, hview⟩ := h 0 view rfl
    rw [Nat.add_zero] at hid hview
    have hrest : tableOf rest = table.drop ((index + 1) * entrySize) := by
      refine ih hnext fun i other hget => ?_
      rw [Nat.add_assoc, Nat.add_comm 1 i]
      exact h (i + 1) other hget
    have hcons : tableOf (view :: rest) = entry view.id view.data.length ++ tableOf rest :=
      List.flatMap_cons
    rw [hcons, hid, hview, entry_at hbound, hrest, Nat.succ_mul, ← List.drop_drop,
      List.take_append_drop]

/-- The header of a framed message is the one that is written before its table. -/
theorem Framed.header_eq {m : Message} (h : m.Framed) :
    header m.sender m.count m.table = m.data.take headerSize := by
  have hheader := h.header_le
  have hsender : m.sender.toNat = field 8 m.data senderOffset :=
    UInt64.toNat_ofNat_of_lt' (field_lt 8 _ _)
  have hsplit : headerSize = 8 + 4 + 4 := rfl
  rw [header, h.checksum_eq, hsender, count, checksum,
    encode_field (Nat.le_trans (by decide) hheader),
    encode_field (Nat.le_trans (by decide) hheader),
    encode_field (Nat.le_trans (by decide) hheader), hsplit, List.take_add, List.take_add]
  rfl

/-- Only one message describes views. -/
theorem Describes.unique {m m' : Message} {sender : UInt64} {views : List SegmentView}
    (h : m.Describes sender views) (h' : m'.Describes sender views) : m = m' := by
  obtain ⟨data, descriptors⟩ := m
  obtain ⟨data', descriptors'⟩ := m'
  obtain rfl : data = data' := h.data_eq.trans h'.data_eq.symm
  have hmap : descriptors.map some = descriptors'.map some :=
    h.descriptors_eq.trans h'.descriptors_eq.symm
  rw [List.map_inj_right fun _ _ => Option.some.inj] at hmap
  rw [hmap]

section Taken

variable {m : Message} {store : Store} {sender : UInt64} {segments : List Segment}

/-- What is taken shows what the message says. -/
theorem WellFormed.getElem?_view (h : m.WellFormed store)
    (hread : m.read store = .ok (sender, segments)) {i : Nat} {view : SegmentView}
    (hget : (segments.map (Segment.view store))[i]? = some view) :
    ∃ descriptor, m.descriptors[i]? = some descriptor ∧ view.descriptor = some descriptor ∧
      descriptor ≠ .closed ∧ view.id = idAt m.table i ∧
      view.data.length = lengthAt m.table i := by
  obtain ⟨segments', hread', hlength, htakes⟩ := read_of_wellFormed h
  obtain ⟨rfl, rfl⟩ := Prod.mk.inj (Except.ok.inj (hread'.symm.trans hread))
  rw [List.getElem?_map] at hget
  obtain ⟨segment, hsegment, rfl⟩ := Option.map_eq_some_iff.1 hget
  have hi : i < m.descriptors.length := by
    rw [h.framed.descriptors_eq, ← hlength]
    exact (List.getElem?_eq_some_iff.1 hsegment).1
  obtain ⟨other, hother, htake⟩ := htakes i _ (List.getElem?_eq_getElem hi)
  obtain rfl := Option.some.inj (hother.symm.trans hsegment)
  refine ⟨_, List.getElem?_eq_getElem hi, htake.shared_eq, ?_, htake.id_eq, ?_⟩
  · rw [htake.descriptor_eq]
    exact nofun
  · exact htake.lies.length_data.trans htake.capacity_eq

theorem WellFormed.length_views (h : m.WellFormed store)
    (hread : m.read store = .ok (sender, segments)) :
    (segments.map (Segment.view store)).length = m.count := by
  obtain ⟨segments', hread', hlength, -⟩ := read_of_wellFormed h
  obtain ⟨rfl, rfl⟩ := Prod.mk.inj (Except.ok.inj (hread'.symm.trans hread))
  rw [List.length_map, hlength]

/-- A message that is taken describes what is taken. -/
theorem WellFormed.describes (h : m.WellFormed store)
    (hread : m.read store = .ok (m.sender, segments)) :
    m.Describes m.sender (segments.map (Segment.view store)) := by
  have hcount := h.length_views hread
  have hbound : m.table.length = (0 + (segments.map (Segment.view store)).length) * entrySize := by
    rw [hcount, Nat.zero_add, table, List.length_drop, h.framed.length_eq, Nat.add_sub_cancel_left]
  have htable : tableOf (segments.map (Segment.view store)) = m.table := by
    rw [tableOf_eq hbound fun i view hget => ?_, Nat.zero_mul, List.drop_zero]
    obtain ⟨descriptor, -, -, -, hid, hview⟩ := h.getElem?_view hread hget
    rw [Nat.zero_add]
    exact ⟨hid, hview⟩
  refine ⟨?_, List.ext_getElem? fun i => ?_⟩
  · rw [htable, hcount, h.framed.header_eq, table, List.take_append_drop]
  · rw [List.getElem?_map, List.getElem?_map]
    cases hview : (segments.map (Segment.view store))[i]? with
    | none =>
      have hend : m.descriptors.length ≤ i := by
        rw [h.framed.descriptors_eq, ← hcount]
        exact List.getElem?_eq_none_iff.1 hview
      rw [List.getElem?_eq_none hend]
      rfl
    | some view =>
      obtain ⟨descriptor, hget, hdescriptor, -⟩ := h.getElem?_view hread hview
      rw [hget, Option.map_some, Option.map_some, hdescriptor]

/-- A message that is taken is the one that hands off what is taken. -/
theorem ofViews_of_wellFormed (h : m.WellFormed store)
    (hread : m.read store = .ok (m.sender, segments)) :
    ofViews m.sender (segments.map (Segment.view store)) = .ok m := by
  have hsendable : ∀ view ∈ segments.map (Segment.view store), view.Sendable := by
    intro view hmem
    obtain ⟨i, hi, hget⟩ := List.getElem_of_mem hmem
    have hsome : (segments.map (Segment.view store))[i]? = some view := by
      rw [List.getElem?_eq_getElem hi, hget]
    obtain ⟨descriptor, -, hdescriptor, hopen, -⟩ := h.getElem?_view hread hsome
    exact ⟨descriptor, hdescriptor, hopen⟩
  rcases ofViews_cases m.sender (segments.map (Segment.view store)) with
    ⟨m', hsent, hdescribes, -⟩ | ⟨reason, -, hnot⟩
  · rw [hsent, hdescribes.unique (h.describes hread)]
  · have hle : (segments.map (Segment.view store)).length ≤ segmentLimit := by
      rw [h.length_views hread]
      exact h.framed.count_le
    exact absurd ⟨hle, hsendable⟩ hnot

end Taken

end Message

namespace Tape

theorem store_receive (m : Message) (s : Session σ) :
    (receive m s : Outcome Failure (UInt64 × Tape σ) × Session σ).2.store = s.store := by
  unfold receive
  cases m.read s.store <;> rfl

/-- What is taken is a tape over the segments that are read. -/
theorem receive_eq_ok {m : Message} {s : Session σ} {sender : UInt64} {tape : Tape σ}
    (h : (receive m s).1 = .ok (sender, tape)) :
    ∃ segments, m.read s.store = .ok (sender, segments) ∧ tape = ofSegments segments := by
  unfold receive at h
  cases hread : m.read s.store with
  | error halt =>
    rw [hread] at h
    exact absurd h nofun
  | ok result =>
    rw [hread] at h
    obtain ⟨rfl, rfl⟩ := Prod.mk.inj (Except.ok.inj h)
    exact ⟨result.2, rfl, rfl⟩

/-- Playing depends on the client and on what is shown. -/
theorem forEach_eq_of_views {tape tape' : Tape σ} {s : Session σ}
    (hviews : tape.views s.store = tape'.views s.store) (client? : Option (ReadingClient σ))
    (v : Vocabulary C) (f : Visitor σ γ) (start : γ) :
    (tape.setReader client?).forEach v f start s =
      (tape'.setReader client?).forEach v f start s := by
  have hset : (tape.setReader client?).views s.store = (tape'.setReader client?).views s.store :=
    hviews
  unfold forEach
  rw [hset]
  rfl

/-- Handing off sends what describes what is shown. -/
theorem handOff_fst (tape : Tape σ) (sender : UInt64) (s : Session σ) :
    (tape.handOff sender s).1 = Message.ofViews sender (tape.views s.store) := by
  unfold handOff
  cases Message.ofViews sender (tape.views s.store) <;> rfl

/-- A message that describes views of shared memory, all of whole records, is taken as a tape that
shows them. -/
theorem receive_of_describes {m : Message} {sender : UInt64} {views : List SegmentView}
    {s : Session σ} (h : m.Describes sender views) (hle : views.length ≤ Message.segmentLimit)
    (hmod : ∀ view ∈ views, view.data.length % Layout.alignment = 0)
    (hshared : ∀ view ∈ views, ∃ block, view.SharedFrom s.store block) :
    ∃ reader : Tape σ, (receive m s).1 = .ok (sender, reader) ∧ reader.views s.store = views ∧
      reader.size = SegmentView.total views := by
  obtain ⟨segments, hread, hviews, hlies⟩ := h.read hle hmod hshared
  have hshown : (ofSegments segments : Tape σ).views s.store = views := by
    rw [views_ofSegments, hviews]
  refine ⟨ofSegments segments, ?_, hshown, ?_⟩
  · simp only [receive, hread]
  · rw [(has_ofSegments hlies).size_eq_total, hshown]

/-- Handing off what was taken sends the message that it was taken from. -/
theorem handOff_of_receive {m : Message} {s : Session σ} {sender : UInt64} {tape : Tape σ}
    (h : (receive m s).1 = .ok (sender, tape)) :
    (tape.handOff sender (receive m s : _ × Session σ).2).1 = .ok m := by
  obtain ⟨segments, hread, rfl⟩ := receive_eq_ok h
  have hwell : m.WellFormed s.store := by
    rcases m.wellFormed_or_rejected s.store with hwell | ⟨reason, hrejected⟩
    · exact hwell
    · cases hread.symm.trans (Message.read_of_rejected hrejected)
  obtain ⟨segments', hread', -⟩ := Message.read_of_wellFormed hwell
  obtain ⟨rfl, -⟩ := Prod.mk.inj (Except.ok.inj (hread'.symm.trans hread))
  rw [handOff_fst, store_receive, views_ofSegments]
  exact Message.ofViews_of_wellFormed hwell hread

/-- In sessions with the same memory, the reader shows the same as the tape, is as large, and plays
in the same way. -/
structure StandsFor (reader tape : Tape σ) (store : Store) : Prop where
  views_eq : reader.views store = tape.views store
  size_eq : reader.size = tape.size
  forEach_eq : ∀ (γ C : Type) (client? : Option (ReadingClient σ)) (v : Vocabulary C)
    (f : Visitor σ γ) (start : γ) (t : Session σ), t.store = store →
      (reader.setReader client?).forEach v f start t = (tape.setReader client?).forEach v f start t

/-- What it comes to that a sender hands the tape off in one session, and that it is taken in
another. -/
structure HandsOver (tape : Tape σ) (sender : UInt64) (before s : Session σ) : Prop where
  /-- The tape is handed off just if one message may describe what it shows, and all of it can be
  sent. -/
  sent_iff : (∃ m, (tape.handOff sender before).1 = .ok m) ↔
    (tape.views s.store).length ≤ Message.segmentLimit ∧ ∀ view ∈ tape.views s.store, view.Sendable
  /-- The message leaves nothing out. -/
  describes : ∀ m, (tape.handOff sender before).1 = .ok m → m.Describes sender (tape.views s.store)
  /-- If what the tape shows is shared memory with whole records, taking the message gives the
  sender and a tape that stands for this one. -/
  taken : ∀ m, (tape.handOff sender before).1 = .ok m →
    (∀ view ∈ tape.views s.store, view.data.length % Layout.alignment = 0) →
    (∀ view ∈ tape.views s.store, ∃ block, view.SharedFrom s.store block) →
    ∃ reader, (receive m s).1 = .ok (sender, reader) ∧ reader.StandsFor tape s.store

/-- Handing off and taking are inverse. Whatever was done with a tape, what is taken of it stands
for it, if it can be handed off; and whatever message is taken, handing off what it gives makes the
same message. -/
theorem handOff_receive_inverse {d : TapeState σ} {given : List Segment}
    (hfresh : d.tape.Fresh d.session.store given) (steps : List (Step σ)) (sender : UInt64)
    {s : Session σ} (hstore : s.store = (d.run steps).session.store) :
    (d.run steps).tape.HandsOver sender (d.run steps).session s ∧
    ∀ (m : Message) (t : Session σ) (uid : UInt64) (taken : Tape σ),
      (receive m t).1 = .ok (uid, taken) →
        (taken.handOff uid (receive m t : _ × Session σ).2).1 = .ok m := by
  obtain ⟨c, hhas, -, -⟩ := TapeState.holds_run (d := d) hfresh.holds steps
  refine ⟨?_, fun m t uid taken htaken => handOff_of_receive htaken⟩
  rw [← hstore] at hhas
  generalize (d.run steps).tape = tape at hhas
  have hsent : (tape.handOff sender (d.run steps).session).1 =
      Message.ofViews sender (tape.views s.store) := by
    rw [handOff_fst, hstore]
  refine ⟨?_, ?_, ?_⟩
  · rw [hsent]
    rcases Message.ofViews_cases sender (tape.views s.store) with
      ⟨m, hm, -, hsendable⟩ | ⟨reason, hm, hnot⟩
    · rw [hm]
      exact ⟨fun _ => hsendable, fun _ => ⟨m, rfl⟩⟩
    · rw [hm]
      refine ⟨?_, fun h => absurd h hnot⟩
      rintro ⟨_, h⟩
      cases h
  · intro m hm
    rw [hsent] at hm
    rcases Message.ofViews_cases sender (tape.views s.store) with
      ⟨m', hm', hdescribes, -⟩ | ⟨reason, hm', -⟩
    · rw [hm'] at hm
      exact Except.ok.inj hm ▸ hdescribes
    · rw [hm'] at hm
      cases hm
  · intro m hm hmod hshared
    rw [hsent] at hm
    rcases Message.ofViews_cases sender (tape.views s.store) with
      ⟨m', hm', hdescribes, hle, -⟩ | ⟨reason, hm', -⟩
    · obtain rfl := Except.ok.inj (hm'.symm.trans hm)
      obtain ⟨reader, hreceive, hshown, hsize⟩ :=
        receive_of_describes (s := s) hdescribes hle hmod hshared
      refine ⟨reader, hreceive, hshown, hsize.trans hhas.size_eq_total.symm, ?_⟩
      intro γ C client? v f start t ht
      refine forEach_eq_of_views ?_ client? v f start
      rw [ht]
      exact hshown
    · rw [hm'] at hm
      cases hm

/-- Two segments that were taken from another program are handed off to a third. -/
theorem handOff_receive_inverse_sample :
    let tape : Tape Tallies := ofSegments [Sample.handed, Sample.handed]
    ∃ m reader, (tape.handOff 3 Sample.sharing).1 = .ok m ∧
      (receive m Sample.sharing).1 = .ok (3, reader) ∧
      reader.views Sample.sharing.store = tape.views Sample.sharing.store := by
  intro tape
  have hlies : ∀ segment ∈ [Sample.handed, Sample.handed],
      segment.LiesIn Sample.sharing.store := Sample.handed_liesIn (by simp)
  have hviews : tape.views Sample.sharing.store =
      [Sample.handed.view Sample.sharing.store, Sample.handed.view Sample.sharing.store] := rfl
  obtain ⟨hover, -⟩ := handOff_receive_inverse (d := ⟨tape, Sample.sharing⟩) (.ofSegments hlies)
    [] 3 (s := Sample.sharing) rfl
  have hall : ∀ view ∈ tape.views Sample.sharing.store,
      view = Sample.handed.view Sample.sharing.store := by
    rw [hviews]
    simp
  obtain ⟨m, hm⟩ := hover.sent_iff.2 ⟨by decide, fun view hmem => by
    rw [hall view hmem]
    exact ⟨_, rfl, nofun⟩⟩
  obtain ⟨reader, hreceive, hstands⟩ := hover.taken m hm
    (fun view hmem => by
      rw [hall view hmem]
      decide)
    (fun view hmem => by
      rw [hall view hmem]
      exact ⟨0, rfl, rfl, rfl, by decide, by decide⟩)
  exact ⟨m, reader, hm, hreceive, hstands.views_eq⟩

end Tape

end CommandTape
