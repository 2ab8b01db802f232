import CommandTape.Proofs.Fields

/-!
# What bytes can be played

The bytes of a segment are legible as far as they are records that a consumer can play: inline
records of kinds that it knows, and encoded records whose blobs are intact and that its reading
client makes items of. Where there is no such record, the bytes there are illegible for just one
reason (`Illegible.unique`). A record tells its own size, whatever follows it
(`Legible.length_eq`), so there is only one way to read bytes (`Reads.unique`), and that reads the
longest row of records at their front (`Reads.prefix_of_sentence`).

The reading client is a function of the blob and its tag here: what it makes of a blob does not
depend on what it was asked before.
-/

namespace CommandTape

variable {C : Type}

/-! ## What decodings leave -/

namespace Slot

/-- The item that steps leave in a slot that holds `held` before them. -/
def leftBy (held : Option Item) : List SlotStep → Except Fault (Option Item)
  | [] => .ok held
  | .emplace item :: rest =>
    if item.kind.fits then leftBy (some item) rest
    else .error (.overAligned item.kind.name item.kind.align)
  | .reset :: rest => leftBy none rest
  | .swap spare :: rest => leftBy spare.held? rest

/-- A step ends well, and the rest goes on from what it leaves; or it ends all in a fault. -/
theorem step_leftBy (slot : Slot) (held : Option Item) (step : SlotStep) :
    ((slot.step step).1 = .ok () ∧
      ∀ rest, leftBy held (step :: rest) = leftBy (heldAfter held step) rest) ∨
    ∃ f, (slot.step step).1 = .error f ∧ ∀ rest, leftBy held (step :: rest) = .error f := by
  cases step with
  | emplace item =>
    by_cases hfits : item.kind.fits = true
    · obtain ⟨next, hemplace, -, -⟩ := slot.emplace_of_fits hfits
      refine Or.inl ⟨by rw [Slot.step, hemplace], fun rest => ?_⟩
      rw [leftBy, if_pos hfits, heldAfter, if_pos hfits]
    · refine Or.inr ⟨_, by rw [Slot.step, slot.emplace_of_not_fits hfits], fun rest => ?_⟩
      rw [leftBy, if_neg hfits]
  | reset | swap spare => exact Or.inl ⟨rfl, fun rest => rfl⟩

/-- What steps leave in a slot does not depend on its memory. It is shown at the slot's location, or
at that of the last slot that was put in its place. -/
theorem run_leftBy {slot : Slot} {held : Option Item} (steps : List SlotStep)
    (h : slot.HoldsJust held) :
    (∃ left next gone, leftBy held steps = .ok left ∧ slot.run steps = (.ok (), next, gone) ∧
      next.HoldsJust left ∧ next.location = steps.foldl SlotStep.shownAt slot.location) ∨
    ∃ f next gone, leftBy held steps = .error f ∧ slot.run steps = (.error f, next, gone) := by
  induction steps generalizing slot held with
  | nil => exact Or.inl ⟨held, slot, [], rfl, rfl, h, rfl⟩
  | cons step rest ih =>
    obtain ⟨hholds, hlocation⟩ := h.step step
    have hends := slot.step_leftBy held step
    rcases hstep : slot.step step with ⟨outcome, next, gone⟩
    rw [hstep] at hholds hlocation hends
    rcases hends with ⟨rfl, hleft⟩ | ⟨f, rfl, hleft⟩
    · simp only [run, hstep, hleft, List.foldl_cons, ← hlocation]
      rcases ih hholds with
        ⟨left, last, later, hrest, hrun, hlast⟩ | ⟨f, last, later, hrest, hrun⟩
      · rw [hrun]
        exact Or.inl ⟨left, last, _, hrest, rfl, hlast⟩
      · rw [hrun]
        exact Or.inr ⟨f, last, _, hrest, rfl⟩
    · simp only [run, hstep, hleft]
      exact Or.inr ⟨f, next, gone, rfl, rfl⟩

end Slot

namespace Decoding

/-- How a decoding ends on an empty slot, and the item that it leaves there. -/
def result (d : Decoding) : Outcome DecodeError (Option Item) :=
  match Slot.leftBy none d.steps with
  | .error f => .error (.fault f)
  | .ok left => d.ending.map fun _ => left

/-- The view of an item that the decoding leaves, if it was made for a record at a location. -/
def viewOf (d : Decoding) (location : Location) (item : Item) : View :=
  View.ofItem item (d.shownAt location)

theorem shows_viewOf (d : Decoding) (location : Location) (item : Item) :
    (d.viewOf location item).Shows item := View.shows_ofItem item _

/-- If the slot stays in its place, its item shows the location of the record. -/
theorem KeepsSlot.shownAt_eq {d : Decoding} (h : d.KeepsSlot) (location : Location) :
    d.shownAt location = location := SlotStep.foldl_shownAt h location

/-- An item in a new slot that took the place of the one that was lent shows where that slot is
taken to be, and not where its record stands. -/
example (item : Item) (location : Location) :
    Decoding.shownAt ⟨[.swap ⟨⟨⟨0⟩, 0⟩, none, by simp⟩, .emplace item], .ok ()⟩ location =
      ⟨⟨0⟩, 0⟩ := rfl

/-- What a decoding leaves in an empty slot, and where that is shown. -/
theorem runOn_of_holdsJust (d : Decoding) {slot : Slot} (h : slot.HoldsJust none) :
    (∃ left next gone, d.result = .ok left ∧ d.runOn slot = (.ok (), next, gone) ∧
      next.HoldsJust left ∧ next.location = d.shownAt slot.location) ∨
    ∃ halt next gone, d.result = .error halt ∧ d.runOn slot = (.error halt, next, gone) := by
  rcases Slot.run_leftBy d.steps h with
    ⟨left, next, gone, hleft, hrun, hnext⟩ | ⟨f, next, gone, hleft, hrun⟩
  · cases hending : d.ending with
    | ok u =>
      refine Or.inl ⟨left, next, gone, ?_, ?_, hnext⟩
      · simp only [result, hleft, hending, Except.map]
      · simp only [runOn, hrun, hending]
    | error halt =>
      refine Or.inr ⟨halt, next, gone, ?_, ?_⟩
      · simp only [result, hleft, hending, Except.map]
      · simp only [runOn, hrun, hending]
  · refine Or.inr ⟨.fault f, next, gone, ?_, ?_⟩
    · simp only [result, hleft]
    · simp only [runOn, hrun]

end Decoding

/-! ## Records -/

/-- The bytes start with a header whose tag stands for the kind. -/
structure StartsWith (v : Vocabulary C) (bs : Bytes) (tag : Tag) (kind : Kind) : Prop where
  header_le : Layout.headerSize ≤ bs.length
  head_eq : bs.head? = some tag
  kind_eq : v.kind? tag = some kind

/-- The bytes are one record that can be played at the location, where the view shows it: an inline
record of just the size of its kind, or an encoded record of just the size that its blob takes, with
a blob that has its checksum and of which the reading client makes an item of the record's tag. -/
inductive Legible (v : Vocabulary C) (decode? : Option (Bytes → Tag → Decoding))
    (location : Location) (record : Bytes) : View → Prop
  | inline {tag : Tag} {kind : Kind} {view : View} (hstart : StartsWith v record tag kind)
      (hinline : kind.isInline = true) (hsize : record.length = kind.recordSize)
      (hview : View.ofRecord record [] location = .ok view) :
      Legible v decode? location record view
  | encoded {tag : Tag} {kind : Kind} {decode : Bytes → Tag → Decoding} {item : Item}
      (hstart : StartsWith v record tag kind) (hinline : kind.isInline = false)
      (hdecode : decode? = some decode)
      (hsize : record.length = Layout.encodedSize (Record.blobLength record))
      (hchecksum : (Checksum.crc32 (Record.blob record)).toNat = Record.blobChecksum record)
      (hresult : (decode (Record.blob record) tag).result = .ok (some item))
      (hitem : item.kind.tag = tag) :
      Legible v decode? location record ((decode (Record.blob record) tag).viewOf location item)

/-- Why no item can be made of a blob. -/
inductive Undecodable (decode : Bytes → Tag → Decoding) (tag : Tag) (blob : Bytes) :
    Halt DecodeError → Prop
  /-- The reading client rejects the blob, or gives up. -/
  | rejected {halt : Halt DecodeError} (h : (decode blob tag).result = .error halt) :
      Undecodable decode tag blob halt
  /-- It leaves nothing in the slot. -/
  | nothing (h : (decode blob tag).result = .ok none) :
      Undecodable decode tag blob (.failed (.malformed
        ("reading client produced no item for type " ++ Hexadecimal.ofTag tag)))
  /-- It leaves an item of another tag. -/
  | otherTag {item : Item} (h : (decode blob tag).result = .ok (some item))
      (hitem : item.kind.tag ≠ tag) :
      Undecodable decode tag blob (.failed (.tagMismatch tag item.kind.tag))

/-- Why there is no record at the front of bytes that can be played. -/
inductive Illegible (v : Vocabulary C) (decode? : Option (Bytes → Tag → Decoding)) (bs : Bytes) :
    Halt DecodeError → Prop
  /-- The bytes end in the header. -/
  | header (h : bs.length < Layout.headerSize) :
      Illegible v decode? bs (.failed .unexpectedEnd)
  /-- The tag means nothing to the consumer. -/
  | unknown {tag : Tag} (hheader : Layout.headerSize ≤ bs.length) (htag : bs.head? = some tag)
      (hkind : v.kind? tag = none) :
      Illegible v decode? bs (.failed (.unknownTag tag))
  /-- The bytes end in an inline record. -/
  | inlineEnd {tag : Tag} {kind : Kind} (hstart : StartsWith v bs tag kind)
      (hinline : kind.isInline = true) (h : bs.length < kind.recordSize) :
      Illegible v decode? bs (.failed .unexpectedEnd)
  /-- There is no reading client for an encoded record. -/
  | noReader {tag : Tag} {kind : Kind} (hstart : StartsWith v bs tag kind)
      (hinline : kind.isInline = false) (hdecode : decode? = none) :
      Illegible v decode? bs (.failed .missingReadingClient)
  /-- The bytes end in an encoded record, be it before its blob. -/
  | encodedEnd {tag : Tag} {kind : Kind} {decode : Bytes → Tag → Decoding}
      (hstart : StartsWith v bs tag kind) (hinline : kind.isInline = false)
      (hdecode : decode? = some decode)
      (h : bs.length < Layout.encodedSize (Record.blobLength bs)) :
      Illegible v decode? bs (.failed .unexpectedEnd)
  /-- The blob does not have its checksum. -/
  | checksum {tag : Tag} {kind : Kind} {decode : Bytes → Tag → Decoding}
      (hstart : StartsWith v bs tag kind) (hinline : kind.isInline = false)
      (hdecode : decode? = some decode)
      (hsize : Layout.encodedSize (Record.blobLength bs) ≤ bs.length)
      (h : (Checksum.crc32 (Record.blob bs)).toNat ≠ Record.blobChecksum bs) :
      Illegible v decode? bs (.failed .checksumMismatch)
  /-- No item of the record's tag can be made of the blob. -/
  | undecodable {tag : Tag} {kind : Kind} {decode : Bytes → Tag → Decoding}
      {halt : Halt DecodeError} (hstart : StartsWith v bs tag kind)
      (hinline : kind.isInline = false) (hdecode : decode? = some decode)
      (hsize : Layout.encodedSize (Record.blobLength bs) ≤ bs.length)
      (hchecksum : (Checksum.crc32 (Record.blob bs)).toNat = Record.blobChecksum bs)
      (h : Undecodable decode tag (Record.blob bs) halt) :
      Illegible v decode? bs halt

section Front

variable {v : Vocabulary C} {decode? : Option (Bytes → Tag → Decoding)} {location : Location}

theorem StartsWith.unique {bs : Bytes} {tag tag' : Tag} {kind kind' : Kind}
    (h : StartsWith v bs tag kind) (h' : StartsWith v bs tag' kind') :
    tag = tag' ∧ kind = kind' := by
  obtain rfl : tag = tag' := Option.some.inj (h.head_eq.symm.trans h'.head_eq)
  exact ⟨rfl, Option.some.inj (h.kind_eq.symm.trans h'.kind_eq)⟩

theorem StartsWith.append {bs : Bytes} {tag : Tag} {kind : Kind} (h : StartsWith v bs tag kind)
    (tail : Bytes) : StartsWith v (bs ++ tail) tag kind := by
  refine ⟨?_, ?_, h.kind_eq⟩
  · rw [List.length_append]
    exact Nat.le_trans h.header_le (Nat.le_add_right _ _)
  · rw [List.head?_append, h.head_eq]
    rfl

theorem StartsWith.take {bs : Bytes} {tag : Tag} {kind : Kind} (h : StartsWith v bs tag kind)
    {count : Nat} (hheader : Layout.headerSize ≤ count) (hcount : count ≤ bs.length) :
    StartsWith v (bs.take count) tag kind := by
  refine ⟨?_, ?_, h.kind_eq⟩
  · rw [List.length_take, Nat.min_eq_left hcount]
    exact hheader
  · have hpos : count ≠ 0 := Nat.ne_of_gt (Nat.lt_of_lt_of_le (by decide) hheader)
    rw [List.head?_take, if_neg hpos, h.head_eq]

theorem Legible.headerSize_le {record : Bytes} {view : View}
    (h : Legible v decode? location record view) : Layout.headerSize ≤ record.length := by
  cases h with
  | inline hstart hinline hsize hview => exact hstart.header_le
  | encoded hstart hinline hdecode hsize hchecksum hresult hitem => exact hstart.header_le

/-- The front of bytes is an inline record, if they go as far. -/
theorem StartsWith.legible_inline {bs : Bytes} {tag : Tag} {kind : Kind} {view : View}
    (h : StartsWith v bs tag kind) (hinline : kind.isInline = true)
    (hsize : kind.recordSize ≤ bs.length)
    (hview : View.ofRecord (bs.take kind.recordSize) [] location = .ok view) :
    Legible v decode? location (bs.take kind.recordSize) view := by
  have hlength : (bs.take kind.recordSize).length = kind.recordSize := by
    rw [List.length_take, Nat.min_eq_left hsize]
  exact .inline (h.take kind.headerSize_le_recordSize hsize) hinline hlength hview

/-- The front of bytes is an encoded record, if they go as far, the blob is intact and the reading
client makes an item of it. -/
theorem StartsWith.legible_encoded {bs : Bytes} {tag : Tag} {kind : Kind}
    {decode : Bytes → Tag → Decoding} {item : Item} (h : StartsWith v bs tag kind)
    (hinline : kind.isInline = false)
    (hsize : Layout.encodedSize (Record.blobLength bs) ≤ bs.length)
    (hchecksum : (Checksum.crc32 (Record.blob bs)).toNat = Record.blobChecksum bs)
    (hresult : (decode (Record.blob bs) tag).result = .ok (some item))
    (hitem : item.kind.tag = tag) :
    Legible v (some decode) location (bs.take (Layout.encodedSize (Record.blobLength bs)))
      ((decode (Record.blob bs) tag).viewOf location item) := by
  have hheader : Layout.headerSize ≤ Layout.encodedSize (Record.blobLength bs) :=
    Nat.le_trans (by decide) (Nat.le_add_right _ _)
  -- the blob of the record alone is that of the bytes that it stands in front of
  rw [← Record.blob_take hsize] at hchecksum hresult ⊢
  rw [← Record.blobChecksum_take hsize] at hchecksum
  refine .encoded (h.take hheader hsize) hinline rfl ?_ hchecksum hresult hitem
  rw [Record.length_take_encodedSize hsize, Record.blobLength_take hsize]

/-- The size of the record at the front of bytes, as far as its tag is known. -/
def frontSize (v : Vocabulary C) (bs : Bytes) : Nat :=
  match bs.head?.bind v.kind? with
  | none => 0
  | some kind =>
    if kind.isInline then kind.recordSize else Layout.encodedSize (Record.blobLength bs)

theorem StartsWith.frontSize_eq {bs : Bytes} {tag : Tag} {kind : Kind}
    (h : StartsWith v bs tag kind) :
    frontSize v bs =
      if kind.isInline then kind.recordSize else Layout.encodedSize (Record.blobLength bs) := by
  rw [frontSize, h.head_eq, Option.bind_some, h.kind_eq]

/-- A record that can be played tells its own size, whatever follows it. -/
theorem Legible.length_eq {record : Bytes} {view : View}
    (h : Legible v decode? location record view) (tail : Bytes) :
    record.length = frontSize v (record ++ tail) := by
  cases h with
  | inline hstart hinline hsize hview =>
    rw [(hstart.append tail).frontSize_eq, if_pos hinline, hsize]
  | encoded hstart hinline hdecode hsize hchecksum hresult hitem =>
    have hoffset : Layout.blobOffset ≤ record.length := by
      rw [hsize]
      exact Nat.le_add_right _ _
    rw [(hstart.append tail).frontSize_eq, hinline, if_neg Bool.false_ne_true,
      Record.blobLength_append tail hoffset, ← hsize]

/-- Bytes start with one record at most that can be played. -/
theorem Legible.eq_of_append_eq {location' : Location} {record record' : Bytes} {view view' : View}
    (h : Legible v decode? location record view) (h' : Legible v decode? location' record' view')
    {tail tail' : Bytes} (heq : record ++ tail = record' ++ tail') :
    record = record' ∧ tail = tail' := by
  refine List.append_inj heq ?_
  rw [h.length_eq tail, h'.length_eq tail', heq]

theorem Legible.view_unique {record : Bytes} {view view' : View}
    (h : Legible v decode? location record view) (h' : Legible v decode? location record view') :
    view = view' := by
  cases h with
  | inline hstart hinline hsize hview =>
    cases h' with
    | inline hstart' hinline' hsize' hview' => exact Except.ok.inj (hview.symm.trans hview')
    | encoded hstart' hinline' =>
      obtain ⟨-, rfl⟩ := hstart.unique hstart'
      exact absurd (hinline.symm.trans hinline') (by simp)
  | encoded hstart hinline hdecode hsize hchecksum hresult hitem =>
    cases h' with
    | inline hstart' hinline' =>
      obtain ⟨-, rfl⟩ := hstart.unique hstart'
      exact absurd (hinline.symm.trans hinline') (by simp)
    | encoded hstart' hinline' hdecode' hsize' hchecksum' hresult' hitem' =>
      obtain ⟨rfl, -⟩ := hstart.unique hstart'
      obtain rfl := Option.some.inj (hdecode.symm.trans hdecode')
      obtain rfl := Option.some.inj (Except.ok.inj (hresult.symm.trans hresult'))
      rfl

/-- A client that keeps the slot has the record shown where it stands. -/
theorem Legible.location_eq {record : Bytes} {view : View}
    (hkeeps : ∀ decode ∈ decode?, ∀ blob tag, (decode blob tag).KeepsSlot)
    (h : Legible v decode? location record view) : view.location = location := by
  cases h with
  | inline hstart hinline hsize hview =>
    rw [View.ofRecord, dif_pos hstart.header_le] at hview
    rw [← Except.ok.inj hview]
  | @encoded tag kind decode item hstart hinline hdecode hsize hchecksum hresult hitem =>
    exact (hkeeps decode hdecode (Record.blob record) tag).shownAt_eq location

theorem Undecodable.unique {decode : Bytes → Tag → Decoding} {tag : Tag} {blob : Bytes}
    {halt halt' : Halt DecodeError} (h : Undecodable decode tag blob halt)
    (h' : Undecodable decode tag blob halt') : halt = halt' := by
  cases h <;> cases h' <;> grind

/-- The reasons exclude each other. -/
theorem Illegible.unique {bs : Bytes} {halt halt' : Halt DecodeError}
    (h : Illegible v decode? bs halt) (h' : Illegible v decode? bs halt') : halt = halt' := by
  cases h <;> cases h' <;> grind [StartsWith, Undecodable.unique]

theorem Undecodable.tag_ne {decode : Bytes → Tag → Decoding} {tag : Tag} {blob : Bytes}
    {halt : Halt DecodeError} (h : Undecodable decode tag blob halt) {item : Item}
    (hresult : (decode blob tag).result = .ok (some item)) : item.kind.tag ≠ tag := by
  cases h <;> grind

/-- Bytes that start with a record that can be played give no reason why there is none. -/
theorem Illegible.not_legible {record tail : Bytes} {view : View} {halt : Halt DecodeError}
    (h : Illegible v decode? (record ++ tail) halt) : ¬Legible v decode? location record view := by
  intro hlegible
  have hlength : (record ++ tail).length = record.length + tail.length := List.length_append
  cases hlegible with
  | inline hstart hinline hsize hview =>
    have hstart' := hstart.append tail
    cases h <;> grind [StartsWith]
  | encoded hstart hinline hdecode hsize hchecksum hresult hitem =>
    have hstart' := hstart.append tail
    have hoffset : Layout.blobOffset ≤ record.length := hsize ▸ Nat.le_add_right _ _
    have hfield := Record.blobLength_append tail hoffset
    have hfield' := Record.blobChecksum_append tail hoffset
    have hblob := Record.blob_append tail (Nat.le_of_eq hsize.symm)
    cases h <;> grind [StartsWith, Undecodable.tag_ne]

end Front

/-! ## Records in a row -/

/-- Records that stand one behind the other from an offset on and can all be played, and the views
that show them. -/
inductive Sentence (v : Vocabulary C) (decode? : Option (Bytes → Tag → Decoding))
    (segment : SegmentId) : (offset : Nat) → List Bytes → List View → Prop
  | nil (offset : Nat) : Sentence v decode? segment offset [] []
  | cons {offset : Nat} {record : Bytes} {view : View} {records : List Bytes} {views : List View}
      (h : Legible v decode? ⟨segment, offset⟩ record view)
      (hrest : Sentence v decode? segment (offset + record.length) records views) :
      Sentence v decode? segment offset (record :: records) (view :: views)

/-- What ends the reading of bytes, if anything does before their end: what is left is nothing, or
illegible. -/
inductive Ends (v : Vocabulary C) (decode? : Option (Bytes → Tag → Decoding)) :
    Bytes → Option (Halt DecodeError) → Prop
  | finished : Ends v decode? [] none
  | halted {left : Bytes} {halt : Halt DecodeError} (hne : left ≠ [])
      (h : Illegible v decode? left halt) : Ends v decode? left (some halt)

/-- Bytes that stand from an offset on are read as the records, up to their end or to what halts
the reading. -/
structure Reads (v : Vocabulary C) (decode? : Option (Bytes → Tag → Decoding))
    (segment : SegmentId) (offset : Nat) (bs : Bytes) (records : List Bytes) (views : List View)
    (halt? : Option (Halt DecodeError)) : Prop where
  sentence : Sentence v decode? segment offset records views
  ends : ∃ left, bs = records.flatten ++ left ∧ Ends v decode? left halt?

section Rows

variable {v : Vocabulary C} {decode? : Option (Bytes → Tag → Decoding)} {segment : SegmentId}
  {offset : Nat} {bs : Bytes} {records records' : List Bytes} {views views' : List View}
  {halt? halt?' : Option (Halt DecodeError)}

theorem Sentence.length_eq (h : Sentence v decode? segment offset records views) :
    views.length = records.length := by
  induction h with
  | nil offset => rfl
  | cons h hrest ih => rw [List.length_cons, List.length_cons, ih]

theorem Ends.unique {left : Bytes} (h : Ends v decode? left halt?)
    (h' : Ends v decode? left halt?') : halt? = halt?' := by
  cases h with
  | finished =>
    cases h' with
    | finished => rfl
    | halted hne h' => exact absurd rfl hne
  | halted hne h =>
    cases h' with
    | finished => exact absurd rfl hne
    | halted hne' h' => rw [h.unique h']

/-- No record can be played where reading ends. -/
theorem Ends.not_legible {record tail : Bytes} (h : Ends v decode? (record ++ tail) halt?)
    {location : Location} {view : View} : ¬Legible v decode? location record view := by
  intro hlegible
  generalize hleft : record ++ tail = left at h
  cases h with
  | finished =>
    have hheader := hlegible.headerSize_le
    rw [(List.append_eq_nil_iff.1 hleft).1] at hheader
    exact absurd hheader (by decide)
  | halted hne h =>
    subst hleft
    exact h.not_legible hlegible

/-- Bytes are read as the longest row of records at their front that can be played. -/
theorem Reads.prefix_of_sentence (h : Reads v decode? segment offset bs records views halt?)
    (h' : Sentence v decode? segment offset records' views') (hfront : records'.flatten <+: bs) :
    records' <+: records ∧ views' <+: views := by
  obtain ⟨hsentence, left, hbs, hends⟩ := h
  induction hsentence generalizing records' views' bs with
  | nil offset =>
    cases h' with
    | nil => exact ⟨List.prefix_rfl, List.prefix_rfl⟩
    | @cons _ record view rest views hrecord hrest =>
      obtain ⟨tail, htail⟩ := hfront
      rw [hbs, List.flatten_nil, List.nil_append, List.flatten_cons, List.append_assoc] at htail
      rw [← htail] at hends
      exact absurd hrecord hends.not_legible
  | @cons offset record view records views hrecord hrest ih =>
    cases h' with
    | nil => exact ⟨List.nil_prefix, List.nil_prefix⟩
    | @cons _ record' view' records' views' hrecord' hrest' =>
      obtain ⟨tail, htail⟩ := hfront
      rw [hbs, List.flatten_cons, List.flatten_cons, List.append_assoc, List.append_assoc] at htail
      obtain ⟨hsame, htails⟩ := hrecord'.eq_of_append_eq hrecord htail
      subst hsame
      obtain rfl := hrecord'.view_unique hrecord
      obtain ⟨hrecords, hviews⟩ := ih hrest' ⟨tail, htails⟩ rfl
      exact ⟨List.cons_prefix_cons.2 ⟨rfl, hrecords⟩, List.cons_prefix_cons.2 ⟨rfl, hviews⟩⟩

/-- There is only one way to read bytes. -/
theorem Reads.unique (h : Reads v decode? segment offset bs records views halt?)
    (h' : Reads v decode? segment offset bs records' views' halt?') :
    records = records' ∧ views = views' ∧ halt? = halt?' := by
  obtain ⟨left, hbs, hends⟩ := h.ends
  obtain ⟨left', hbs', hends'⟩ := h'.ends
  have hfront := h.prefix_of_sentence h'.sentence ⟨left', hbs'.symm⟩
  have hfront' := h'.prefix_of_sentence h.sentence ⟨left, hbs.symm⟩
  have hrecords : records = records' :=
    hfront'.1.eq_of_length (Nat.le_antisymm hfront'.1.length_le hfront.1.length_le)
  have hviews : views = views' :=
    hfront'.2.eq_of_length (Nat.le_antisymm hfront'.2.length_le hfront.2.length_le)
  subst hrecords
  obtain rfl : left = left' := List.append_cancel_left (hbs.symm.trans hbs')
  exact ⟨rfl, hviews, hends.unique hends'⟩

end Rows

end CommandTape
