import CommandTape.Proofs.Reading
import CommandTape.Proofs.Steps

/-!
# Damaged records

An encoded record of whose fields one was overwritten (`Record.ofFields`) is read as far as its
fields say: it may reach over the end of the segment (`Frame.read_of_end`), or not have its checksum
(`Frame.read_of_mismatch`). Playing a tape on which one record was replaced by such bytes ends in
front of it (`Recorded.Site.endsAfter`).
-/

namespace CommandTape

variable {σ γ C : Type}

/-! ## Overwriting fields -/

theorem Bytes.overwrite_middle {front middle back new : Bytes} (h : new.length = middle.length) :
    overwrite (front ++ (middle ++ back)) front.length new = front ++ (new ++ back) := by
  rw [overwrite, List.take_left, ← List.drop_drop, List.drop_left, List.drop_left' h.symm,
    List.append_assoc]

namespace Record

/-- The length is overwritten, and nothing else. -/
theorem overwrite_length (tag : Tag) (blob : Bytes) {new : Bytes} (h : new.length = 4) :
    Bytes.overwrite (encoded tag blob) Layout.lengthOffset new = ofFields tag new
      (LittleEndian.encode 4 (Checksum.crc32 blob).toNat) (blob ++ padding blob.length) := by
  have hnew : new.length = (LittleEndian.encode 4 blob.length).length := by
    rw [h, LittleEndian.length_encode]
  rw [encoded_eq_ofFields]
  exact Bytes.overwrite_middle hnew

/-- The checksum is overwritten, and nothing else. -/
theorem overwrite_checksum (tag : Tag) (blob : Bytes) {new : Bytes} (h : new.length = 4) :
    Bytes.overwrite (encoded tag blob) Layout.checksumOffset new =
      ofFields tag (LittleEndian.encode 4 blob.length) new (blob ++ padding blob.length) := by
  have hnew : new.length = (LittleEndian.encode 4 (Checksum.crc32 blob).toNat).length := by
    rw [h, LittleEndian.length_encode]
  have hfront : (header tag ++ LittleEndian.encode 4 blob.length).length =
      Layout.checksumOffset := rfl
  rw [encoded_eq_ofFields, ofFields, ofFields, ← List.append_assoc, ← List.append_assoc, ← hfront]
  exact Bytes.overwrite_middle hnew

/-- The blob is overwritten, and nothing else. -/
theorem overwrite_blob (tag : Tag) {blob new : Bytes} (h : new.length = blob.length) :
    Bytes.overwrite (encoded tag blob) Layout.blobOffset new =
      ofFields tag (LittleEndian.encode 4 blob.length)
        (LittleEndian.encode 4 (Checksum.crc32 blob).toNat) (new ++ padding blob.length) := by
  have hfront : (header tag ++ (LittleEndian.encode 4 blob.length ++
      LittleEndian.encode 4 (Checksum.crc32 blob).toNat)).length = Layout.blobOffset := rfl
  rw [encoded_eq_ofFields, ofFields, ofFields, ← List.append_assoc (LittleEndian.encode 4 _),
    ← List.append_assoc (LittleEndian.encode 4 _), ← List.append_assoc (header tag),
    ← List.append_assoc (header tag), ← hfront]
  exact Bytes.overwrite_middle h

/-- The record starts with a header that it cannot be changed in. -/
theorem startsWith_ofFields {v : Vocabulary C} {tag : Tag} {kind : Kind}
    (hkind : v.kind? tag = some kind) (length checksum body : Bytes) :
    StartsWith v (ofFields tag length checksum body) tag kind := by
  refine ⟨?_, rfl, hkind⟩
  rw [ofFields, List.length_append, length_header]
  exact Nat.le_add_right _ _

end Record

/-! ## Reading damaged records -/

namespace Frame

variable {v : Vocabulary C} {location : Location} {rest : Extent} {tag : Tag} {kind : Kind}

/-- What starts with a header is read as a record of the kind that its tag stands for. -/
theorem readBody_of_startsWith (h : StartsWith v rest.toList tag kind) (hasClient : Bool) :
    readBody v hasClient location rest =
      if kind.isInline then (readInline location kind.recordSize rest).map .inline
      else if hasClient then (readBlob rest).map (.encoded tag)
      else .error (.failed .missingReadingClient) := by
  obtain ⟨hheader, htag, hkind⟩ := h
  obtain ⟨more, hcons⟩ : ∃ more, rest.toList = tag :: more := List.head?_eq_some_iff.1 htag
  have hlength : ¬rest.length < Layout.headerSize := by
    rw [← rest.length_toList]
    exact Nat.not_lt.2 hheader
  have hread : rest.read 0 1 = [tag] := by
    rw [Extent.read_eq, hcons]
    rfl
  simp only [readBody, hlength, ↓reduceIte, hread, hkind]

/-- What starts with the header of an encoded record is read as one, if there is a client. -/
theorem read_of_startsWith (h : StartsWith v rest.toList tag kind)
    (hinline : kind.isInline = false) : Frame.read v true location rest =
      (readBlob rest).map fun blob => ⟨location, .encoded tag blob⟩ := by
  rw [Frame.read, readBody_of_startsWith h]
  simp only [hinline, Bool.false_eq_true, ↓reduceIte]
  cases readBlob rest <;> rfl

/-- The record reaches over the end. -/
theorem read_of_end (h : StartsWith v rest.toList tag kind) (hinline : kind.isInline = false)
    (hend : rest.toList.length < Layout.encodedSize (Record.blobLength rest.toList)) :
    Frame.read v true location rest = .error (.failed .unexpectedEnd) := by
  rw [Extent.length_toList] at hend
  rw [read_of_startsWith h hinline, readBlob_of_lt hend]
  rfl

/-- The record does not have its checksum. -/
theorem read_of_mismatch (h : StartsWith v rest.toList tag kind) (hinline : kind.isInline = false)
    (hsize : Layout.encodedSize (Record.blobLength rest.toList) ≤ rest.toList.length)
    (hchecksum : (Checksum.crc32 (Record.blob rest.toList)).toNat ≠
      Record.blobChecksum rest.toList) :
    Frame.read v true location rest = .error (.failed .checksumMismatch) := by
  rw [Extent.length_toList] at hsize
  rw [read_of_startsWith h hinline, readBlob_of_le hsize, if_pos hchecksum]
  rfl

end Frame

/-! ## Tapes with a damaged record -/

/-- The segments of the tape show just these bytes. -/
def Tape.Shows (tape : Tape σ) (store : Store) (texts : List Bytes) : Prop :=
  (tape.views store).map (fun view => view.data.toList) = texts

/-- If a tape shows parts of which one is replaced by other bytes, one of its segments has these
bytes, and those before it show the parts before it. -/
theorem Tape.Shows.exists_view {tape : Tape σ} {store : Store} {parts : List (List Recorded)}
    {index : Nat} {bytes : Bytes}
    (h : tape.Shows store ((parts.map Recorded.text).set index bytes))
    (hindex : index < parts.length) :
    ∃ front view behind, tape.views store = front ++ view :: behind ∧
      front.map (fun view => view.data.toList) = (parts.take index).map Recorded.text ∧
      view.data.toList = bytes := by
  have hindex' : index < (parts.map Recorded.text).length := by
    rw [List.length_map]
    exact hindex
  unfold Tape.Shows at h
  rw [List.set_eq_take_append_cons_drop, if_pos hindex'] at h
  obtain ⟨front, rest, hviews, hfront, hrest⟩ := List.map_eq_append_iff.1 h
  obtain ⟨view, behind, rfl, hdata, -⟩ := List.map_eq_cons_iff.1 hrest
  rw [← List.map_take] at hfront
  exact ⟨front, view, behind, hviews, hfront, hdata⟩

namespace Recorded

/-- There is only one way to divide records into parts that show the same. -/
theorem parts_unique {parts others : List (List Recorded)}
    (hflatten : parts.flatten = others.flatten) (htext : parts.map text = others.map text) :
    parts = others := by
  induction parts generalizing others with
  | nil => exact (List.map_eq_nil_iff.1 htext.symm).symm
  | cons part rest ih =>
    cases others with
    | nil => exact absurd htext (by simp)
    | cons part' rest' =>
      obtain ⟨hpart, hrest⟩ := List.cons.inj htext
      rw [List.flatten_cons, List.flatten_cons] at hflatten
      -- one part is at the front of the other, and nothing is left of that
      have hfront : part = part' := by
        rcases List.append_eq_append_iff.1 hflatten with ⟨more, rfl, -⟩ | ⟨more, rfl, -⟩
        all_goals
          rw [text_append] at hpart
          have hlength := congrArg List.length hpart
          rw [List.length_append] at hlength
          have hnone : (text more).length = 0 := by omega
          rw [length_text_eq_zero_iff.1 hnone, List.append_nil]
      subst hfront
      rw [ih (List.append_cancel_left hflatten) hrest]

/-- Where a record stands in parts. -/
structure Site (parts : List (List Recorded)) (r : Recorded) where
  /-- The number of its part. -/
  index : Nat
  /-- What is before it in its part. -/
  before : List Recorded
  /-- What is behind it in its part. -/
  after : List Recorded
  getElem?_eq : parts[index]? = some (before ++ r :: after)

namespace Site

variable {parts : List (List Recorded)} {r : Recorded}

/-- The records before the record. -/
def earlier (site : Site parts r) : List Recorded :=
  (parts.take site.index).flatten ++ site.before

/-- The records behind the record. -/
def later (site : Site parts r) : List Recorded :=
  site.after ++ (parts.drop (site.index + 1)).flatten

/-- What the parts show if other bytes stand in the place of the record's. -/
def replaced (site : Site parts r) (record : Bytes) : List Bytes :=
  (parts.map text).set site.index (text site.before ++ (record ++ text site.after))

/-- The consumer plays all that is before the record, and could play the record. -/
structure ReachedBy (site : Site parts r) (v : Vocabulary C) (reader? : Option (ReadingClient σ)) :
    Prop where
  earlier : ∀ r ∈ site.earlier, r.PlayableBy v reader?
  known : v.kind? r.item.kind.tag = some r.item.kind
  client : reader?.isSome = true

theorem flatten_eq (site : Site parts r) : parts.flatten = site.earlier ++ r :: site.later := by
  have hparts : parts = parts.take site.index ++
      (site.before ++ r :: site.after) :: parts.drop (site.index + 1) := by
    have hdrop : parts.drop site.index =
        parts[site.index]?.toList ++ parts.drop (site.index + 1) :=
      List.drop_eq_getElem?_toList_append
    rw [site.getElem?_eq] at hdrop
    exact (List.take_append_drop site.index parts).symm.trans (congrArg _ hdrop)
  conv_lhs => rw [hparts]
  rw [List.flatten_append, List.flatten_cons, earlier, later, List.append_assoc,
    List.append_assoc, List.cons_append]

/-- Playing ends in front of bytes in the place of the record that cannot be read. -/
theorem endsAfter (site : Site parts r) {tape : Tape σ} {s : Session σ} {record : Bytes}
    (hshows : tape.Shows s.store (site.replaced record)) (hrecord : record ≠ []) {v : Vocabulary C}
    (hearlier : ∀ r ∈ site.earlier, r.PlayableBy v tape.reader) {f : Visitor σ γ}
    (hf : ∀ view s state, (f view s state).1 = .ok ()) (start : γ) {reason : DecodeError}
    (hread : ∀ location rest, rest.toList = record ++ text site.after →
      Frame.read v tape.reader.isSome location rest = .error (.failed reason)) :
    tape.EndsAfter v f start s site.earlier reason := by
  have hindex := (List.getElem?_eq_some_iff.1 site.getElem?_eq).1
  obtain ⟨front, view, behind, hviews, hfront, hdata⟩ := hshows.exists_view hindex
  have hleft : record ++ text site.after ≠ [] :=
    fun h => hrecord (List.append_eq_nil_iff.1 h).1
  exact Tape.forEach_stopped hviews hfront hleft hdata hearlier (f.accepts_of_total hf _ _) hread

/-- Playing ends in front of an encoded record with other fields: it reaches over the end of its
segment, or the bytes that its length spans do not have its checksum. -/
theorem endsAfter_of_fields {item : Item} {blob : Bytes} {hinline : item.kind.isInline = false}
    {hlen : blob.length < Layout.blobLimit} (site : Site parts (.encoded item blob hinline hlen))
    {tape : Tape σ} {s : Session σ} {length checksum body : Bytes} (hlength : length.length = 4)
    (hchecksum : checksum.length = 4)
    (hshows : tape.Shows s.store
      (site.replaced (Record.ofFields item.kind.tag length checksum body)))
    {v : Vocabulary C} (hreached : site.ReachedBy v tape.reader) {f : Visitor σ γ}
    (hf : ∀ view s state, (f view s state).1 = .ok ()) (start : γ) :
    let left := Record.ofFields item.kind.tag length checksum body ++ text site.after
    let size := LittleEndian.decode length
    (left.length < Layout.encodedSize size →
      tape.EndsAfter v f start s site.earlier .unexpectedEnd) ∧
    (Layout.encodedSize size ≤ left.length →
      (Checksum.crc32 ((left.drop Layout.blobOffset).take size)).toNat ≠
        LittleEndian.decode checksum →
      tape.EndsAfter v f start s site.earlier .checksumMismatch) := by
  intro left size
  have hfields : left = Record.ofFields item.kind.tag length checksum (body ++ text site.after) :=
    Record.ofFields_append _ _
  have hstarts : StartsWith v left item.kind.tag item.kind := by
    rw [hfields]
    exact Record.startsWith_ofFields hreached.known _ _ _
  have hsize : Record.blobLength left = size := by
    rw [hfields, Record.blobLength_ofFields _ hlength]
  have hne : Record.ofFields item.kind.tag length checksum body ≠ [] := List.cons_ne_nil _ _
  constructor
  · intro hend
    refine site.endsAfter hshows hne hreached.earlier hf start
      fun location rest (hrest : rest.toList = left) => ?_
    rw [hreached.client]
    refine Frame.read_of_end (hrest ▸ hstarts) hinline ?_
    rw [hrest, hsize]
    exact hend
  · intro hfits hspanned
    refine site.endsAfter hshows hne hreached.earlier hf start
      fun location rest (hrest : rest.toList = left) => ?_
    rw [hreached.client]
    refine Frame.read_of_mismatch (hrest ▸ hstarts) hinline ?_ ?_
    · rw [hrest, hsize]
      exact hfits
    · rw [hrest, Record.blob, hsize, hfields, Record.blobChecksum_ofFields _ hlength hchecksum,
        ← hfields]
      exact hspanned

end Site

end Recorded

/-! ## Wrong lengths -/

/-- After any steps on a tape without items, or steps in which the tape was cleared, its segments
show the records that were recorded and not cleared since. -/
theorem TapeState.exists_parts {d : TapeState σ} {segments : List Segment}
    (hfresh : d.tape.Fresh d.session.store segments) {steps : List (Step σ)}
    (hnew : segments = [] ∨ Step.clear ∈ steps) :
    ∃ parts : List (List Recorded),
      (d.run steps).tape.Shows (d.run steps).session.store (parts.map Recorded.text) ∧
      parts.flatten = d.log [] steps := by
  obtain ⟨c, hhas, hgiven, hrecords⟩ := holds_run (d := d) hfresh.holds steps
  rw [given_eq_nil hnew] at hgiven
  refine ⟨c.filled.map Chapter.records, ?_, ?_⟩
  · rw [Tape.Shows, hhas.views_eq, Contents.views, hgiven, List.map_nil, List.nil_append,
      hhas.toList_views, List.map_map]
    rfl
  · rw [← List.flatMap_def, c.flatMap_filled, hrecords]

/-- If the length of an encoded record is overwritten, playing visits the items before it and ends:
because the record reaches over the end of its segment, or because the bytes that the length spans
do not have the checksum of the blob. The reading client is handed nothing of the record. -/
theorem TapeState.wrong_length_stops {d : TapeState σ} {segments : List Segment}
    (hfresh : d.tape.Fresh d.session.store segments) {steps : List (Step σ)}
    (hnew : segments = [] ∨ Step.clear ∈ steps) :
    ∃ parts : List (List Recorded),
      (d.run steps).tape.Shows (d.run steps).session.store (parts.map Recorded.text) ∧
      parts.flatten = d.log [] steps ∧
      ∀ (item : Item) (blob : Bytes) (hinline : item.kind.isInline = false)
        (hlen : blob.length < Layout.blobLimit)
        (site : Recorded.Site parts (.encoded item blob hinline hlen)),
        d.log [] steps = site.earlier ++ .encoded item blob hinline hlen :: site.later ∧
        ∀ n < Layout.blobLimit,
          let record := Bytes.overwrite (Record.encoded item.kind.tag blob) Layout.lengthOffset
            (LittleEndian.encode 4 n)
          let left := record ++ Recorded.text site.after
          ∀ (γ C : Type) (tape : Tape σ) (s : Session σ) (v : Vocabulary C) (f : Visitor σ γ)
            (start : γ), tape.Shows s.store (site.replaced record) →
            site.ReachedBy v tape.reader → (∀ view s state, (f view s state).1 = .ok ()) →
            (left.length < Layout.encodedSize n →
              tape.EndsAfter v f start s site.earlier .unexpectedEnd) ∧
            (Layout.encodedSize n ≤ left.length →
              Checksum.crc32 ((left.drop Layout.blobOffset).take n) ≠ Checksum.crc32 blob →
              tape.EndsAfter v f start s site.earlier .checksumMismatch) := by
  obtain ⟨parts, hparts, hlog⟩ := exists_parts (d := d) hfresh hnew
  refine ⟨parts, hparts, hlog, fun item blob hinline hlen site => ⟨?_, ?_⟩⟩
  · rw [← hlog, site.flatten_eq]
  · intro n hn record left γ C tape s v f start hshows hreached hf
    have hrecord := Record.overwrite_length item.kind.tag blob (LittleEndian.length_encode 4 n)
    have hsize : LittleEndian.decode (LittleEndian.encode 4 n) = n :=
      LittleEndian.decode_encode_of_lt hn
    have hchecksum : LittleEndian.decode (LittleEndian.encode 4 (Checksum.crc32 blob).toNat) =
        (Checksum.crc32 blob).toNat :=
      LittleEndian.decode_encode_of_lt (Checksum.crc32 blob).toNat_lt
    simp only [left, record, hrecord] at hshows ⊢
    obtain ⟨hend, hmismatch⟩ := site.endsAfter_of_fields (LittleEndian.length_encode 4 n)
      (LittleEndian.length_encode 4 _) hshows hreached hf start
    rw [hsize] at hend hmismatch
    rw [hchecksum] at hmismatch
    exact ⟨hend, fun hfits hspanned => hmismatch hfits fun h => hspanned (UInt32.toNat_inj.1 h)⟩

namespace Sample

/-- What the two segments show. -/
def parts : List (List Recorded) :=
  [[.inline (uniform trackedKind 7) rfl],
    [.encoded (blob [1, 2, 3]) [1, 2, 3] rfl (by decide), .inline (uniform byteKind 9) rfl]]

theorem eq_parts {others : List (List Recorded)}
    (hshows : (tapeState.run steps).tape.Shows (tapeState.run steps).session.store
      (others.map Recorded.text))
    (hlog : others.flatten = tapeState.log [] steps) : others = parts := by
  have htexts : (tapeState.run steps).tape.Shows (tapeState.run steps).session.store
      (parts.map Recorded.text) := by
    unfold Tape.Shows
    decide +kernel
  exact Recorded.parts_unique hlog (hshows.symm.trans htexts)

/-- Where the blob stands. -/
def site : Recorded.Site parts (.encoded (blob [1, 2, 3]) [1, 2, 3] rfl (by decide)) :=
  ⟨1, [], [.inline (uniform byteKind 9) rfl], rfl⟩

theorem reached_site : site.ReachedBy coreVocabulary (some reader) := by
  refine ⟨fun r hmem => ?_, rfl, rfl⟩
  obtain rfl : r = .inline (uniform trackedKind 7) rfl := List.mem_singleton.1 hmem
  exact ⟨rfl, trivial⟩

/-- The tape, and a session in which bytes were written over the second segment. -/
def garbled (offset : Nat) (new : Bytes) : TapeState Tallies :=
  let last := tapeState.run steps
  ⟨last.tape.setReader (some reader),
    { last.session with store := last.session.store.write 1 offset new }⟩

/-- Counts what it visits. -/
def counter : Visitor Tallies Nat := fun _ _ seen => (.ok (), seen + 1)

end Sample

/-- A blob of three bytes has two, or thirty, according to its length. -/
theorem TapeState.wrong_length_stops_sample :
    let short := Sample.garbled 8 [2, 0, 0, 0]
    let long := Sample.garbled 8 [30, 0, 0, 0]
    (short.tape.forEach Sample.coreVocabulary Sample.counter 0 short.session).1 =
      .error (.failed .checksumMismatch) ∧
    (long.tape.forEach Sample.coreVocabulary Sample.counter 0 long.session).1 =
      .error (.failed .unexpectedEnd) := by
  intro short long
  have hmade : Tape.withCapacity 12 = .ok Sample.tapeState.tape := rfl
  have hnew : ([] : List Segment) = [] ∨ Step.clear ∈ Sample.steps := Or.inl rfl
  obtain ⟨parts, hshows, hlog, hall⟩ := wrong_length_stops (.withCapacity hmade) hnew
  obtain rfl : parts = Sample.parts := Sample.eq_parts hshows hlog
  obtain ⟨-, hstops⟩ := hall _ _ _ _ Sample.site
  have hshort := hstops 2 (by decide) Nat _ short.tape short.session Sample.coreVocabulary
    Sample.counter 0 (by unfold Tape.Shows; decide +kernel) Sample.reached_site fun _ _ _ => rfl
  have hlong := hstops 30 (by decide) Nat _ long.tape long.session Sample.coreVocabulary
    Sample.counter 0 (by unfold Tape.Shows; decide +kernel) Sample.reached_site fun _ _ _ => rfl
  exact ⟨(hshort.2 (by decide +kernel) (by decide +kernel)).outcome,
    (hlong.1 (by decide +kernel)).outcome⟩

namespace Sample

/-- A tape whose clients have kept the blobs that were handed to them. -/
def keeping : TapeState (List Bytes) :=
  ⟨⟨none, none, .empty, [], none, 0, 16⟩, .start machine []⟩

/-- A client for shared memory that encodes items and keeps nothing. -/
def encoder : WritingClient (List Bytes) where
  supply minimum next kept := (SharedMemory.supply machine "tape" 24 minimum next, kept)
  encode view kept := (Encoder.core.encode view, kept)

/-- A client that keeps the blobs that it is handed, and makes items of them. -/
def keeper : ReadingClient (List Bytes) :=
  ⟨fun bytes _ _ kept => (.ofItem (blob bytes), kept ++ [bytes])⟩

end Sample

/-- The checksum does not tell how many zeros there are: a blob of one zero is taken for one of two
if the length says so. -/
theorem TapeState.wrong_length_trusted :
    let last := Sample.keeping.run
      [.setWriter (some Sample.encoder), .append (Sample.blob [0])]
    let record := Bytes.overwrite (Record.encoded Sample.blobKind.tag [0]) Layout.lengthOffset
      (LittleEndian.encode 4 2)
    let tape := last.tape.setReader (some Sample.keeper)
    let s := { last.session with
      store := last.session.store.write 0 Layout.lengthOffset (LittleEndian.encode 4 2) }
    let played := tape.forEach Sample.coreVocabulary (fun _ _ seen => (.ok (), seen + 1)) 0 s
    tape.Shows last.session.store [Record.encoded Sample.blobKind.tag [0]] ∧
      tape.Shows s.store [record] ∧ played.1 = .ok 1 ∧ played.2.1 = 1 ∧
      played.2.2.clients = [[0, 0]] := by
  unfold Tape.Shows
  decide +kernel

end CommandTape
