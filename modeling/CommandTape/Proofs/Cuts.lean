import CommandTape.Proofs.Damage
import CommandTape.Proofs.Fronts
import CommandTape.Proofs.RoundTrip

/-!
# Cut segments

The front of a record is no record: wherever it is cut, reading it fails because its bytes end
(`Frame.read_cut`). So bytes that records were cut to are the records that end before the cut, and
the front of one more, unless the cut is between two (`Recorded.take_text`). A tape of which one
segment was cut plays up to the cut, and goes on with the next segment only if the cut is between
two records (`TapeState.plays_up_to_cut`).
-/

namespace CommandTape

variable {σ τ γ C : Type}

/-! ## The front of a record -/

namespace Frame

/-- The bytes end in the header. -/
theorem read_of_lt_header (v : Vocabulary C) (hasClient : Bool) (location : Location)
    {rest : Extent} (h : rest.toList.length < Layout.headerSize) :
    Frame.read v hasClient location rest = .error (.failed .unexpectedEnd) := by
  rw [Extent.length_toList] at h
  rw [Frame.read, readBody, if_pos h]
  rfl

/-- The bytes end in an inline record. -/
theorem read_of_inlineEnd {v : Vocabulary C} {location : Location} {rest : Extent} {tag : Tag}
    {kind : Kind} (h : StartsWith v rest.toList tag kind) (hinline : kind.isInline = true)
    (hend : rest.toList.length < kind.recordSize) (hasClient : Bool) :
    Frame.read v hasClient location rest = .error (.failed .unexpectedEnd) := by
  rw [Extent.length_toList] at hend
  rw [Frame.read, readBody_of_startsWith h, if_pos hinline, readInline_of_lt hend]
  rfl

end Frame

namespace Record

/-- The front of an encoded record says that the record is longer, or ends before it says so. -/
theorem length_take_lt_encodedSize (tag : Tag) {blob : Bytes}
    (hlen : blob.length < Layout.blobLimit) {m : Nat} (hm : m < (encoded tag blob).length) :
    ((encoded tag blob).take m).length <
      Layout.encodedSize (blobLength ((encoded tag blob).take m)) := by
  have hlength : ((encoded tag blob).take m).length = m := List.length_take_of_le (Nat.le_of_lt hm)
  rw [hlength]
  by_cases hoffset : m < Layout.blobOffset
  · exact Nat.lt_of_lt_of_le hoffset (Nat.le_add_right _ _)
  · have hfront : Layout.blobOffset ≤ ((encoded tag blob).take m).length := by
      rw [hlength]
      exact Nat.le_of_not_lt hoffset
    have hfield := blobLength_append ((encoded tag blob).drop m) hfront
    rw [List.take_append_drop, blobLength_encoded tag hlen] at hfield
    rw [← hfield, ← length_encoded tag blob]
    exact hm

end Record

/-- The front of a record that could be played cannot be read, because its bytes end. -/
theorem Frame.read_cut {v : Vocabulary C} {reader? : Option (ReadingClient σ)} {r : Recorded}
    (hplay : r.PlayableBy v reader?) {m : Nat} (hm : m < r.bytes.length) (location : Location)
    {rest : Extent} (hrest : rest.toList = r.bytes.take m) :
    Frame.read v reader?.isSome location rest = .error (.failed .unexpectedEnd) := by
  have hlength : rest.toList.length = m := by
    rw [hrest, List.length_take_of_le (Nat.le_of_lt hm)]
  by_cases hheader : m < Layout.headerSize
  · exact read_of_lt_header v _ location (hlength ▸ hheader)
  · have hstart : StartsWith v rest.toList r.item.kind.tag r.item.kind := by
      rw [hrest]
      exact (Recorded.startsWith hplay.1).take (Nat.le_of_not_lt hheader) (Nat.le_of_lt hm)
    cases r with
    | inline item hinline =>
      refine read_of_inlineEnd hstart hinline ?_ _
      rw [hlength]
      exact Nat.lt_of_lt_of_eq hm (Record.length_inline item)
    | encoded item blob hinline hlen =>
      obtain ⟨-, client, rfl, -⟩ := hplay
      refine read_of_end hstart hinline ?_
      rw [hrest]
      exact Record.length_take_lt_encodedSize item.kind.tag hlen hm

/-! ## The front of records -/

namespace Recorded

/-- The place in the bytes of records lies between two of them, or at an end. -/
def IsBoundary (records : List Recorded) (place : Nat) : Prop :=
  ∃ j, (text (records.take j)).length = place

theorem length_text_take_mono (records : List Recorded) {i j : Nat} (h : i ≤ j) :
    (text (records.take i)).length ≤ (text (records.take j)).length := by
  obtain ⟨more, hmore⟩ := List.take_prefix_take_left h
  rw [← hmore, text_append, List.length_append]
  exact Nat.le_add_right _ _

section Take

variable {records : List Recorded} {place k : Nat}

theorem text_eq_flatten (records : List Recorded) : text records = (records.map bytes).flatten :=
  List.flatMap_def

/-- The first records end at a place, or before it, just if they are among those counted. -/
theorem length_text_take_le_iff (hk : EndWithin place (records.map bytes) k) (i : Nat) :
    i < k ↔ i < records.length ∧ (text (records.take (i + 1))).length ≤ place := by
  have hi := hk i
  rwa [List.length_map, ← List.map_take, ← text_eq_flatten] at hi

theorem length_text_take_le (hk : EndWithin place (records.map bytes) k) :
    (text (records.take k)).length ≤ place := by
  rw [text_eq_flatten, List.map_take]
  exact hk.length_flatten_le

/-- Records up to a place are those that end there or before, and nothing else if the place is
between two records; if it is not, what is left is the front of one more record. -/
theorem take_text (hk : EndWithin place (records.map bytes) k)
    (hplace : place ≤ (text records).length) :
    (text (records.take k)).length = place ∧ (text records).take place = text (records.take k) ∨
    ∃ r ∈ records, ∃ m, 0 < m ∧ m < r.bytes.length ∧
      (text (records.take k)).length + m = place ∧
      (text records).take place = text (records.take k) ++ r.bytes.take m := by
  have hwithin := length_text_take_le hk
  have hsplit : text records = text (records.take k) ++ text (records.drop k) := by
    rw [← text_append, List.take_append_drop]
  have htake : (text records).take place = text (records.take k) ++
      (text (records.drop k)).take (place - (text (records.take k)).length) := by
    rw [hsplit, List.take_append, List.take_of_length_le hwithin]
  rcases Nat.eq_or_lt_of_le hwithin with heq | hlt
  · refine Or.inl ⟨heq, ?_⟩
    rw [htake, heq, Nat.sub_self, List.take_zero, List.append_nil]
  · -- one more record would end behind the place
    have hmore : k < records.length := by
      refine Nat.lt_of_not_le fun hall => ?_
      rw [List.take_of_length_le hall] at hlt
      omega
    have hdrop : records.drop k = records[k] :: records.drop (k + 1) :=
      List.drop_eq_getElem_cons hmore
    have hbehind : place < (text (records.take k)).length + records[k].bytes.length := by
      have hnot := mt (length_text_take_le_iff hk k).2 (Nat.lt_irrefl k)
      rw [List.take_succ_eq_append_getElem hmore, text_concat, List.length_append] at hnot
      omega
    refine Or.inr ⟨records[k], List.getElem_mem hmore,
      place - (text (records.take k)).length, by omega, by omega, by omega, ?_⟩
    rw [htake, hdrop, text_cons, List.take_append_of_le_length (by omega)]

/-- A place lies between two records just if it is where the last one ends that ends there or
before. -/
theorem isBoundary_iff (hk : EndWithin place (records.map bytes) k) :
    IsBoundary records place ↔ (text (records.take k)).length = place := by
  refine ⟨?_, fun h => ⟨k, h⟩⟩
  rintro ⟨j, hj⟩
  have hwithin := length_text_take_le hk
  rcases Nat.lt_or_ge k j with hlt | hle
  · rcases Nat.lt_or_ge k records.length with hmore | hall
    · have hfront := length_text_take_mono records (Nat.succ_le_of_lt hlt)
      exact absurd ((length_text_take_le_iff hk k).2 ⟨hmore, hj ▸ hfront⟩) (Nat.lt_irrefl k)
    · rw [List.take_of_length_le hall, ← hj, List.take_of_length_le (by omega)]
  · have hfront := length_text_take_mono records hle
    omega

end Take

end Recorded

/-! ## Cutting a recorded tape -/

/-- The consumer knows the kinds of the items that the steps leave on the tape, and its reading
client makes each of them of whatever the writing clients of the steps may have made of it. -/
structure TapeState.RestoredBy (d : TapeState σ) (steps : List (Step σ)) (v : Vocabulary C)
    (reader? : Option (ReadingClient τ)) : Prop where
  kinds : ∀ item ∈ d.items [] steps, v.kind? item.kind.tag = some item.kind
  restores : ∀ item ∈ d.items [] steps, item.kind.isInline = false →
    ∀ client, Step.setWriter (some client) ∈ steps → ∀ blob, client.Encodes item blob →
      ∃ reader, reader? = some reader ∧ reader.Restores blob item

/-- The consumer can play what was recorded. -/
theorem TapeState.RestoredBy.playableBy {d : TapeState σ} {steps : List (Step σ)} {v : Vocabulary C}
    {reader? : Option (ReadingClient τ)} (h : d.RestoredBy steps v reader?)
    {segments : List Segment} (hfresh : d.tape.Fresh d.session.store segments) :
    ∀ r ∈ d.log [] steps, r.PlayableBy v reader? := by
  intro r hr
  have hitem := item_mem_items hr
  refine ⟨h.kinds r.item hitem, ?_⟩
  cases r with
  | inline item hinline => trivial
  | encoded item blob hinline hlen =>
    obtain ⟨client, hclient, hblob⟩ := madeIn_log hfresh steps _ hr
    exact h.restores item hitem hinline client hclient blob hblob

section Playing

variable {tape : Tape σ} {s : Session σ} {v : Vocabulary C} {f : Visitor σ γ}
  {parts : List (List Recorded)} {index place k : Nat} {records : List Recorded}
  (hpart : parts[index]? = some records)
  (hplay : ∀ r ∈ parts.flatten, r.PlayableBy v tape.reader)
  (hf : ∀ view s state, (f view s state).1 = .ok ())
  (hk : EndWithin place (records.map Recorded.bytes) k)
  (hshows : tape.Shows s.store
    ((parts.map Recorded.text).set index ((Recorded.text records).take place)))
  (hplace : place ≤ (Recorded.text records).length)

include hpart hplay hf hk hshows hplace

/-- A segment that was cut between two records plays what is left of it, and playing goes on. -/
theorem Tape.playsThrough_of_isBoundary (hboundary : Recorded.IsBoundary records place)
    (start : γ) : tape.PlaysThrough v f start s (parts.set index (records.take k)).flatten := by
  have hlength := (Recorded.isBoundary_iff hk).1 hboundary
  have htake : (Recorded.text records).take place = Recorded.text (records.take k) := by
    rcases Recorded.take_text hk hplace with ⟨-, htake⟩ | ⟨r, -, m, hpos, -, hsum, -⟩
    · exact htake
    · omega
  rw [htake, ← List.map_set] at hshows
  refine Tape.playsThrough hshows (fun r hr => hplay r ?_) (f.accepts_of_total hf _ _)
  obtain ⟨part, hpart', hr⟩ := List.mem_flatten.1 hr
  rcases List.mem_or_eq_of_mem_set hpart' with hmem | rfl
  · exact List.mem_flatten.2 ⟨part, hmem, hr⟩
  · exact List.mem_flatten.2 ⟨records, List.mem_of_getElem? hpart, List.mem_of_mem_take hr⟩

/-- A segment that was cut inside a record plays the records before that one, and playing ends. -/
theorem Tape.endsAfter_of_not_isBoundary (hinside : ¬Recorded.IsBoundary records place)
    (start : γ) :
    tape.EndsAfter v f start s ((parts.take index).flatten ++ records.take k) .unexpectedEnd := by
  have hmem : ∀ r ∈ records, r ∈ parts.flatten := fun r hr =>
    List.mem_flatten.2 ⟨records, List.mem_of_getElem? hpart, hr⟩
  rcases Recorded.take_text hk hplace with ⟨hlength, -⟩ | ⟨r, hr, m, hpos, hm, -, htake⟩
  · exact absurd ⟨k, hlength⟩ hinside
  · obtain ⟨front, view, behind, hviews, hfront, hdata⟩ :=
      hshows.exists_view (List.getElem?_eq_some_iff.1 hpart).1
    have hleft : r.bytes.take m ≠ [] := by
      refine List.ne_nil_of_length_pos ?_
      rw [List.length_take_of_le (Nat.le_of_lt hm)]
      exact hpos
    rw [htake] at hdata
    refine Tape.forEach_stopped hviews hfront hleft hdata (fun other hother => hplay other ?_)
      (f.accepts_of_total hf _ _) fun location rest hrest =>
        Frame.read_cut (hplay r (hmem r hr)) hm location hrest
    rcases List.mem_append.1 hother with hother | hother
    · obtain ⟨part, hpart', hother⟩ := List.mem_flatten.1 hother
      exact List.mem_flatten.2 ⟨part, List.mem_of_mem_take hpart', hother⟩
    · exact hmem other (List.mem_of_mem_take hother)

end Playing

/-- If one segment of a recorded tape is cut anywhere, playing visits the items of the segments
before it and then just those items of its own whose records end at the cut or before. If the cut is
between two records, playing goes on with the segments behind it and ends well; if it is inside of
one, playing ends there. In either case the reading client is handed the blobs of the items that are
visited, and nothing of a record that is only there in part. -/
theorem TapeState.plays_up_to_cut {d : TapeState σ} {segments : List Segment}
    (hfresh : d.tape.Fresh d.session.store segments) {steps : List (Step σ)}
    (hnew : segments = [] ∨ Step.clear ∈ steps) {v : Vocabulary C}
    {reader? : Option (ReadingClient τ)} (hrestored : d.RestoredBy steps v reader?) :
    ∃ parts : List (List Recorded),
      (d.run steps).tape.Shows (d.run steps).session.store (parts.map Recorded.text) ∧
      parts.flatten = d.log [] steps ∧ parts.flatten.map Recorded.item = d.items [] steps ∧
      ∀ (index : Nat) (records : List Recorded) (place : Nat),
        parts[index]? = some records → place ≤ (Recorded.text records).length →
        ∃ k, EndWithin place (records.map Recorded.bytes) k ∧
          ∀ (γ : Type) (tape : Tape τ) (s : Session τ) (f : Visitor τ γ) (start : γ),
            tape.reader = reader? →
            tape.Shows s.store
              ((parts.map Recorded.text).set index ((Recorded.text records).take place)) →
            (∀ view s state, (f view s state).1 = .ok ()) →
            (Recorded.IsBoundary records place →
              tape.PlaysThrough v f start s (parts.set index (records.take k)).flatten) ∧
            (¬Recorded.IsBoundary records place →
              tape.EndsAfter v f start s ((parts.take index).flatten ++ records.take k)
                .unexpectedEnd) := by
  obtain ⟨parts, hparts, hlog⟩ := exists_parts (d := d) hfresh hnew
  have hplay : ∀ r ∈ parts.flatten, r.PlayableBy v reader? := by
    rw [hlog]
    exact hrestored.playableBy hfresh
  refine ⟨parts, hparts, hlog, ?_, fun index records place hpart hplace => ?_⟩
  · rw [hlog, map_item_log]
    rfl
  · obtain ⟨k, hk⟩ := EndWithin.exists_count place (records.map Recorded.bytes)
    refine ⟨k, hk, ?_⟩
    rintro γ tape s f start rfl hshows hf
    exact ⟨fun hboundary =>
        tape.playsThrough_of_isBoundary hpart hplay hf hk hshows hplace hboundary start,
      fun hinside =>
        tape.endsAfter_of_not_isBoundary hpart hplay hf hk hshows hplace hinside start⟩

namespace Sample

/-- The reading client makes the one encoded item of its blob. -/
theorem restoredBy_reader : tapeState.RestoredBy steps coreVocabulary (some reader) := by
  have hitems : tapeState.items [] steps =
      [uniform trackedKind 7, blob [1, 2, 3], uniform byteKind 9] := rfl
  refine ⟨by rw [hitems]; decide, fun item hitem hinline client hclient bytes hbytes => ?_⟩
  obtain rfl : client = dirtyClient := by simpa [steps] using hclient
  obtain rfl : item = blob [1, 2, 3] := by
    rw [hitems] at hitem
    simp only [List.mem_cons, List.not_mem_nil, or_false] at hitem
    rcases hitem with rfl | rfl | rfl
    · exact absurd hinline (by decide)
    · rfl
    · exact absurd hinline (by decide)
  obtain ⟨state, hstate⟩ := hbytes
  obtain rfl : [1, 2, 3] = bytes := Option.some.inj (Except.ok.inj hstate)
  exact ⟨_, rfl, ReadingClient.restores_of_decode rfl fun _ _ => rfl⟩

/-- The records of the second segment. -/
def secondPart : List Recorded := parts[1]?.getD []

theorem sixtyFour_lt : 64 < Layout.memoryLimit := by
  decide

/-- A tape over the two segments, of which the second was cut. -/
def cutTape (length : Nat) (h : length ≤ 64) : Tape Tallies :=
  .setReader (.ofSegments [handed,
    ⟨⟨2⟩, ⟨1, 64, 0, none, false, sixtyFour_lt⟩, length, .client, h⟩]) (some reader)

end Sample

/-- Of three items, the last is cut in two, or cut off. -/
theorem TapeState.plays_up_to_cut_sample :
    let s := (Sample.tapeState.run Sample.steps).session
    let inside := (Sample.cutTape 30 (by decide)).forEach Sample.coreVocabulary Sample.counter 0 s
    let between := (Sample.cutTape 24 (by decide)).forEach Sample.coreVocabulary Sample.counter 0 s
    inside.1 = .error (.failed .unexpectedEnd) ∧ between.1 = .ok 2 := by
  intro s inside between
  have hmade : Tape.withCapacity 12 = .ok Sample.tapeState.tape := rfl
  have hnew : ([] : List Segment) = [] ∨ Step.clear ∈ Sample.steps := Or.inl rfl
  obtain ⟨parts, hshows, hlog, -, hall⟩ :=
    plays_up_to_cut (.withCapacity hmade) hnew Sample.restoredBy_reader
  obtain rfl : parts = Sample.parts := Sample.eq_parts hshows hlog
  have hsecond : Sample.parts[1]? = some Sample.secondPart := rfl
  -- no record ends at a place that is no multiple of eight
  have hinside : ¬Recorded.IsBoundary Sample.secondPart 30 := by
    rintro ⟨j, hj⟩
    have hmod := Recorded.length_text_mod (Sample.secondPart.take j)
    rw [hj] at hmod
    exact absurd hmod (by decide)
  have hbetween : Recorded.IsBoundary Sample.secondPart 24 := ⟨1, by decide +kernel⟩
  obtain ⟨_, -, hcut⟩ := hall 1 _ 30 hsecond (by decide +kernel)
  obtain ⟨k, hk, hwhole⟩ := hall 1 _ 24 hsecond (by decide +kernel)
  obtain rfl : k = 1 := by
    have hfirst : 0 < k := (hk 0).2 (by decide +kernel)
    have hlast : ¬1 < k := fun h => absurd ((hk 1).1 h) (by decide +kernel)
    omega
  have hends := (hcut Nat (Sample.cutTape 30 (by decide)) s Sample.counter 0 rfl
    (by unfold Tape.Shows; decide +kernel) fun _ _ _ => rfl).2 hinside
  have hplays := (hwhole Nat (Sample.cutTape 24 (by decide)) s Sample.counter 0 rfl
    (by unfold Tape.Shows; decide +kernel) fun _ _ _ => rfl).1 hbetween
  exact ⟨hends.outcome, hplays.outcome⟩

end CommandTape
