import CommandTape.Proofs.Checksum
import CommandTape.Proofs.Damage
import CommandTape.Proofs.HandingOff

/-!
# Short damage

A burst in a blob, and any change of the checksum that was recorded with it, is found when the
record is played (`Record.Garbled.mismatch`). A burst in the table of a message, and any change of a
byte of its count or of its checksum, is found before a descriptor is looked at
(`Message.misframed_of_garbled`).
-/

namespace CommandTape

variable {σ : Type}

/-! ## Records -/

namespace Record

/-- An encoded record with a burst in its blob, or another checksum. -/
inductive Garbled (tag : Tag) (blob : Bytes) : Bytes → Prop
  | blob {new : Bytes} (h : Bytes.Burst blob new) :
      Garbled tag blob (Bytes.overwrite (encoded tag blob) Layout.blobOffset new)
  | checksum {new : Bytes} (hlength : new.length = 4)
      (hne : new ≠ LittleEndian.encode 4 (Checksum.crc32 blob).toNat) :
      Garbled tag blob (Bytes.overwrite (encoded tag blob) Layout.checksumOffset new)

/-- A garbled record has the length that it had, and a blob without its checksum. -/
theorem Garbled.mismatch {tag : Tag} {blob record : Bytes} (h : Garbled tag blob record) :
    ∃ checksum new, record = ofFields tag (LittleEndian.encode 4 blob.length) checksum
        (new ++ padding blob.length) ∧
      checksum.length = 4 ∧ new.length = blob.length ∧
      (Checksum.crc32 new).toNat ≠ LittleEndian.decode checksum := by
  cases h with
  | @blob new h =>
    refine ⟨_, new, overwrite_blob tag h.length_eq.symm, LittleEndian.length_encode _ _,
      h.length_eq.symm, ?_⟩
    rw [LittleEndian.decode_encode_of_lt (Checksum.crc32 blob).toNat_lt]
    exact fun heq => Checksum.crc32_ne_of_burst h (UInt32.toNat_inj.1 heq.symm)
  | @checksum new hlength hne =>
    refine ⟨new, blob, overwrite_checksum tag blob hlength, hlength, rfl, ?_⟩
    intro heq
    refine hne ?_
    rw [heq, ← hlength, LittleEndian.encode_decode]

end Record

/-! ## Messages -/

namespace Message

/-- Data of a message with a burst in the table, or another byte in the count or the checksum. -/
inductive Garbled (data : Bytes) : Bytes → Prop
  | table {new : Bytes} (h : Bytes.Burst (data.drop headerSize) new) :
      Garbled data (data.take headerSize ++ new)
  | byte {i : Nat} {byte : UInt8} (hfirst : countOffset ≤ i) (hlast : i < headerSize)
      (hne : data[i]? ≠ some byte) : Garbled data (data.set i byte)

/-- Numbers that are the same are spelled by the same bytes. -/
theorem getElem?_eq_of_field_eq {width start : Nat} {a b : Bytes}
    (ha : start + width ≤ a.length) (hb : start + width ≤ b.length)
    (h : field width a start = field width b start) {i : Nat} (hfirst : start ≤ i)
    (hlast : i < start + width) : a[i]? = b[i]? := by
  have htake : (a.drop start).take width = (b.drop start).take width := by
    rw [← encode_field ha, ← encode_field hb, h]
  have hget := congrArg (fun bs => bs[i - start]?) htake
  simp only [List.getElem?_take, List.getElem?_drop] at hget
  rwa [if_pos (by omega), if_pos (by omega), Nat.add_sub_cancel' hfirst] at hget

/-- Garbled data are as long as they were. -/
theorem Garbled.length_eq {data garbled : Bytes} (h : Garbled data garbled)
    (hheader : headerSize ≤ data.length) : garbled.length = data.length := by
  cases h with
  | @table new h =>
    rw [List.length_append, List.length_take, ← h.length_eq, List.length_drop]
    omega
  | byte hfirst hlast hne => exact List.length_set

/-- The data of a framed message, garbled, are not framed, whatever the descriptors are. -/
theorem Framed.not_framed_of_garbled {m : Message} (hframed : m.Framed) {data : Bytes}
    (h : Garbled m.data data) (descriptors : List Descriptor) :
    ¬Framed ⟨data, descriptors⟩ := by
  intro hframed'
  have hlength := h.length_eq hframed.header_le
  have hheader := hframed.header_le
  have hheader' := hframed'.header_le
  have hcount : count ⟨data, descriptors⟩ = m.count := by
    have hm := hframed.length_eq
    have hm' := hframed'.length_eq
    unfold entrySize at hm hm'
    dsimp only at hm'
    omega
  cases h with
  | @table new h =>
    -- the checksum stands in front of the table
    have hchecksum : checksum ⟨m.data.take headerSize ++ new, descriptors⟩ = m.checksum := by
      have hfits : checksumOffset + 4 ≤ (m.data.take headerSize).length := by
        rw [List.length_take, Nat.min_eq_left hheader]
        decide
      rw [checksum, field, Record.take_drop_append new hfits, List.drop_take, List.take_take]
      rfl
    have htable : table ⟨m.data.take headerSize ++ new, descriptors⟩ = new :=
      List.drop_left' (by rw [List.length_take, Nat.min_eq_left hheader])
    have hcrc := hframed'.checksum_eq
    rw [htable, hchecksum, ← hframed.checksum_eq] at hcrc
    exact Checksum.crc32_ne_of_burst h (UInt32.toNat_inj.1 hcrc.symm)
  | @byte i byte hfirst hlast hne =>
    -- the table is the same, so both numbers would have to be
    have htable : table ⟨m.data.set i byte, descriptors⟩ = m.table := by
      rw [table, List.drop_set_of_lt hlast]
      rfl
    have hchecksum : checksum ⟨m.data.set i byte, descriptors⟩ = m.checksum := by
      rw [← hframed'.checksum_eq, htable, hframed.checksum_eq]
    have hsame : (m.data.set i byte)[i]? = m.data[i]? := by
      by_cases hi : i < countOffset + 4
      · exact getElem?_eq_of_field_eq (Nat.le_trans (by decide) hheader')
          (Nat.le_trans (by decide) hheader) hcount hfirst hi
      · exact getElem?_eq_of_field_eq (Nat.le_trans (by decide) hheader')
          (Nat.le_trans (by decide) hheader) hchecksum (Nat.le_of_not_lt hi) hlast
    rw [List.getElem?_set_self (Nat.lt_of_lt_of_le hlast hheader)] at hsame
    exact hne hsame.symm

/-- What is wrong with a message that is not framed does not depend on what its descriptors are. -/
theorem Misframed.of_length_eq {data : Bytes} {descriptors others : List Descriptor}
    {reason : Failure} (h : Misframed ⟨data, descriptors⟩ reason)
    (hlength : others.length = descriptors.length) : Misframed ⟨data, others⟩ reason := by
  cases h with
  | tooShort h => exact .tooShort h
  | misshapen hheader h => exact .misshapen hheader h
  | descriptorCount hheader hcount hsize h =>
    dsimp only at h ⊢
    rw [← hlength] at h ⊢
    exact .descriptorCount hheader hcount hsize h
  | tableCorrupt hheader hcount hsize hdescriptors h =>
    exact .tableCorrupt hheader hcount hsize (hlength.trans hdescriptors) h

end Message

namespace Tape

/-- A message that was made, garbled, is not taken. The reason is found before it matters what its
descriptors are, and what memory there is. -/
theorem receive_of_garbled {tape : Tape σ} {s : Session σ} {sender : UInt64} {m : Message}
    (hmade : (tape.handOff sender s).1 = .ok m) {data : Bytes} (h : Message.Garbled m.data data) :
    ∃ reason : Failure, reason.kind = .wire ∧
      ∀ descriptors, descriptors.length = m.descriptors.length → ∀ t : Session σ,
        receive ⟨data, descriptors⟩ t = (.error (.failed reason), t) := by
  rw [handOff_fst] at hmade
  rcases Message.ofViews_cases sender (tape.views s.store) with
    ⟨m', hm', hdescribes, hle, -⟩ | ⟨reason, hm', -⟩
  · obtain rfl : m' = m := Except.ok.inj (hm'.symm.trans hmade)
    have hnot := (hdescribes.framed hle).not_framed_of_garbled h m'.descriptors
    obtain ⟨reason, hmisframed⟩ := (Message.framed_or_misframed _).resolve_left hnot
    refine ⟨reason, hmisframed.kind_eq, fun descriptors hlength t => ?_⟩
    have hread := Message.read_of_misframed (hmisframed.of_length_eq hlength) t.store
    simp only [receive, hread]
  · rw [hm'] at hmade
    cases hmade

end Tape

/-! ## What short damage does -/

/-- A burst changes the checksum. So if the blob of an encoded record is changed within four bytes
in a row, or just its checksum, playing visits the items before the record and ends; and if the
table of a message is changed within four bytes in a row, or a byte of its count or of its checksum,
the message is not taken, whatever its descriptors are. -/
theorem TapeState.short_damage_stops {d : TapeState σ} {segments : List Segment}
    (hfresh : d.tape.Fresh d.session.store segments) {steps : List (Step σ)}
    (hnew : segments = [] ∨ Step.clear ∈ steps) :
    (∀ a b : Bytes, Bytes.Burst a b → Checksum.crc32 a ≠ Checksum.crc32 b) ∧
    (∃ parts : List (List Recorded),
      (d.run steps).tape.Shows (d.run steps).session.store (parts.map Recorded.text) ∧
      parts.flatten = d.log [] steps ∧
      ∀ (item : Item) (blob : Bytes) (hinline : item.kind.isInline = false)
        (hlen : blob.length < Layout.blobLimit)
        (site : Recorded.Site parts (.encoded item blob hinline hlen)),
        d.log [] steps = site.earlier ++ .encoded item blob hinline hlen :: site.later ∧
        ∀ record, Record.Garbled item.kind.tag blob record →
          ∀ (γ C : Type) (tape : Tape σ) (s : Session σ) (v : Vocabulary C) (f : Visitor σ γ)
            (start : γ), tape.Shows s.store (site.replaced record) →
            site.ReachedBy v tape.reader → (∀ view s state, (f view s state).1 = .ok ()) →
            tape.EndsAfter v f start s site.earlier .checksumMismatch) ∧
    ∀ (tape : Tape σ) (s : Session σ) (sender : UInt64) (m : Message),
      (tape.handOff sender s).1 = .ok m → ∀ data, Message.Garbled m.data data →
        ∃ reason : Failure, reason.kind = .wire ∧
          ∀ descriptors, descriptors.length = m.descriptors.length → ∀ t : Session σ,
            Tape.receive ⟨data, descriptors⟩ t = (.error (.failed reason), t) := by
  refine ⟨fun _ _ => Checksum.crc32_ne_of_burst, ?_, fun tape s sender m hmade data hgarbled =>
    Tape.receive_of_garbled hmade hgarbled⟩
  obtain ⟨parts, hparts, hlog⟩ := exists_parts hfresh hnew
  refine ⟨parts, hparts, hlog, fun item blob hinline hlen site => ⟨?_, ?_⟩⟩
  · rw [← hlog, site.flatten_eq]
  · intro record hgarbled γ C tape s v f start hshows hreached hf
    obtain ⟨checksum, new, rfl, hchecksum, hlength, hne⟩ := hgarbled.mismatch
    have hsize : LittleEndian.decode (LittleEndian.encode 4 blob.length) = blob.length :=
      LittleEndian.decode_encode_of_lt hlen
    obtain ⟨-, hmismatch⟩ := site.endsAfter_of_fields (LittleEndian.length_encode 4 _) hchecksum
      hshows hreached hf start
    rw [hsize, Record.ofFields_append] at hmismatch
    refine hmismatch ?_ ?_
    · have hpadding := Record.length_padding blob.length
      rw [Record.length_ofFields _ (LittleEndian.length_encode 4 _) hchecksum, List.length_append,
        List.length_append, Layout.encodedSize]
      omega
    · rw [Record.drop_ofFields _ (LittleEndian.length_encode 4 _) hchecksum, List.append_assoc,
        List.take_left' hlength]
      exact hne

/-- One byte of a blob is changed in a segment, and one of the count in a message. -/
theorem TapeState.short_damage_stops_sample :
    let garbled := Sample.garbled 17 [9]
    let tape : Tape Tallies := .ofSegments [Sample.handed]
    Checksum.crc32 [1, 2, 3] ≠ Checksum.crc32 [1, 9, 3] ∧
    (garbled.tape.forEach Sample.coreVocabulary Sample.counter 0 garbled.session).1 =
      .error (.failed .checksumMismatch) ∧
    ∃ m reason, (tape.handOff 3 Sample.sharing).1 = .ok m ∧ Failure.kind reason = .wire ∧
      Tape.receive ⟨m.data.set 9 1, m.descriptors⟩ Sample.sharing =
        (.error (.failed reason), Sample.sharing) := by
  intro garbled tape
  have hmade : Tape.withCapacity 12 = .ok Sample.tapeState.tape := rfl
  have hnew : ([] : List Segment) = [] ∨ Step.clear ∈ Sample.steps := Or.inl rfl
  obtain ⟨hburst, ⟨parts, hshows, hlog, hall⟩, htaken⟩ :=
    short_damage_stops (.withCapacity hmade) hnew
  obtain rfl : parts = Sample.parts := Sample.eq_parts hshows hlog
  obtain ⟨-, hstops⟩ := hall _ _ _ _ Sample.site
  have hblob : Bytes.Burst [1, 2, 3] [1, 9, 3] := by
    refine ⟨rfl, by decide, 0, fun i hne => ⟨Nat.zero_le i, Nat.lt_of_not_le fun hi => hne ?_⟩⟩
    rw [List.getElem?_eq_none (Nat.le_of_succ_le hi), List.getElem?_eq_none (Nat.le_of_succ_le hi)]
  have hended := hstops _ (.blob hblob) Nat _ garbled.tape garbled.session Sample.coreVocabulary
    Sample.counter 0 (by unfold Tape.Shows; decide +kernel) Sample.reached_site fun _ _ _ => rfl
  have hsent : (tape.handOff 3 Sample.sharing).1 =
      .ok ⟨[3, 0, 0, 0, 0, 0, 0, 0, 1, 0, 0, 0, 14, 231, 144, 125,
        1, 0, 0, 0, 0, 0, 0, 0, 16, 0, 0, 0, 0, 0, 0, 0], [.memory 0]⟩ := by
    decide +kernel
  have hfirst : Message.countOffset ≤ 9 := by decide
  have hother : some (0 : UInt8) ≠ some 1 := by decide
  obtain ⟨reason, hkind, hreceive⟩ :=
    htaken tape Sample.sharing 3 _ hsent _ (.byte hfirst (by decide) hother)
  exact ⟨hburst _ _ hblob, hended.outcome, _, reason, hsent, hkind,
    hreceive _ rfl Sample.sharing⟩

end CommandTape
