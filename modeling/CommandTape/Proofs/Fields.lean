import CommandTape.Frame
import CommandTape.Proofs.Slots

/-!
# The fields of encoded records

What stands in the fields of the encoded record at the front of bytes (`Record.blobLength`,
`Record.blobChecksum`, `Record.blob`), whatever follows it and whatever was written into them
(`Record.ofFields`). Reading a record depends on the bytes through these fields alone
(`Frame.readBlob_of_le`).
-/

namespace CommandTape

/-! ## Fields -/

namespace Record

/-- The length of the blob, as the encoded record at the front of bytes says. -/
def blobLength (bs : Bytes) : Nat := LittleEndian.decode ((bs.drop Layout.lengthOffset).take 4)

/-- The checksum of the blob, as the encoded record at the front of bytes says. -/
def blobChecksum (bs : Bytes) : Nat := LittleEndian.decode ((bs.drop Layout.checksumOffset).take 4)

/-- The blob of the encoded record at the front of bytes. -/
def blob (bs : Bytes) : Bytes := (bs.drop Layout.blobOffset).take (blobLength bs)

/-- What is taken from inside the front of bytes does not depend on what follows. -/
theorem take_drop_append {front : Bytes} (tail : Bytes) {start count : Nat}
    (h : start + count ≤ front.length) :
    ((front ++ tail).drop start).take count = (front.drop start).take count := by
  rw [List.drop_append_of_le_length (by omega), List.take_append_of_le_length]
  rw [List.length_drop]
  omega

variable {record : Bytes}

theorem blobLength_append (tail : Bytes) (h : Layout.blobOffset ≤ record.length) :
    blobLength (record ++ tail) = blobLength record := by
  have hfits : Layout.lengthOffset + 4 ≤ record.length := Nat.le_trans (by decide) h
  rw [blobLength, take_drop_append tail hfits, blobLength]

theorem blobChecksum_append (tail : Bytes) (h : Layout.blobOffset ≤ record.length) :
    blobChecksum (record ++ tail) = blobChecksum record := by
  have hfits : Layout.checksumOffset + 4 ≤ record.length := Nat.le_trans (by decide) h
  rw [blobChecksum, take_drop_append tail hfits, blobChecksum]

theorem blob_append (tail : Bytes)
    (h : Layout.encodedSize (blobLength record) ≤ record.length) :
    blob (record ++ tail) = blob record := by
  have hround := Layout.le_roundUp (blobLength record)
  have hoffset : Layout.blobOffset ≤ record.length := Nat.le_trans (Nat.le_add_right _ _) h
  have hfits : Layout.blobOffset + blobLength record ≤ record.length := by
    rw [Layout.encodedSize] at h
    omega
  rw [blob, blobLength_append tail hoffset, take_drop_append tail hfits, blob]

section Take

variable {bs : Bytes} (h : Layout.encodedSize (blobLength bs) ≤ bs.length)

include h

theorem length_blob : (blob bs).length = blobLength bs := by
  have hround := Layout.le_roundUp (blobLength bs)
  rw [blob, List.length_take, List.length_drop]
  rw [Layout.encodedSize] at h
  omega

/-- The encoded record at the front of bytes is as long as it says. -/
theorem length_take_encodedSize :
    (bs.take (Layout.encodedSize (blobLength bs))).length = Layout.encodedSize (blobLength bs) := by
  rw [List.length_take, Nat.min_eq_left h]

theorem blobOffset_le_take :
    Layout.blobOffset ≤ (bs.take (Layout.encodedSize (blobLength bs))).length := by
  rw [length_take_encodedSize h]
  exact Nat.le_add_right _ _

theorem blobLength_take :
    blobLength (bs.take (Layout.encodedSize (blobLength bs))) = blobLength bs := by
  rw [← blobLength_append (bs.drop (Layout.encodedSize (blobLength bs))) (blobOffset_le_take h),
    List.take_append_drop]

theorem blobChecksum_take :
    blobChecksum (bs.take (Layout.encodedSize (blobLength bs))) = blobChecksum bs := by
  rw [← blobChecksum_append (bs.drop (Layout.encodedSize (blobLength bs))) (blobOffset_le_take h),
    List.take_append_drop]

theorem blob_take : blob (bs.take (Layout.encodedSize (blobLength bs))) = blob bs := by
  have hfits : Layout.encodedSize (blobLength (bs.take (Layout.encodedSize (blobLength bs)))) ≤
      (bs.take (Layout.encodedSize (blobLength bs))).length := by
    exact Nat.le_of_eq (by rw [blobLength_take h, length_take_encodedSize h])
  rw [← blob_append (bs.drop (Layout.encodedSize (blobLength bs))) hfits, List.take_append_drop]

end Take

/-- An encoded record with any fields. -/
def ofFields (tag : Tag) (length checksum body : Bytes) : Bytes :=
  header tag ++ (length ++ (checksum ++ body))

theorem encoded_eq_ofFields (tag : Tag) (blob : Bytes) :
    encoded tag blob = ofFields tag (LittleEndian.encode 4 blob.length)
      (LittleEndian.encode 4 (Checksum.crc32 blob).toNat) (blob ++ padding blob.length) := by
  simp only [encoded, ofFields, List.append_assoc]

section Fields

variable {tag : Tag} {length checksum : Bytes} (body : Bytes)

theorem length_ofFields (h : length.length = 4) (h' : checksum.length = 4) :
    (ofFields tag length checksum body).length = Layout.blobOffset + body.length := by
  have hoffset : Layout.blobOffset = 8 + (4 + 4) := rfl
  rw [ofFields, List.length_append, List.length_append, List.length_append, length_header, h, h',
    hoffset, Nat.add_assoc, Nat.add_assoc]

theorem blobLength_ofFields (h : length.length = 4) :
    blobLength (ofFields tag length checksum body) = LittleEndian.decode length := by
  rw [blobLength, ofFields, Layout.lengthOffset, drop_header, List.take_left' h]

theorem blobChecksum_ofFields (h : length.length = 4) (h' : checksum.length = 4) :
    blobChecksum (ofFields tag length checksum body) = LittleEndian.decode checksum := by
  rw [blobChecksum, ofFields, Layout.checksumOffset, ← List.drop_drop, drop_header,
    List.drop_left' h, List.take_left' h']

theorem drop_ofFields (h : length.length = 4) (h' : checksum.length = 4) :
    (ofFields tag length checksum body).drop Layout.blobOffset = body := by
  have hoffset : Layout.blobOffset = Layout.headerSize + (4 + 4) := rfl
  rw [ofFields, hoffset, ← List.drop_drop, drop_header, ← List.drop_drop, List.drop_left' h,
    List.drop_left' h']

theorem ofFields_append (tail : Bytes) :
    ofFields tag length checksum body ++ tail = ofFields tag length checksum (body ++ tail) := by
  simp only [ofFields, List.append_assoc]

end Fields

theorem blobLength_encoded (tag : Tag) {blob : Bytes} (h : blob.length < Layout.blobLimit) :
    blobLength (encoded tag blob) = blob.length := by
  rw [encoded_eq_ofFields, blobLength_ofFields _ (LittleEndian.length_encode _ _),
    LittleEndian.decode_encode_of_lt h]

theorem blobChecksum_encoded (tag : Tag) (blob : Bytes) :
    blobChecksum (encoded tag blob) = (Checksum.crc32 blob).toNat := by
  rw [encoded_eq_ofFields, blobChecksum_ofFields _ (LittleEndian.length_encode _ _)
    (LittleEndian.length_encode _ _)]
  exact LittleEndian.decode_encode_of_lt (Checksum.crc32 blob).toNat_lt

theorem blob_encoded (tag : Tag) {blob : Bytes} (h : blob.length < Layout.blobLimit) :
    Record.blob (encoded tag blob) = blob := by
  rw [Record.blob, blobLength_encoded tag h, encoded_eq_ofFields,
    drop_ofFields _ (LittleEndian.length_encode _ _) (LittleEndian.length_encode _ _),
    List.take_left]

theorem blobLength_lt (bs : Bytes) : blobLength bs < Layout.blobLimit := by
  refine Nat.lt_of_lt_of_le (LittleEndian.decode_lt _) ?_
  have hlength : ((bs.drop Layout.lengthOffset).take 4).length ≤ 4 := by
    rw [List.length_take]
    exact Nat.min_le_left _ _
  exact Nat.pow_le_pow_right (by decide) hlength

end Record

/-! ## Reading the front of bytes -/

namespace Frame

theorem readInline_of_lt {location : Location} {size : Nat} {rest : Extent}
    (h : rest.length < size) :
    readInline location size rest = .error (.failed .unexpectedEnd) := by
  simp only [readInline, h, ↓reduceIte]
  rfl

theorem readInline_of_le {location : Location} {size : Nat} {rest : Extent}
    (h : size ≤ rest.length) :
    readInline location size rest =
      Outcome.ofFaulty (View.ofRecord (rest.toList.take size) [] location) := by
  have hslice : rest.slice 0 size = .ok (rest.toList.take size) := by
    rw [Extent.slice_eq, Word.slice_of_le (Nat.zero_le _) (by rwa [Extent.length_toList]),
      List.drop_zero, Nat.sub_zero]
  simp only [readInline, Nat.not_lt.2 h, ↓reduceIte, hslice, Outcome.ofFaulty_ok, bind, Except.bind]

theorem number_of_le {rest : Extent} {start : Nat} (h : start + 4 ≤ rest.length) :
    rest.number 4 start = .ok (LittleEndian.decode ((rest.toList.drop start).take 4)) := by
  rw [Extent.number_eq, Word.read, Word.slice_of_le (Nat.le_add_right _ _)
    (by rwa [Extent.length_toList]), Nat.add_sub_cancel_left]
  rfl

/-- Both numbers in front of a blob can be read, if the bytes do not end before it. -/
theorem numbers_of_le {rest : Extent} (h : Layout.blobOffset ≤ rest.length) :
    rest.number 4 Layout.lengthOffset = .ok (Record.blobLength rest.toList) ∧
      rest.number 4 Layout.checksumOffset = .ok (Record.blobChecksum rest.toList) :=
  ⟨number_of_le (Nat.le_trans (by decide) h), number_of_le (Nat.le_trans (by decide) h)⟩

theorem readBlob_of_lt {rest : Extent}
    (h : rest.length < Layout.encodedSize (Record.blobLength rest.toList)) :
    readBlob rest = .error (.failed .unexpectedEnd) := by
  by_cases hoffset : rest.length < Layout.blobOffset
  · simp only [readBlob, hoffset, ↓reduceIte]
    rfl
  · obtain ⟨hlength, hchecksum⟩ := numbers_of_le (Nat.le_of_not_lt hoffset)
    simp only [readBlob, hoffset, ↓reduceIte, hlength, hchecksum,
      Word.encodedSize_of_lt (Record.blobLength_lt _), h, Outcome.ofFaulty_ok, bind, Except.bind]
    rfl

/-- The blob is read if all of the record is there, unless it does not have its checksum. -/
theorem readBlob_of_le {rest : Extent}
    (h : Layout.encodedSize (Record.blobLength rest.toList) ≤ rest.length) :
    readBlob rest =
      if (Checksum.crc32 (Record.blob rest.toList)).toNat ≠ Record.blobChecksum rest.toList then
        .error (.failed .checksumMismatch)
      else .ok (Record.blob rest.toList) := by
  have hround := Layout.le_roundUp (Record.blobLength rest.toList)
  have hoffset : Layout.blobOffset ≤ rest.length := Nat.le_trans (Nat.le_add_right _ _) h
  have hstop : Layout.blobOffset + Record.blobLength rest.toList ≤ rest.length := by
    rw [Layout.encodedSize] at h
    omega
  obtain ⟨hlength, hchecksum⟩ := numbers_of_le hoffset
  have hslice : rest.slice Layout.blobOffset (Layout.blobOffset + Record.blobLength rest.toList) =
      .ok (Record.blob rest.toList) := by
    rw [Extent.slice_eq, Word.slice_of_le (Nat.le_add_right _ _)
      (by rwa [Extent.length_toList]), Nat.add_sub_cancel_left]
    rfl
  simp only [readBlob, Nat.not_lt.2 hoffset, Nat.not_lt.2 h, ↓reduceIte, hlength, hchecksum,
    Word.encodedSize_of_lt (Record.blobLength_lt _), hslice, Outcome.ofFaulty_ok, bind, Except.bind]
  split <;> rfl

end Frame

end CommandTape
