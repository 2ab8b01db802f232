import CommandTape.Proofs.Drawing
import CommandTape.Proofs.Spelling

/-!
# Blobs of text

A blob stands for a text at a place just if it has the eight bytes of the place, and those behind
them spell a text (`Canvas.IsTextBlob`). Each such blob is that of exactly one place and text. So
encoding and decoding are inverse to each other, and nothing else is decoded
(`Canvas.text_codec_inverse`).
-/

namespace CommandTape.Canvas

/-! ## Blobs -/

/-- The blob has a place, and bytes of a text behind it. -/
structure IsTextBlob (blob : Bytes) : Prop where
  place_le : 8 ≤ blob.length
  wellFormed : Utf8.WellFormed (blob.drop 8)

/-- Four bytes are those of one number. -/
theorem exists_numberBytes (bs : Bytes) (h : bs.length = 4) : ∃ n, numberBytes n = bs := by
  have hlt : LittleEndian.decode bs < 2 ^ 32 := by
    have hdecode := LittleEndian.decode_lt bs
    rwa [h] at hdecode
  refine ⟨UInt32.ofNat (LittleEndian.decode bs), ?_⟩
  rw [numberBytes, UInt32.toNat_ofNat_of_lt' hlt, ← h, LittleEndian.encode_decode]

theorem isTextBlob_textBlob (x y : UInt32) (text : String) :
    IsTextBlob (textBlob x y (Utf8.encode text)) := by
  have hlength := length_textBlob x y (Utf8.encode text)
  have hrest : (textBlob x y (Utf8.encode text)).drop 8 = Utf8.encode text :=
    List.drop_left' (by rw [List.length_append, length_numberBytes, length_numberBytes])
  refine ⟨by omega, ?_⟩
  rw [hrest]
  exact Utf8.wellFormed_encode text

/-- Every blob of text is that of a place and a text. -/
theorem IsTextBlob.exists_command {blob : Bytes} (h : IsTextBlob blob) :
    ∃ x y text, textBlob x y (Utf8.encode text) = blob := by
  have hplace := h.place_le
  obtain ⟨x, hx⟩ := exists_numberBytes (blob.take 4) (by rw [List.length_take]; omega)
  obtain ⟨y, hy⟩ := exists_numberBytes ((blob.drop 4).take 4)
    (by rw [List.length_take, List.length_drop]; omega)
  obtain ⟨text, htext⟩ := Utf8.wellFormed_iff_exists_text.1 h.wellFormed
  refine ⟨x, y, text, ?_⟩
  have hrest : (blob.drop 4).drop 4 = blob.drop 8 := List.drop_drop
  rw [textBlob, hx, hy, htext, List.append_assoc, ← hrest, List.take_append_drop,
    List.take_append_drop]

/-! ## Decoding -/

/-- What decoding a blob comes to: the item of a text that has this blob, or the first thing that is
wrong with it. -/
inductive TextDecoded (blob : Bytes) (tag : Tag) : Decoding → Prop
  | accepted {x y : UInt32} {text : String} (htag : tag = drawTextKind.tag)
      (hblob : textBlob x y (Utf8.encode text) = blob) :
      TextDecoded blob tag (.ofItem (Command.drawText x y text).item)
  | unknown (htag : tag ≠ drawTextKind.tag) : TextDecoded blob tag (.failed (.unknownTag tag))
  | short (htag : tag = drawTextKind.tag) (hplace : blob.length < 8) :
      TextDecoded blob tag (.failed .unexpectedEnd)
  | malformed (htag : tag = drawTextKind.tag) (hplace : 8 ≤ blob.length)
      (htext : ¬Utf8.WellFormed (blob.drop 8)) :
      TextDecoded blob tag (.failed (.malformed (Utf8.fault 0 (blob.drop 8)).message))

theorem textDecoded_decode (blob : Bytes) (tag : Tag) : TextDecoded blob tag (decode blob tag) := by
  by_cases htag : tag = drawTextKind.tag
  · rw [decode, if_pos htag]
    by_cases hplace : blob.length < 8
    · rw [decodeText, if_pos hplace]
      exact .short htag hplace
    · rcases Utf8.decode_eq (blob.drop 8) with ⟨text, htext, -⟩ | ⟨hnot, hfault⟩
      · have hwell := Utf8.wellFormed_iff_exists_text.2 ⟨text, htext⟩
        obtain ⟨x, y, text, rfl⟩ := IsTextBlob.exists_command ⟨by omega, hwell⟩
        rw [decodeText_textBlob]
        exact .accepted htag rfl
      · rw [decodeText, if_neg hplace]
        simp only [hfault]
        exact .malformed htag (by omega) hnot
  · rw [decode, if_neg htag]
    exact .unknown htag

/-- Whatever the memory of a text's image says beside the numbers of the place, an item of a text is
encoded as the blob of its place and text. -/
theorem encode_of_kind {item : Item} {text : String} (hkind : item.kind = drawTextKind)
    (howned : item.owned = Utf8.encode text) (location : Location) :
    encode (View.ofItem item location) =
      .ok (some (textBlob (numberAt item 24) (numberAt item 28) (Utf8.encode text))) := by
  obtain ⟨htag, hget⟩ := View.shows_ofItem item location
  rw [hkind] at htag hget
  have hhas : (View.ofItem item location).hasKind drawTextKind = true := decide_eq_true htag
  rw [encode, if_pos hhas, hget]
  simp only [howned]

/-! ## Both directions -/

/-- Encoding and decoding texts are inverse to each other. An item of a text, whatever the bits of
the numbers of its place, is encoded as a blob that is decoded into an item with the same bits and
the same text. Any bytes are accepted just if they come with the tag of texts, have the eight bytes
of a place, and spell a text behind them; then the item in the slot is encoded as just these bytes.
What is first wrong with other bytes is reported, and the slot and what is in it stay as they
are. -/
theorem text_codec_inverse :
    (∀ (item : Item) (text : String) (location : Location), item.kind = drawTextKind →
      item.owned = Utf8.encode text →
      ∃ blob restored, encode (View.ofItem item location) = .ok (some blob) ∧
        decode blob 5 = .ofItem restored ∧ restored.kind = drawTextKind ∧
        numberAt restored 24 = numberAt item 24 ∧ numberAt restored 28 = numberAt item 28 ∧
        restored.owned = item.owned) ∧
    ∀ (blob : Bytes) (tag : Tag) (slot : Slot),
      let decoded := (decode blob tag).runOn slot
      (decoded.1 = .ok () ↔ tag = 5 ∧ 8 ≤ blob.length ∧ Utf8.WellFormed (blob.drop 8)) ∧
      (decoded.1 = .ok () → ∃ item, item.kind = drawTextKind ∧
        decoded.2.1.view? = some (View.ofItem item slot.location) ∧
        decoded.2.1.held = item.remains ∧ decoded.2.2 = slot.held ∧
        encode (View.ofItem item slot.location) = .ok (some blob)) ∧
      (tag ≠ 5 → decoded = (.error (.failed (.unknownTag tag)), slot, [])) ∧
      (tag = 5 → blob.length < 8 → decoded = (.error (.failed .unexpectedEnd), slot, [])) ∧
      (tag = 5 → 8 ≤ blob.length → ¬Utf8.WellFormed (blob.drop 8) →
        decoded =
          (.error (.failed (.malformed (Utf8.fault 0 (blob.drop 8)).message)), slot, [])) := by
  refine ⟨?_, ?_⟩
  · intro item text location hkind howned
    obtain ⟨hx, hy⟩ := numberAt_drawText (numberAt item 24) (numberAt item 28) text
    refine ⟨_, (Command.drawText (numberAt item 24) (numberAt item 28) text).item,
      encode_of_kind hkind howned location, ?_, rfl, hx, hy, howned.symm⟩
    have htag : (5 : Tag) = drawTextKind.tag := rfl
    rw [decode, if_pos htag, decodeText_textBlob]
  · intro blob tag slot decoded
    have hdecoded : decoded = (decode blob tag).runOn slot := rfl
    have hcases := textDecoded_decode blob tag
    generalize decode blob tag = decoding at hdecoded hcases
    cases hcases with
    | @accepted x y text htag hblob =>
      obtain ⟨next, hrun, hheld, hview⟩ :=
        Decoding.runOn_ofItem (Command.drawText x y text).fits_item slot
      have hplace := hblob ▸ isTextBlob_textBlob x y text
      have hencode := encode_item (.drawText x y text) slot.location
      rw [hdecoded, hrun]
      refine ⟨by simp [htag, drawTextKind, hplace.place_le, hplace.wellFormed], fun _ => ?_, ?_, ?_,
        ?_⟩
      · refine ⟨(Command.drawText x y text).item, rfl, hview, hheld, rfl, ?_⟩
        rw [hencode, Command.blob?, hblob]
      · exact fun hother => absurd htag hother
      · exact fun _ hshort => absurd hplace.place_le (by omega)
      · exact fun _ _ hnot => absurd hplace.wellFormed hnot
    | unknown htag =>
      have htag' : tag ≠ 5 := htag
      rw [hdecoded, Decoding.runOn_failed]
      simp [htag']
    | short htag hshort =>
      have htag' : tag = 5 := htag
      have hplace : ¬8 ≤ blob.length := by omega
      rw [hdecoded, Decoding.runOn_failed]
      simp [htag', hplace]
    | malformed htag hplace hnot =>
      have htag' : tag = 5 := htag
      have hlong : ¬blob.length < 8 := by omega
      rw [hdecoded, Decoding.runOn_failed]
      simp [htag', hplace, hlong, hnot]

/-- A number that is not one, a negative zero, and a text of two characters in three bytes. -/
theorem text_codec_inverse_sample :
    let item := (Command.drawText 0x7FC00001 0x80000000 "né").item
    let location : Location := ⟨⟨1⟩, 8⟩
    let bytes : Bytes := [1, 0, 0xC0, 0x7F, 0, 0, 0, 0x80, 0x6E, 0xC3, 0xA9]
    (∃ restored, encode (View.ofItem item location) = .ok (some bytes) ∧
      decode bytes 5 = .ofItem restored ∧ numberAt restored 24 = 0x7FC00001 ∧
      numberAt restored 28 = 0x80000000 ∧ restored.owned = [0x6E, 0xC3, 0xA9]) ∧
    ((decode bytes 5).runOn .empty).1 = .ok () ∧
    (decode (bytes.take 10) 5).runOn .empty =
      (.error (.failed (.malformed "incomplete utf-8 byte sequence from index 1")), .empty,
        []) := by
  intro item location bytes
  obtain ⟨hencodes, hdecodes⟩ := text_codec_inverse
  obtain ⟨blob, restored, hencode, hdecode, -, hx, hy, howned⟩ :=
    hencodes item "né" location rfl rfl
  have hblob : encode (View.ofItem item location) = .ok (some bytes) := by decide +kernel
  obtain rfl : blob = bytes := Option.some.inj (Except.ok.inj (hencode.symm.trans hblob))
  refine ⟨⟨restored, hencode, hdecode, hx.trans (by decide +kernel), hy.trans (by decide +kernel),
    howned.trans (by decide +kernel)⟩, (hdecodes bytes 5 .empty).1.2 (by decide +kernel), ?_⟩
  have hmessage : (Utf8.fault 0 ((bytes.take 10).drop 8)).message =
      "incomplete utf-8 byte sequence from index 1" := by decide +kernel
  rw [← hmessage]
  exact (hdecodes (bytes.take 10) 5 .empty).2.2.2.2 rfl (by decide) (by decide +kernel)

end CommandTape.Canvas
