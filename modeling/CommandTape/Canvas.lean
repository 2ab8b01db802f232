import CommandTape.Journal
import CommandTape.Text.Decimal
import CommandTape.Text.Utf8
import CommandTape.Vocabulary

/-!
# A canvas

The drawing commands of the example programs (`Save`, `Restore`, `SetFillColor`, `FillRect` and
`DrawText`), and the `Canvas` that they are applied to. The canvas has a fill color and a depth of
saved states, and keeps a list of what was drawn on it. Floating point numbers are kept as their
bits.
-/

namespace CommandTape

/-- A color. -/
structure Color where
  red : UInt8
  green : UInt8
  blue : UInt8
  alpha : UInt8
deriving DecidableEq, Repr

namespace Color

/-- The four parts in order. -/
def bytes (c : Color) : Bytes := [c.red, c.green, c.blue, c.alpha]

/-- The color with the given parts; missing ones are zero. -/
def ofBytes (bs : Bytes) : Color :=
  ⟨bs.getD 0 0, bs.getD 1 0, bs.getD 2 0, bs.getD 3 0⟩

/-- The color as a list of numbers. -/
def text (c : Color) : String :=
  "[" ++ ", ".intercalate (c.bytes.map fun b => toString b.toNat) ++ "]"

end Color

/-- Floating point numbers as a list. -/
def Float32Text.list (numbers : List UInt32) : String :=
  "[" ++ ", ".intercalate (numbers.map fun n => Float32Text.ofBits n.toNat) ++ "]"

/-- A rectangle. -/
structure Rect where
  x : UInt32
  y : UInt32
  width : UInt32
  height : UInt32
deriving DecidableEq, Repr

/-- The four numbers in order. -/
def Rect.numbers (r : Rect) : List UInt32 := [r.x, r.y, r.width, r.height]

/-- Something that was done to a canvas. -/
inductive Stroke where
  | saved (depth : Nat)
  | restored (depth : Nat)
  | filled (rect : Rect) (color : Color)
  | wrote (text : String) (x y : UInt32) (color : Color)
deriving DecidableEq, Repr

/-- The stroke as a line of a log. -/
def Stroke.line : Stroke → String
  | saved depth => s!"INFO save (depth {depth})"
  | restored depth => s!"INFO restore (depth {depth})"
  | filled rect color => s!"INFO fill {Float32Text.list rect.numbers} with {color.text}"
  | wrote text x y color =>
    "INFO text " ++ Quoted.ofString text ++ s!" at {Float32Text.list [x, y]} in {color.text}"

/-- What drawing commands are applied to. -/
structure Canvas where
  color : Color
  depth : Nat
  /-- What was done. -/
  strokes : Journal Stroke
deriving DecidableEq, Repr

namespace Canvas

/-- A canvas with nothing on it, at the given depth. -/
def blank (depth : Nat) : Canvas := ⟨⟨0, 0, 0, 0⟩, depth, .empty⟩

/-- Adds a stroke. -/
def draw (canvas : Canvas) (stroke : Stroke) : Canvas :=
  { canvas with strokes := canvas.strokes.add stroke }

/-- A drawing command. -/
inductive Command where
  /-- Saves the state. -/
  | save
  /-- Goes back to the state saved last. -/
  | restore
  | setFillColor (color : Color)
  | fillRect (rect : Rect)
  | drawText (x y : UInt32) (text : String)
deriving DecidableEq, Repr

namespace Command

/-- What a command does to a canvas. The depth is a machine word that must not overflow and stays
at zero when there is nothing to restore. -/
def apply (command : Command) (canvas : Canvas) : Except Fault Unit × Canvas :=
  match command with
  | save =>
    match Word.add canvas.depth 1 with
    | .error f => (.error f, canvas)
    | .ok depth => (.ok (), { canvas with depth := depth }.draw (.saved depth))
  | restore =>
    let depth := canvas.depth - 1
    (.ok (), { canvas with depth := depth }.draw (.restored depth))
  | setFillColor color => (.ok (), { canvas with color := color })
  | fillRect rect => (.ok (), canvas.draw (.filled rect canvas.color))
  | drawText x y text => (.ok (), canvas.draw (.wrote text x y canvas.color))

end Command

/-! ## Commands as items -/

/-- What the names of the kinds start with. -/
def scope : String := "driver::common::"

/-- The kind of the commands that save. -/
def saveKind : Kind :=
  { name := scope ++ "Save", tag := 1, isInline := true, size := 0, align := 1,
    needsDrop := false, size_lt := Layout.memoryLimit_pos }

/-- The kind of the commands that restore. -/
def restoreKind : Kind :=
  { name := scope ++ "Restore", tag := 2, isInline := true, size := 0, align := 1,
    needsDrop := false, size_lt := Layout.memoryLimit_pos }

/-- The kind of the commands that set the color. -/
def setFillColorKind : Kind :=
  { name := scope ++ "SetFillColor", tag := 3, isInline := true, size := 4, align := 1,
    needsDrop := false }

/-- The kind of the commands that fill a rectangle. -/
def fillRectKind : Kind :=
  { name := scope ++ "FillRect", tag := 4, isInline := true, size := 16, align := 4,
    needsDrop := false }

/-- The kind of the commands that write text, which own it and are encoded. -/
def drawTextKind : Kind :=
  { name := scope ++ "DrawText", tag := 5, isInline := false, size := 32, align := 8,
    needsDrop := true }

/-- A floating point number as it lies in an image. -/
def numberBytes (n : UInt32) : Bytes := LittleEndian.encode 4 n.toNat

/-- The floating point number in an image, from `offset` on. -/
def numberAt (item : Item) (offset : Nat) : UInt32 := UInt32.ofNat (item.field offset 4)

/-- The item that records a command. -/
def Command.item : Command → Item
  | save => ⟨saveKind, [], [], rfl, fun _ => rfl⟩
  | restore => ⟨restoreKind, [], [], rfl, fun _ => rfl⟩
  | setFillColor color => ⟨setFillColorKind, color.bytes, [], rfl, fun _ => rfl⟩
  | fillRect rect =>
    ⟨fillRectKind, rect.numbers.flatMap numberBytes, [], rfl, fun _ => rfl⟩
  | drawText x y text =>
    let bytes := Utf8.encode text
    ⟨drawTextKind, Item.reference bytes.length ++ numberBytes x ++ numberBytes y, bytes,
      by simp [numberBytes, drawTextKind], fun h => Bool.noConfusion h⟩

/-- The text that an item owns. -/
def ownedText (item : Item) : String :=
  match Utf8.decode item.owned with
  | .ok text => text
  | .error _ => ""

/-- The commands of the vocabulary, each kind with the command that an item of it records. -/
def commands : List (Kind × (Item → Command)) :=
  [(saveKind, fun _ => .save),
   (restoreKind, fun _ => .restore),
   (setFillColorKind, fun item => .setFillColor (.ofBytes item.image)),
   (fillRectKind, fun item =>
     .fillRect ⟨numberAt item 0, numberAt item 4, numberAt item 8, numberAt item 12⟩),
   (drawTextKind, fun item =>
     .drawText (numberAt item 24) (numberAt item 28) (ownedText item))]

/-- The vocabulary of drawing commands. -/
def vocabulary : Vocabulary Canvas :=
  ⟨commands.map fun (kind, command) => ⟨kind, fun item => (command item).apply⟩⟩

end Canvas

end CommandTape
