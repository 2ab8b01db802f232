/-!
# Shortest decimals

A positive number `m · 2 ^ q` lies in an interval of numbers that round to it. Of all decimals in
that interval, `Decimal.shortest` takes one with the fewest digits, and of those the nearest to the
number, the greater of two equally near. `Float32Text` says how 32-bit floating point numbers are
written with it.
-/

namespace CommandTape

/-- The positive number `digits · 10 ^ exponent`. -/
structure Decimal where
  digits : Nat
  exponent : Int
deriving DecidableEq, Repr

namespace Decimal

/-- A positive number and the interval of the numbers that round to it, all three in units of one
power of two: `middle`, and its distances to the two ends. -/
structure Interval where
  middle : Nat
  below : Nat
  above : Nat
  /-- The power of two that is the unit. -/
  scale : Int
  /-- Whether the ends themselves round to the number. -/
  closed : Bool
deriving Repr

/-- `n · 2 ^ scale` as a quotient of natural numbers. -/
def quotient (n : Nat) (scale : Int) : Nat × Nat :=
  match scale with
  | .ofNat k => (n <<< k, 1)
  | .negSucc k => (n, 1 <<< (k + 1))

/-- The quotient `n / d` divided by `10 ^ e`. -/
def inUnits (r : Nat × Nat) (e : Int) : Nat × Nat :=
  match e with
  | .ofNat k => (r.1, r.2 * Nat.pow 10 k)
  | .negSucc k => (r.1 * Nat.pow 10 (k + 1), r.2)

/-- Whether the decimal is a positive number in the interval. -/
def Interval.contains (i : Interval) (d : Decimal) : Bool :=
  let low := inUnits (quotient (i.middle - i.below) i.scale) d.exponent
  let high := inUnits (quotient (i.middle + i.above) i.scale) d.exponent
  0 < d.digits &&
    if i.closed then low.1 ≤ d.digits * low.2 && d.digits * high.2 ≤ high.1
    else low.1 < d.digits * low.2 && d.digits * high.2 < high.1

/-- The two neighbours of the middle among the decimals with the exponent `e`, the nearer one
first, the greater first of two equally near. -/
def Interval.neighbours (i : Interval) (e : Int) : List Decimal :=
  let middle := inUnits (quotient i.middle i.scale) e
  let low : Decimal := ⟨middle.1 / middle.2, e⟩
  let high : Decimal := ⟨middle.1 / middle.2 + 1, e⟩
  if 2 * (middle.1 % middle.2) < middle.2 then [low, high] else [high, low]

/-- The decimal with the exponent `e` that is nearest to the middle, if it lies in the interval. -/
def Interval.onGrid? (i : Interval) (e : Int) : Option Decimal :=
  (i.neighbours e).find? i.contains

/-- The first grid with a decimal in the interval, from the exponent `e` downwards. -/
def Interval.search (i : Interval) : (fuel : Nat) → (e : Int) → Option Decimal
  | 0, _ => none
  | fuel + 1, e =>
    match i.onGrid? e with
    | some d => some d
    | none => i.search fuel (e - 1)

/-- The count of decimal digits of a number; none for zero. -/
def countDigits (n : Nat) : Nat :=
  if n = 0 then 0 else (Nat.toDigits 10 n).length

/-- An exponent whose grid is coarser than the number: the power of ten is above the middle. -/
def Interval.top (i : Interval) : Int :=
  let (n, d) := quotient i.middle i.scale
  (countDigits n : Int) - (countDigits d : Int) + 1

/-- Takes the zeros at the end of the digits into the exponent. -/
def trim : (fuel : Nat) → Decimal → Decimal
  | 0, d => d
  | fuel + 1, d =>
    if d.digits % 10 = 0 then trim fuel ⟨d.digits / 10, d.exponent + 1⟩ else d

/-- The shortest decimal of the interval, without zeros at the end. The grids that are tried reach
from above the number down to `precision` digits. -/
def shortest (precision : Nat) (i : Interval) : Decimal :=
  match i.search (precision + 3) i.top with
  | some d => trim precision d
  | none => ⟨0, 0⟩

/-- The exponent of the first digit: the number is `d.ddd · 10 ^ order`. -/
def order (d : Decimal) : Int :=
  d.exponent + countDigits d.digits - 1

/-- The digits as characters, most significant first. -/
def characters (d : Decimal) : List Char :=
  Nat.toDigits 10 d.digits

/-- All digits around a point, with a digit on both sides of it. -/
def positional (d : Decimal) : String :=
  let cs := d.characters
  match d.exponent with
  | .ofNat k => String.ofList (cs ++ List.replicate k '0' ++ ['.', '0'])
  | .negSucc k =>
    let places := k + 1
    if places < cs.length then
      String.ofList (cs.take (cs.length - places) ++ ['.'] ++ cs.drop (cs.length - places))
    else
      String.ofList (['0', '.'] ++ List.replicate (places - cs.length) '0' ++ cs)

/-- One digit, a point before further digits if there are any, and the power of ten. -/
def scientific (d : Decimal) : String :=
  let tail := match d.characters with
    | [] => []
    | [c] => [c]
    | c :: cs => c :: '.' :: cs
  String.ofList tail ++ "e" ++ toString d.order

end Decimal

/-! ## Floating point numbers of 32 bits -/

namespace Float32Text

/-- How numbers are written: positional from `10 ^ least` up to below `10 ^ most`. -/
structure Form where
  least : Int
  most : Int
  notNumber : String
  infinite : String
  zero : String

/-- Numbers from `0.0001` up to below `10 ^ 16` are positional and keep a digit after the point. -/
def form : Form := ⟨-4, 16, "NaN", "inf", "0.0"⟩

/-- The count of digits that tells any two numbers of 32 bits apart. -/
def precision : Nat := 9

/-- The interval of a positive finite number given by its fields: the exponent as stored, and the
fraction. Only just above a power of two are the two ends not equally far. -/
def interval (exponent fraction : Nat) : Decimal.Interval :=
  if exponent = 0 then
    { middle := 2 * fraction, below := 1, above := 1, scale := -150, closed := true }
  else
    let mantissa := 0x800000 + fraction
    let scale : Int := (exponent : Int) - 150
    let closed := mantissa % 2 = 0
    if fraction = 0 then
      { middle := 4 * mantissa, below := 1, above := 2, scale := scale - 2, closed := closed }
    else
      { middle := 2 * mantissa, below := 1, above := 1, scale := scale - 1, closed := closed }

/-- The number without its sign. -/
def magnitude (f : Form) (exponent fraction : Nat) : String :=
  if exponent = 255 then
    if fraction = 0 then f.infinite else f.notNumber
  else if exponent = 0 ∧ fraction = 0 then f.zero
  else
    let d := Decimal.shortest precision (interval exponent fraction)
    if f.least ≤ d.order ∧ d.order < f.most then d.positional else d.scientific

/-- The number with these 32 bits. What is no number has no sign. -/
def render (f : Form) (bits : Nat) : String :=
  let exponent := bits / 0x800000 % 256
  let fraction := bits % 0x800000
  let negative := bits / 0x80000000 % 2 = 1
  let text := magnitude f exponent fraction
  if negative ∧ ¬ (exponent = 255 ∧ fraction ≠ 0) then "-" ++ text else text

/-- The text of the number with these 32 bits. -/
def ofBits (bits : Nat) : String := render form bits

end Float32Text

end CommandTape
