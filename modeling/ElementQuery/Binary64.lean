import ElementQuery.Text

/-!
# Double precision numbers

A range control reports and accepts double precision numbers, and a timeout is given as one. Every
finite double is a whole number of units of `2^-1074`, so a finite value is kept as its sign and its
number of units, and its order is the order of whole numbers. The sign of zero is kept, since it is
written. All values that are not numbers are one.

Rounding, reading and writing are exact arithmetic of whole numbers.
-/

namespace ElementQuery

open Text

/-- A double precision number; a finite one is `units * 2^-1074`, below zero when `negative`. -/
inductive Binary64 where
  | nan
  | infinity (negative : Bool)
  | finite (negative : Bool) (units : Nat)
  deriving DecidableEq, Inhabited

namespace Binary64

/-- The number of units in one. -/
def unitsPerOne : Nat := Nat.pow 2 1074

/-- The number of units at which the doubles end and infinity begins. -/
def unitsOfInfinity : Nat := Nat.pow 2 2098

def zero : Binary64 := .finite false 0

def isFinite : Binary64 → Bool
  | .finite _ _ => true
  | _ => false

def negate : Binary64 → Binary64
  | .nan => .nan
  | .infinity negative => .infinity (!negative)
  | .finite negative units => .finite (!negative) units

/-- The number of units with its sign; both zeros give zero. -/
def signedUnits (negative : Bool) (units : Nat) : Int :=
  if negative then -(units : Int) else units

/-- The strict order of the numbers; nothing is below or above a value that is not a number. -/
def less : Binary64 → Binary64 → Bool
  | .nan, _ => false
  | _, .nan => false
  | .infinity n, .infinity m => n && !m
  | .infinity n, .finite _ _ => n
  | .finite _ _, .infinity m => !m
  | .finite n u, .finite m v => decide (signedUnits n u < signedUnits m v)

/-- Holds when the first number is below the second or equal to it. -/
def atMost : Binary64 → Binary64 → Bool
  | .nan, _ => false
  | _, .nan => false
  | x, y => !less y x

end Binary64

/-! ## Rounding to double precision

The double nearest to a ratio of whole numbers, a tie going to the neighbour whose last bit is
clear. A double has at most fifty-three significant bits, so the number of units is rounded at the
bit that leaves that many; beyond the largest double the result is infinite. Products and quotients
of doubles are ratios of whole numbers too and are rounded in the same way.
-/

/-- The whole number nearest to a ratio; a tie goes to the even one. -/
def roundToEven (numerator denominator : Nat) : Nat :=
  let quotient := numerator / denominator
  let twice := 2 * (numerator % denominator)
  if twice < denominator then quotient
  else if denominator < twice then quotient + 1
  else if quotient % 2 = 0 then quotient
  else quotient + 1

namespace Binary64

/-- The number of low bits that a magnitude of so many units loses; fifty-three bits are kept. -/
def lostBits (units : Nat) : Nat :=
  Nat.log2 units - 52

/-- The double nearest to `numerator / denominator` units. -/
def ofUnits (negative : Bool) (numerator denominator : Nat) : Binary64 :=
  let step := Nat.pow 2 (lostBits (numerator / denominator))
  let units := roundToEven numerator (denominator * step) * step
  if unitsOfInfinity ≤ units then .infinity negative else .finite negative units

def ofRatio (negative : Bool) (numerator denominator : Nat) : Binary64 :=
  ofUnits negative (numerator * unitsPerOne) denominator

def ofNat (n : Nat) : Binary64 :=
  ofRatio false n 1

/-- The double nearest to the product of two positive doubles, given by their units. -/
def timesUnits (u v : Nat) : Binary64 :=
  ofUnits false (u * v) unitsPerOne

/-- The double nearest to the quotient of two positive doubles, given by their units. -/
def overUnits (u v : Nat) : Binary64 :=
  ofRatio false u v

/-! ## Reading a double from text

A number is an optional sign and either one of the words `inf`, `infinity` and `nan` in any case, or
ASCII digits with an optional point among them and an optional exponent. A digit is required before
the exponent and another after its `e`; either side of the point may be empty. The result is the
double nearest to what is written. Exponents are unbounded, so the size of the number is settled
before any power of ten is formed.
-/

/-- A decimal number: `digits * 10^(scale - fraction)`. -/
structure Decimal where
  digits : Nat
  fraction : Nat
  scale : Int

namespace Decimal

/-- A number of this many digits before the point, or more, is infinite. -/
def tooLarge : Int := 310

/-- A number with this many zeros after the point, or more, is zero. -/
def tooSmall : Int := 330

def width (n : Nat) : Nat :=
  (Nat.toDigits 10 n).length

def round (negative : Bool) (d : Decimal) : Binary64 :=
  let exponent : Int := d.scale - d.fraction
  let point : Int := width d.digits + exponent
  if d.digits = 0 then .finite negative 0
  else if tooLarge < point then .infinity negative
  else if point < -tooSmall then .finite negative 0
  else if 0 ≤ exponent then ofRatio negative (d.digits * Nat.pow 10 exponent.toNat) 1
  else ofRatio negative d.digits (Nat.pow 10 (-exponent).toNat)

end Decimal

/-- Reads the exponent after the digits; there may be none. -/
def readExponent? : List Char → Option Int
  | [] => some 0
  | c :: cs =>
    if c = 'e' || c = 'E' then
      match cs with
      | '-' :: digits => (readNat? digits).map fun n => -(n : Int)
      | '+' :: digits => (readNat? digits).map fun n => (n : Int)
      | digits => (readNat? digits).map fun n => (n : Int)
    else none

/-- Reads digits with an optional point and an optional exponent. -/
def readDecimal? (cs : List Char) : Option Decimal :=
  let whole := cs.takeWhile isAsciiDigit
  let afterWhole := cs.dropWhile isAsciiDigit
  let (fraction, rest) : List Char × List Char := match afterWhole with
    | '.' :: r => (r.takeWhile isAsciiDigit, r.dropWhile isAsciiDigit)
    | r => ([], r)
  match readNat? (whole ++ fraction), readExponent? rest with
  | some digits, some scale => some ⟨digits, fraction.length, scale⟩
  | _, _ => none

def readMagnitude? (negative : Bool) (cs : List Char) : Option Binary64 :=
  let word := String.ofList (cs.map lowerAscii)
  if word = "inf" || word = "infinity" then some (.infinity negative)
  else if word = "nan" then some .nan
  else (readDecimal? cs).map (Decimal.round negative)

def read? : List Char → Option Binary64
  | '-' :: cs => readMagnitude? true cs
  | '+' :: cs => readMagnitude? false cs
  | cs => readMagnitude? false cs

/-! ## Writing a double in the fewest digits

A finite double is written with the fewest decimal digits that still read back as it, and among
those with the digits nearest to it, a tie going up. The reals that read back as a double form an
interval around it whose ends belong to it when its last bit is clear. For ever more digits, up to
seventeen, the two neighbours of the double on that decimal grid are tried in exact arithmetic; the
coarsest grid has the next power of ten alone. Digits are always written positionally, never with an
exponent, and a whole number has no point.
-/

/-- The interval of reals that read back as a positive double, in quarters of a unit. -/
structure Interval where
  value : Nat
  low : Nat
  high : Nat
  closed : Bool

/-- The interval around a positive double. -/
def intervalOf (units : Nat) : Interval :=
  let step := Nat.pow 2 (lostBits units)
  let below := if units = Nat.pow 2 52 * step && step != 1 then step else 2 * step
  { value := 4 * units
    low := 4 * units - below
    high := 4 * units + 2 * step
    closed := units / step % 2 == 0 }

/-- Whether the ratio `numerator / denominator` of quarters of a unit lies in the interval. -/
def Interval.holds (i : Interval) (numerator denominator : Nat) : Bool :=
  if i.closed then
    decide (i.low * denominator ≤ numerator) && decide (numerator ≤ i.high * denominator)
  else
    decide (i.low * denominator < numerator) && decide (numerator < i.high * denominator)

/--
The number of digits of a positive double before the point; zero or less when there are none, with
the zeros after the point counted below zero.
-/
def pointOf (units : Nat) : Int :=
  if unitsPerOne ≤ units then ((Nat.toDigits 10 (units / unitsPerOne)).length : Int)
  else
    let ceiling := (unitsPerOne + units - 1) / units
    1 - ((Nat.toDigits 10 (ceiling - 1)).length : Int)

/-- Digits and the power of ten that they are multiplied by. -/
structure Digits where
  significand : Nat
  exponent : Int

/-- The neighbour of a positive double on the grid of so many digits that reads back as it. -/
def onGrid? (units : Nat) (count : Nat) : Option Digits :=
  let interval := intervalOf units
  let exponent := pointOf units - count
  -- A grid point `d` is `d * up / down` quarters of a unit.
  let up := if 0 ≤ exponent then 4 * unitsPerOne * Nat.pow 10 exponent.toNat else 4 * unitsPerOne
  let down := if 0 ≤ exponent then 1 else Nat.pow 10 (-exponent).toNat
  let floor := interval.value * down / up
  let rest := interval.value * down % up
  let lower := interval.holds (floor * up) down
  let upper := interval.holds ((floor + 1) * up) down
  if upper && (!lower || decide (up ≤ 2 * rest)) then some ⟨floor + 1, exponent⟩
  else if lower then some ⟨floor, exponent⟩
  else none

/-- The fewest digits that read back as a positive double. -/
def shortest (units : Nat) : Digits :=
  ((List.range 18).findSome? (onGrid? units)).getD ⟨0, 0⟩

def Digits.write (d : Digits) : List Char :=
  let cs := writeNat d.significand
  if 0 ≤ d.exponent then cs ++ List.replicate d.exponent.toNat '0'
  else
    let places := (-d.exponent).toNat
    if places < cs.length then
      cs.take (cs.length - places) ++ '.' :: cs.drop (cs.length - places)
    else '0' :: '.' :: (List.replicate (places - cs.length) '0' ++ cs)

def write : Binary64 → List Char
  | .nan => ['N', 'a', 'N']
  | .infinity negative => (if negative then ['-'] else []) ++ ['i', 'n', 'f']
  | .finite negative units =>
    (if negative then ['-'] else []) ++ (if units = 0 then ['0'] else (shortest units).write)

def text (x : Binary64) : String :=
  String.ofList x.write

end Binary64

end ElementQuery
