import ElementQuery.Binary64
import ElementQuery.Json.Reader
import ElementQuery.Text

/-!
# What JSON values stand for

Whole numbers and doubles are made of the digits of a number, and records, choices and optional
fields of the values inside a value.
-/

namespace ElementQuery.Json

open Text

/-! ## The values of JSON numbers

A whole number is one that is written without a point and without an exponent; a zero with a sign is
not one. Where a double is wanted any number will do, and it is read with two roundings. The digits
that fit into an unsigned number of sixty-four bits form a significand, the digits that do not fit
only move the point, and the double nearest to the significand is multiplied or divided by the
double nearest to a power of ten. A number that is too large is refused.
-/

namespace Number

/-- Holds of a number that is written without a point and without an exponent. -/
def isWhole (n : Number) : Bool :=
  n.fraction.isEmpty && n.exponent.isEmpty

def unsigned? (n : Number) : Option Nat :=
  if n.isWhole && !n.negative then readUnsigned? n.whole else none

def signed? (n : Number) : Option Int :=
  if n.isWhole then
    match readNat? n.whole with
    | none => none
    | some m =>
      if n.negative then
        if m = 0 then none else some (-(m : Int)) |>.filter isSigned
      else some (m : Int) |>.filter isSigned
  else none

/-- Appends digits to a significand while it stays below the bound; gives the digits left over too. -/
def appendDigits : Nat → List Char → Nat × List Char
  | significand, [] => (significand, [])
  | significand, c :: cs =>
    let next := 10 * significand + (c.toNat - 0x30)
    if next < unsignedBound then appendDigits next cs else (significand, c :: cs)

/-- The significand of a number and the power of ten that its digits leave. -/
def significand (n : Number) : Nat × Int :=
  let (whole, dropped) := appendDigits 0 n.whole
  let (all, left) := appendDigits whole n.fraction
  (all, (dropped.length : Int) - ((n.fraction.length - left.length : Nat) : Int))

def unitsOf : Binary64 → Nat
  | .finite _ units => units
  | _ => 0

/-- The units of the double nearest to a power of ten. -/
def powerUnits (n : Nat) : Nat :=
  unitsOf (Binary64.ofNat (Nat.pow 10 n))

/-- The largest power of ten that is a double. -/
def largestPower : Int := 308

/-- The double nearest to a significand, moved by a power of ten. -/
def scale (significand : Nat) (exponent : Int) : Option Binary64 :=
  let units := unitsOf (Binary64.ofNat significand)
  let below := unitsOf (Binary64.overUnits units (powerUnits 308))
  if units = 0 then some .zero
  else if largestPower < exponent then none
  else if 0 ≤ exponent then
    some (Binary64.timesUnits units (powerUnits exponent.toNat)) |>.filter Binary64.isFinite
  else if -largestPower ≤ exponent then
    some (Binary64.overUnits units (powerUnits (-exponent).toNat))
  else if -(2 * largestPower) ≤ exponent then
    some (Binary64.overUnits below (powerUnits (-exponent - largestPower).toNat))
  else some .zero

def binary64? (n : Number) : Option Binary64 :=
  let (digits, exponent) := n.significand
  let written : Int := ((readNat? n.exponent).getD 0 : Nat)
  let shift := if n.exponentNegative then -written else written
  (scale digits (exponent + shift)).map fun x => if n.negative then x.negate else x

end Number

/-! ## Layouts of JSON values

Two layouts recur in the values that are read from JSON. A record is an object with named fields, or
an array with its fields in order; fields of other names are passed over unread, and a field may not
be given twice. A choice is its name alone, or an object whose only field has that name and holds
what comes with it.

Records, arrays and objects that are read may be nested only so far. Each reader is given the depth
that is left, and a value that is passed over is not counted.
-/

/-- The depth to which values may be nested. -/
def depthLimit : Nat := 128

/-- The depth that is left inside a value. -/
def descend? : Nat → Option Nat
  | 0 => none
  | 1 => none
  | depth + 2 => some (depth + 1)

def string? : Json → Option String
  | .text (some cs) => some (String.ofList cs)
  | _ => none

def boolean? : Json → Option Bool
  | .boolean b => some b
  | _ => none

def unsigned? : Json → Option Nat
  | .number n => n.unsigned?
  | _ => none

def signed? : Json → Option Int
  | .number n => n.signed?
  | _ => none

def binary64? : Json → Option Binary64
  | .number n => n.binary64?
  | _ => none

/-- Reads a value that may be missing or null. -/
def optional? {α : Type} (read : Json → Option α) : Option Json → Option (Option α)
  | none => some none
  | some .null => some none
  | some value => (read value).map some

/-- The values of a record by the names of its fields; `unknown` tells whether there may be more. -/
def namedFields? (unknown : Bool) (names : List String) :
    List (Option (List Char) × Json) → Option (List (String × Json))
  | [] => some []
  | (none, _) :: _ => none
  | (some key, value) :: rest => do
    let name := String.ofList key
    let read ← namedFields? unknown names rest
    if names.contains name then
      if (read.lookup name).isSome then none else return (name, value) :: read
    else if unknown then return read
    else none

/-- The values of a record in the order of the names of its fields, and the depth left inside it. -/
def record? (unknown : Bool) (names : List String) (depth : Nat) (value : Json) :
    Option (Nat × List (Option Json)) := do
  let inner ← descend? depth
  match value with
  | .array items =>
    if items.length ≤ names.length then
      return (inner, items.map some ++ List.replicate (names.length - items.length) none)
    else none
  | .object fields =>
    let read ← namedFields? unknown names fields
    return (inner, names.map fun name => read.lookup name)
  | _ => none

/-- The name of a choice, with what comes with it and the depth left there. -/
def choice? (depth : Nat) : Json → Option (String × Option (Nat × Json))
  | .text (some cs) => some (String.ofList cs, none)
  | .object [(some key, value)] =>
    (descend? depth).map fun inner => (String.ofList key, some (inner, value))
  | _ => none

/-- Reads a choice that nothing comes with. -/
def oneOf? {α : Type} (all : List α) (name : α → String) (depth : Nat) (value : Json) :
    Option α := do
  match ← choice? depth value with
  | (s, none) => all.find? fun a => name a == s
  | (s, some (_, .null)) => all.find? fun a => name a == s
  | _ => none

end ElementQuery.Json
