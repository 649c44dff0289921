import ElementQuery.Text

/-!
# JSON

Settings and stored queries are read from JSON. A value keeps what a later reader may still ask
about: a number keeps the digits that it was written with, since whole numbers and doubles are read
from it in different ways, and a text that escapes half of a surrogate pair has no characters,
which is an error only for a reader that wants the text.
-/

namespace ElementQuery

open Text

namespace Json

/-- A number as it is written. -/
structure Number where
  negative : Bool
  whole : List Char
  fraction : List Char
  exponentNegative : Bool
  exponent : List Char
  deriving DecidableEq, Inhabited

end Json

/-- A JSON value; the fields of an object are in the order in which they are written. -/
inductive Json where
  | null
  | boolean (truth : Bool)
  | number (number : Json.Number)
  | text (text : Option (List Char))
  | array (items : List Json)
  | object (fields : List (Option (List Char) × Json))
  deriving Inhabited

/-! ## Reading JSON text

The grammar of JSON to the letter: four white space characters, no comments, no comma after the last
item, no control character in a text, no superfluous zero before a number, and nothing but white
space around the value. Escapes that name the two halves of a surrogate pair make one character.
-/

namespace Json

def isSpace (c : Char) : Bool :=
  c = ' ' || c = '\t' || c = '\n' || c = '\r'

def skipSpace (cs : List Char) : List Char :=
  cs.dropWhile isSpace

/-! ### Texts -/

def hexDigit? (c : Char) : Option Nat :=
  let n := c.toNat
  if 0x30 ≤ n && n ≤ 0x39 then some (n - 0x30)
  else if 0x41 ≤ n && n ≤ 0x46 then some (n - 0x41 + 10)
  else if 0x61 ≤ n && n ≤ 0x66 then some (n - 0x61 + 10)
  else none

def hex? (a b c d : Char) : Option Nat := do
  let a ← hexDigit? a
  let b ← hexDigit? b
  let c ← hexDigit? c
  let d ← hexDigit? d
  return ((a * 16 + b) * 16 + c) * 16 + d

/-- The code point that a backslash and one more character stand for. -/
def escape? (c : Char) : Option Nat :=
  if c = '"' || c = '\\' || c = '/' then some c.toNat
  else if c = 'b' then some 0x08
  else if c = 'f' then some 0x0C
  else if c = 'n' then some 0x0A
  else if c = 'r' then some 0x0D
  else if c = 't' then some 0x09
  else none

/--
The code points of a text up to its closing quote, and the rest; each half of a surrogate pair
counts as a code point.
-/
def codePoints? : List Char → Option (List Nat × List Char)
  | [] => none
  | '"' :: cs => some ([], cs)
  | '\\' :: 'u' :: a :: b :: c :: d :: cs => do
    let n ← hex? a b c d
    let (ns, rest) ← codePoints? cs
    return (n :: ns, rest)
  | '\\' :: c :: cs => do
    let n ← escape? c
    let (ns, rest) ← codePoints? cs
    return (n :: ns, rest)
  | c :: cs =>
    if c.toNat < 0x20 || c = '\\' then none
    else do
      let (ns, rest) ← codePoints? cs
      return (c.toNat :: ns, rest)

def isHighSurrogate (n : Nat) : Bool :=
  decide (0xD800 ≤ n) && decide (n ≤ 0xDBFF)

def isLowSurrogate (n : Nat) : Bool :=
  decide (0xDC00 ≤ n) && decide (n ≤ 0xDFFF)

/-- The characters of code points; there are none when a half of a surrogate pair stands alone. -/
def characters? : List Nat → Option (List Char)
  | [] => some []
  | [n] => if isHighSurrogate n || isLowSurrogate n then none else some [Char.ofNat n]
  | n :: m :: ns =>
    if isHighSurrogate n then
      if isLowSurrogate m then
        (characters? ns).map
          (Char.ofNat (0x10000 + (n - 0xD800) * 0x400 + (m - 0xDC00)) :: ·)
      else none
    else if isLowSurrogate n then none
    else (characters? (m :: ns)).map (Char.ofNat n :: ·)

/-! ### Numbers -/

/-- The digits in front and the rest; there has to be a digit. -/
def someDigits? (cs : List Char) : Option (List Char × List Char) :=
  match cs.takeWhile isAsciiDigit with
  | [] => none
  | d :: ds => some (d :: ds, cs.dropWhile isAsciiDigit)

/-- The whole part of a number: a zero, or digits that do not begin with one. -/
def wholePart? : List Char → Option (List Char × List Char)
  | '0' :: cs => some (['0'], cs)
  | cs => someDigits? cs

def fractionPart? : List Char → Option (List Char × List Char)
  | '.' :: cs => someDigits? cs
  | cs => some ([], cs)

def exponentPart? : List Char → Option (Bool × List Char × List Char)
  | [] => some (false, [], [])
  | c :: cs =>
    if c = 'e' || c = 'E' then
      match cs with
      | '-' :: ds => (someDigits? ds).map fun parts => (true, parts)
      | '+' :: ds => (someDigits? ds).map fun parts => (false, parts)
      | ds => (someDigits? ds).map fun parts => (false, parts)
    else some (false, [], c :: cs)

def unsignedNumber? (negative : Bool) (cs : List Char) : Option (Json × List Char) := do
  let (whole, cs) ← wholePart? cs
  let (fraction, cs) ← fractionPart? cs
  let (exponentNegative, exponent, cs) ← exponentPart? cs
  return (.number ⟨negative, whole, fraction, exponentNegative, exponent⟩, cs)

def number? : List Char → Option (Json × List Char)
  | '-' :: cs => unsignedNumber? true cs
  | cs => unsignedNumber? false cs

/-! ### Values -/

mutual

/-- Reads a value that begins at the front; the first argument bounds the nesting. -/
def value? : Nat → List Char → Option (Json × List Char)
  | 0, _ => none
  | fuel + 1, cs =>
    match cs with
    | 'n' :: 'u' :: 'l' :: 'l' :: rest => some (.null, rest)
    | 't' :: 'r' :: 'u' :: 'e' :: rest => some (.boolean true, rest)
    | 'f' :: 'a' :: 'l' :: 's' :: 'e' :: rest => some (.boolean false, rest)
    | '"' :: rest => (codePoints? rest).map fun read => (.text (characters? read.1), read.2)
    | '[' :: rest =>
      match skipSpace rest with
      | ']' :: rest => some (.array [], rest)
      | rest => (items? fuel rest).map fun read => (.array read.1, read.2)
    | '\x7b' :: rest =>
      match skipSpace rest with
      | '\x7d' :: rest => some (.object [], rest)
      | rest => (fields? fuel rest).map fun read => (.object read.1, read.2)
    | cs => number? cs

def items? : Nat → List Char → Option (List Json × List Char)
  | 0, _ => none
  | fuel + 1, cs => do
    let (item, rest) ← value? fuel (skipSpace cs)
    match skipSpace rest with
    | ',' :: rest =>
      let (items, rest) ← items? fuel rest
      return (item :: items, rest)
    | ']' :: rest => return ([item], rest)
    | _ => none

/-- Reads the fields of an object up to its closing brace. -/
def fields? : Nat → List Char → Option (List (Option (List Char) × Json) × List Char)
  | 0, _ => none
  | fuel + 1, cs =>
    match skipSpace cs with
    | '"' :: rest => do
      let (key, rest) ← codePoints? rest
      match skipSpace rest with
      | ':' :: rest =>
        let (value, rest) ← value? fuel (skipSpace rest)
        match skipSpace rest with
        | ',' :: rest =>
          let (fields, rest) ← fields? fuel rest
          return ((characters? key, value) :: fields, rest)
        | '\x7d' :: rest => return ([(characters? key, value)], rest)
        | _ => none
      | _ => none
    | _ => none

end

def read? (cs : List Char) : Option Json :=
  match value? (2 * cs.length + 1) (skipSpace cs) with
  | some (value, rest) => if (skipSpace rest).isEmpty then some value else none
  | none => none

end Json

end ElementQuery
