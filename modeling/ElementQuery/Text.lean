/-!
# Texts

How texts are taken apart: which characters are white space, digits and letters, how a number is
written and read, how a character is protected from the grammar of a query, and how a text is split
and joined. Texts are lists of characters here, so that each operation is a list operation.
-/

namespace ElementQuery.Text

/-! ## White space

Names, locators and values are compared after white space has been dropped from their ends, and
names also after it has been dropped from their middle. White space is the Unicode property
`White_Space`, twenty-five characters in all.
-/

/-- Holds of the characters of the Unicode property `White_Space`. -/
def isBlank (c : Char) : Bool :=
  let n := c.toNat
  (decide (0x09 ≤ n) && decide (n ≤ 0x0D)) || n == 0x20 || n == 0x85 || n == 0xA0 || n == 0x1680 ||
    (decide (0x2000 ≤ n) && decide (n ≤ 0x200A)) || n == 0x2028 || n == 0x2029 || n == 0x202F ||
    n == 0x205F || n == 0x3000

def trimStart (cs : List Char) : List Char :=
  cs.dropWhile isBlank

def trimEnd (cs : List Char) : List Char :=
  (cs.reverse.dropWhile isBlank).reverse

def trim (cs : List Char) : List Char :=
  trimEnd (trimStart cs)

def trimmed (s : String) : String :=
  String.ofList (trim s.toList)

def isAllBlank (s : String) : Bool :=
  s.toList.all isBlank

/-! ## Decimal digits of every script

A grid address may be written with the digits of any script, so the reader has to know where a run
of digits ends. The digits are given by the code points of the Unicode general category `Nd` as
inclusive ranges; most scripts bring one run of ten. The ASCII digits are singled out, since only they
carry a value here.
-/

/-- The inclusive ranges of code points that are decimal digits. -/
def digitRanges : List (Nat × Nat) :=
  [(0x30, 0x39), (0x660, 0x669), (0x6F0, 0x6F9), (0x7C0, 0x7C9), (0x966, 0x96F), (0x9E6, 0x9EF),
   (0xA66, 0xA6F), (0xAE6, 0xAEF), (0xB66, 0xB6F), (0xBE6, 0xBEF), (0xC66, 0xC6F), (0xCE6, 0xCEF),
   (0xD66, 0xD6F), (0xDE6, 0xDEF), (0xE50, 0xE59), (0xED0, 0xED9), (0xF20, 0xF29),
   (0x1040, 0x1049), (0x1090, 0x1099), (0x17E0, 0x17E9), (0x1810, 0x1819), (0x1946, 0x194F),
   (0x19D0, 0x19D9), (0x1A80, 0x1A89), (0x1A90, 0x1A99), (0x1B50, 0x1B59), (0x1BB0, 0x1BB9),
   (0x1C40, 0x1C49), (0x1C50, 0x1C59), (0xA620, 0xA629), (0xA8D0, 0xA8D9), (0xA900, 0xA909),
   (0xA9D0, 0xA9D9), (0xA9F0, 0xA9F9), (0xAA50, 0xAA59), (0xABF0, 0xABF9), (0xFF10, 0xFF19),
   (0x104A0, 0x104A9), (0x10D30, 0x10D39), (0x10D40, 0x10D49), (0x11066, 0x1106F),
   (0x110F0, 0x110F9), (0x11136, 0x1113F), (0x111D0, 0x111D9), (0x112F0, 0x112F9),
   (0x11450, 0x11459), (0x114D0, 0x114D9), (0x11650, 0x11659), (0x116C0, 0x116C9),
   (0x116D0, 0x116E3), (0x11730, 0x11739), (0x118E0, 0x118E9), (0x11950, 0x11959),
   (0x11BF0, 0x11BF9), (0x11C50, 0x11C59), (0x11D50, 0x11D59), (0x11DA0, 0x11DA9),
   (0x11F50, 0x11F59), (0x16130, 0x16139), (0x16A60, 0x16A69), (0x16AC0, 0x16AC9),
   (0x16B50, 0x16B59), (0x16D70, 0x16D79), (0x1CCF0, 0x1CCF9), (0x1D7CE, 0x1D7FF),
   (0x1E140, 0x1E149), (0x1E2F0, 0x1E2F9), (0x1E4F0, 0x1E4F9), (0x1E5F1, 0x1E5FA),
   (0x1E950, 0x1E959), (0x1FBF0, 0x1FBF9)]

/-- Holds of the decimal digits of every script. -/
def isDigit (c : Char) : Bool :=
  digitRanges.any fun r => decide (r.1 ≤ c.toNat) && decide (c.toNat ≤ r.2)

/-- Holds of `0` to `9`. -/
def isAsciiDigit (c : Char) : Bool :=
  decide (0x30 ≤ c.toNat) && decide (c.toNat ≤ 0x39)

theorem isDigit_of_isAsciiDigit {c : Char} (hdigit : isAsciiDigit c = true) :
    isDigit c = true := by
  simp only [isAsciiDigit, Bool.and_eq_true, decide_eq_true_eq] at hdigit
  simp [isDigit, digitRanges, hdigit]

/-! ## Letter case

Two readings of letter case are in use. Names are looked up in lower case, and every name that is
looked up is spelled in ASCII, so only the characters whose lower-case form is an ASCII letter
matter: the capital letters and the Kelvin sign. Grid addresses are matched without regard to case
by simple case folding, which also identifies the long s with `s`.
-/

/-- Holds of `A` to `Z`. -/
def isCapital (c : Char) : Bool :=
  decide (0x41 ≤ c.toNat) && decide (c.toNat ≤ 0x5A)

/-- Holds of `a` to `z`. -/
def isSmall (c : Char) : Bool :=
  decide (0x61 ≤ c.toNat) && decide (c.toNat ≤ 0x7A)

/-- The small letter of an ASCII capital; every other character is left as it is. -/
def lowerAscii (c : Char) : Char :=
  if isCapital c then Char.ofNat (c.toNat + 0x20) else c

/-- The lower-case form of a character, as far as it can be an ASCII letter. -/
def lower (c : Char) : Char :=
  if c = '\u212A' then 'k' else lowerAscii c

/-- The simple case folding of a character, as far as it can be an ASCII letter. -/
def fold (c : Char) : Char :=
  if c = '\u017F' then 's' else lower c

/-- Holds of the characters that fold to an ASCII letter. -/
def isLetter (c : Char) : Bool :=
  isSmall (fold c)

def equalsIgnoringAsciiCase (s t : String) : Bool :=
  s.toList.map lowerAscii == t.toList.map lowerAscii

/-- The text in lower case, as far as it is compared with ASCII words. -/
def lowered (cs : List Char) : String :=
  String.ofList (cs.map lower)

/-! ## Numerals

Whole numbers are written in ASCII decimal digits without leading zeros, and read back with any
number of them. Reading refuses an empty text, a foreign digit and a number outside the range that
the reader names: addresses and handles are unsigned, property values are signed, and both have
sixty-four bits.
-/

/-- The number that a run of ASCII digits writes; there is none without a digit. -/
def readNat? (digits : List Char) : Option Nat :=
  if digits.isEmpty then none
  else if digits.all isAsciiDigit then
    some (digits.foldl (fun n c => 10 * n + (c.toNat - 0x30)) 0)
  else none

/-- One more than the largest unsigned number of sixty-four bits. -/
def unsignedBound : Nat := Nat.pow 2 64

/-- Reads an unsigned number of sixty-four bits. -/
def readUnsigned? (digits : List Char) : Option Nat :=
  (readNat? digits).filter fun n => decide (n < unsignedBound)

def isSigned (i : Int) : Bool :=
  decide (-Int.pow 2 63 ≤ i) && decide (i < Int.pow 2 63)

/-- Reads a signed number of sixty-four bits; one leading sign is allowed. -/
def readSigned? (cs : List Char) : Option Int :=
  let number : Option Int := match cs with
    | '-' :: digits => (readNat? digits).map fun n => -(n : Int)
    | '+' :: digits => (readNat? digits).map fun n => (n : Int)
    | digits => (readNat? digits).map fun n => (n : Int)
  number.filter isSigned

def writeNat (n : Nat) : List Char :=
  Nat.toDigits 10 n

def writeInt : Int → List Char
  | .ofNat n => writeNat n
  | .negSucc n => '-' :: writeNat (n + 1)

def decimal (n : Nat) : String :=
  String.ofList (writeNat n)

/-! ## Escapes

A criterion can hold any text. What would be taken for the grammar of a query is written after a
backslash, and a line feed, a tab and a carriage return have letters of their own. Escaping protects
every character that does not stand for itself after a backslash, so that nothing of a value is left
to the grammar; reading it back gives the value.
-/

/--
Resolves escapes. A backslash before `n`, `t` or `r` makes a line feed, a tab or a carriage return,
and before any other character it is dropped; at the end it stands for itself.
-/
def unescape : List Char → List Char
  | [] => []
  | ['\\'] => ['\\']
  | '\\' :: 'n' :: cs => '\n' :: unescape cs
  | '\\' :: 't' :: cs => '\t' :: unescape cs
  | '\\' :: 'r' :: cs => '\r' :: unescape cs
  | '\\' :: c :: cs => c :: unescape cs
  | c :: cs => c :: unescape cs

def escapeChar (c : Char) : List Char :=
  if c = '\n' then ['\\', 'n']
  else if c = '\t' then ['\\', 't']
  else if c = '\r' then ['\\', 'r']
  else if c = 'n' || c = 't' || c = 'r' then [c]
  else ['\\', c]

/-- Writes a text so that none of its characters is taken for the grammar of a query. -/
def escape (cs : List Char) : List Char :=
  cs.flatMap escapeChar

theorem unescape_escapeChar_append (c : Char) (cs : List Char) :
    unescape (escapeChar c ++ cs) = c :: unescape cs := by
  unfold escapeChar
  split
  · next hc => simp [hc, unescape]
  · split
    · next hc => simp [hc, unescape]
    · split
      · next hc => simp [hc, unescape]
      · split
        · next hc =>
          simp only [Bool.or_eq_true, decide_eq_true_eq] at hc
          rcases hc with (hc | hc) | hc <;> simp [hc, unescape]
        · next hc =>
          simp only [Bool.or_eq_true, decide_eq_true_eq, not_or] at hc
          simp [unescape, hc]

theorem unescape_escape (cs : List Char) : unescape (escape cs) = cs := by
  induction cs with
  | nil => rfl
  | cons c cs ih => rw [escape, List.flatMap_cons, unescape_escapeChar_append, ← escape, ih]

/-! ## Splitting and joining

A query is a list of terms joined by a delimiter, and a list of item names is joined by another.
Splitting looks for the delimiter from the left, and an occurrence begins only after the one before
it has ended. There is always at least one piece.
-/

/--
The first piece and the pieces after it; the number counts the characters of a delimiter that are
still to be passed over.
-/
def splitPieces (delimiter : List Char) : Nat → List Char → List Char × List (List Char)
  | _, [] => ([], [])
  | skip + 1, _ :: cs => splitPieces delimiter skip cs
  | 0, c :: cs =>
    if delimiter.isPrefixOf (c :: cs) then
      let pieces := splitPieces delimiter (delimiter.length - 1) cs
      ([], pieces.1 :: pieces.2)
    else
      let pieces := splitPieces delimiter 0 cs
      (c :: pieces.1, pieces.2)

/-- The pieces of a text between the occurrences of a delimiter. -/
def splitAt (delimiter cs : List Char) : List (List Char) :=
  let pieces := splitPieces delimiter 0 cs
  pieces.1 :: pieces.2

def joinWith (delimiter : List Char) : List (List Char) → List Char
  | [] => []
  | [piece] => piece
  | piece :: pieces => piece ++ delimiter ++ joinWith delimiter pieces

theorem joinWith_cons_append (delimiter before piece : List Char) (pieces : List (List Char)) :
    joinWith delimiter ((before ++ piece) :: pieces) =
      before ++ joinWith delimiter (piece :: pieces) := by
  cases pieces <;> simp [joinWith]

theorem joinWith_splitPieces {delimiter : List Char} (hne : delimiter ≠ []) (cs : List Char) :
    ∀ skip, joinWith delimiter ((splitPieces delimiter skip cs).1 ::
      (splitPieces delimiter skip cs).2) = cs.drop skip := by
  induction cs with
  | nil => intro skip; cases skip <;> simp [splitPieces, joinWith]
  | cons c cs ih =>
    intro skip
    cases skip with
    | succ skip => simpa [splitPieces] using ih skip
    | zero =>
      by_cases hpre : delimiter.isPrefixOf (c :: cs)
      · obtain ⟨rest, hrest⟩ := List.isPrefixOf_iff_prefix.mp hpre
        obtain ⟨d, ds, rfl⟩ := List.exists_cons_of_ne_nil hne
        simp only [List.cons_append, List.cons.injEq] at hrest
        simp only [splitPieces, hpre, if_true, joinWith, List.nil_append, ih]
        simp [← hrest.1, ← hrest.2]
      · simp only [splitPieces, hpre, Bool.false_eq_true, if_false, List.drop_zero]
        have hcons := joinWith_cons_append delimiter [c] (splitPieces delimiter 0 cs).1
          (splitPieces delimiter 0 cs).2
        simpa [ih 0] using hcons

theorem joinWith_splitAt {delimiter : List Char} (hne : delimiter ≠ []) (cs : List Char) :
    joinWith delimiter (splitAt delimiter cs) = cs :=
  joinWith_splitPieces hne cs 0

/-- The text before the first occurrence of a character and the text after it. -/
def splitFirst (c : Char) : List Char → Option (List Char × List Char)
  | [] => none
  | d :: ds =>
    if d = c then some ([], ds)
    else (splitFirst c ds).map fun halves => (d :: halves.1, halves.2)

theorem splitFirst_eq_some {c : Char} {cs before after : List Char}
    (hsplit : splitFirst c cs = some (before, after)) : cs = before ++ c :: after ∧ c ∉ before := by
  induction cs generalizing before with
  | nil => simp [splitFirst] at hsplit
  | cons d ds ih =>
    by_cases hd : d = c
    · simp only [splitFirst, hd, if_true, Option.some.injEq, Prod.mk.injEq] at hsplit
      simp [← hsplit.1, ← hsplit.2, hd]
    · simp only [splitFirst, hd, if_false, Option.map_eq_some_iff, Prod.mk.injEq,
        Prod.exists] at hsplit
      obtain ⟨b, a, hrest, rfl, rfl⟩ := hsplit
      obtain ⟨hds, hnot⟩ := ih hrest
      exact ⟨by simp [hds], by simp [hnot, Ne.symm hd]⟩

end ElementQuery.Text
