import ElementQuery.Registry
import ElementQuery.Text

/-!
# Grid addresses

A locator can point into a grid: `[2,3]`, `[row 2]`, `[C4R3]`. An address names a row, a column or
both, counted from one. It is written either as two numbers with a comma between them, or as a row
token and a column token in any order and with any text around them. A token is a keyword, an
optional `:` or `=`, and a number; white space may stand between its parts. The keyword may follow a
digit but not a letter, and of several tokens for one axis the leftmost counts.

Digits of every script belong to a token, but only a number in ASCII digits from one to the largest
unsigned number of sixty-four bits has a value; any other makes the address invalid.
-/

namespace ElementQuery

open Text

/-- A row, a column or a cell, counted from one. -/
inductive GridAddress where
  | cell (row column : Nat)
  | row (row : Nat)
  | column (column : Nat)
  deriving DecidableEq, Inhabited

namespace GridAddress

inductive Axis where
  | row
  | column
  deriving DecidableEq, Inhabited

/-- The keywords of an axis, a longer one before the keywords that it begins with. -/
def Axis.keywords : Axis → List (List Char)
  | .row => [['r', 'o', 'w', 's'], ['r', 'o', 'w'], ['r']]
  | .column =>
    [['c', 'o', 'l', 'u', 'm', 'n', 's'], ['c', 'o', 'l', 'u', 'm', 'n'], ['c', 'o', 'l', 's'],
     ['c', 'o', 'l'], ['c']]

/-- The text after a keyword, which is matched without regard to case. -/
def dropKeyword? : List Char → List Char → Option (List Char)
  | [], cs => some cs
  | _ :: _, [] => none
  | k :: ks, c :: cs => if fold c = k then dropKeyword? ks cs else none

/-- The text after an optional `:` or `=`. -/
def dropSign : List Char → List Char
  | [] => []
  | c :: cs => if c = ':' || c = '=' then cs else c :: cs

/-- The digits at the front of a text, if there are any. -/
def digits? (cs : List Char) : Option (List Char) :=
  match cs.takeWhile isDigit with
  | [] => none
  | d :: ds => some (d :: ds)

/-- The digits of the token that begins a text, if one does. -/
def tokenAt? (axis : Axis) (cs : List Char) : Option (List Char) :=
  axis.keywords.findSome? fun keyword =>
    (dropKeyword? keyword cs).bind fun rest => digits? (trimStart (dropSign (trimStart rest)))

/-- The digits of the leftmost token for an axis; `afterLetter` tells what comes before the text. -/
def findToken? (axis : Axis) : (afterLetter : Bool) → List Char → Option (List Char)
  | _, [] => none
  | afterLetter, c :: cs =>
    match (if afterLetter then none else tokenAt? axis (c :: cs)) with
    | some digits => some digits
    | none => findToken? axis (isLetter c) cs

/-- The digits of two numbers with a comma between them and nothing else but white space. -/
def barePair? (cs : List Char) : Option (List Char × List Char) :=
  let first := trimStart cs
  match trimStart (first.dropWhile isDigit) with
  | ',' :: afterComma =>
    let second := trimStart afterComma
    match digits? first, digits? second with
    | some rowDigits, some columnDigits =>
      if (second.dropWhile isDigit).all isBlank then some (rowDigits, columnDigits) else none
    | _, _ => none
  | _ => none

/-- The number of a row or a column, which is at least one. -/
def readOrdinal? (digits : List Char) : Option Nat :=
  (readUnsigned? digits).filter fun n => decide (0 < n)

/-- The number that the token of an axis gives, if there is a token; its number may be invalid. -/
def readToken (invalid : Error) (digits : Option (List Char)) : Except Error (Option Nat) :=
  match digits with
  | none => .ok none
  | some ds =>
    match readOrdinal? ds with
    | some n => .ok (some n)
    | none => .error invalid

def parse (input : String) : Except Error GridAddress :=
  let invalid := Error.invalidGridAddress input
  match barePair? input.toList with
  | some (rowDigits, columnDigits) =>
    match readOrdinal? rowDigits, readOrdinal? columnDigits with
    | some r, some c => .ok (.cell r c)
    | _, _ => .error invalid
  | none => do
    let r ← readToken invalid (findToken? .row false input.toList)
    let c ← readToken invalid (findToken? .column false input.toList)
    match r, c with
    | some r, some c => return .cell r c
    | some r, none => return .row r
    | none, some c => return .column c
    | none, none => throw invalid

def row? : GridAddress → Option Nat
  | .cell r _ => some r
  | .row r => some r
  | .column _ => none

def column? : GridAddress → Option Nat
  | .cell _ c => some c
  | .row _ => none
  | .column c => some c

def text : GridAddress → String
  | .cell r c => "row " ++ decimal r ++ ", column " ++ decimal c
  | .row r => "row " ++ decimal r
  | .column c => "column " ++ decimal c

end GridAddress

end ElementQuery
