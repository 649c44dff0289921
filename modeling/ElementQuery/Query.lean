import ElementQuery.GridAddress
import ElementQuery.Property
import ElementQuery.Text

/-!
# Locators and queries

A query is a list of locators that one element has to satisfy together. Every text is a query: what it
asks for may turn out to be a mistake, but only when it is asked for.
-/

namespace ElementQuery

open Text

/-! ## Locators

A locator is one term of a query, `method:criterion[grid address]`. The method names a property, the
criterion is the value to look for, and the grid address is an optional suffix in brackets. A term
without a colon takes a default method. Every text is a locator: a method that names nothing is
reported only when the property is asked for.

The suffix is the last bracket group of the term. It has to end the term, and the text before it has
to be anchored: after at most one white space character it must end with a character that is neither
white space nor a backslash. So `[1,2]` alone is a criterion, and `\[` protects a bracket.
-/

/-- One term of a query; the criterion is kept as it was written, with its escapes. -/
structure Locator where
  method : String
  criterion : String
  grid : String
  deriving DecidableEq, Inhabited

namespace Locator

/--
Given the text before a bracket in reverse, the same without the one white space character that may
end it, provided that it is then anchored.
-/
def anchor? (before : List Char) : Option (List Char) :=
  let text := match before with
    | [] => []
    | c :: cs => if isBlank c then cs else c :: cs
  match text with
  | [] => none
  | c :: cs => if isBlank c || c = '\\' then none else some (c :: cs)

/--
Looks leftwards for the bracket that opens the suffix: `before` is the text still to be searched, in
reverse, and `inside` the text passed over.
-/
def openBracket? : (before inside : List Char) → Option (List Char × List Char)
  | [], _ => none
  | c :: before, inside =>
    if c = ']' then none
    else if c = '[' then
      match anchor? before with
      | some text => some (text.reverse, inside)
      | none => openBracket? before (c :: inside)
    else openBracket? before (c :: inside)

/-- The text before the grid suffix and the text inside its brackets, if there is a suffix. -/
def gridSuffix? (cs : List Char) : Option (List Char × List Char) :=
  match cs.reverse with
  | [] => none
  | c :: before => if c = ']' then openBracket? before [] else none

/-- The criterion and the grid address of a term without its method. -/
def splitGrid (cs : List Char) : List Char × List Char :=
  match gridSuffix? cs with
  | some (criterion, grid) => (criterion, trim grid)
  | none => (cs, [])

def ofChars (cs defaultMethod : List Char) : Locator :=
  let (method, rest) := match splitFirst ':' cs with
    | some (before, after) => (trim before, trim after)
    | none => (defaultMethod, trim cs)
  let (criterion, grid) := splitGrid rest
  { method := String.ofList method
    criterion := String.ofList criterion
    grid := String.ofList grid }

def parse (input defaultMethod : String) : Locator :=
  ofChars input.toList defaultMethod.toList

def hasGrid (l : Locator) : Bool :=
  !l.grid.toList.isEmpty

def chars (l : Locator) : List Char :=
  l.method.toList ++ ':' :: l.criterion.toList ++
    if l.hasGrid then '[' :: l.grid.toList ++ [']'] else []

def text (l : Locator) : String :=
  String.ofList l.chars

/-- The criterion with its escapes resolved. -/
def value (l : Locator) : String :=
  String.ofList (unescape l.criterion.toList)

def gridAddress (l : Locator) : Except Error (Option GridAddress) :=
  if l.hasGrid then (GridAddress.parse l.grid).map some else .ok none

def property (l : Locator) : Except Error Property :=
  Property.registry.lookup l.method

/-- Holds of the locator that is satisfied by every element. -/
def isEmpty (l : Locator) : Bool :=
  l.method.toList.isEmpty && l.criterion.toList.isEmpty

end Locator

/-! ## Queries

A query is a list of locators that one element has to satisfy together, written with `&&` between
blanks from one to the next. Reading never fails, and an empty text is one locator with an empty
criterion. What a query is asked for beyond its locators is settled here: whether it is satisfied by
every element, whether it addresses a process, a window or the main window, and which grid address
it carries.
-/

/-- A list of locators that are to be satisfied together. -/
structure Query where
  locators : List Locator
  deriving DecidableEq, Inhabited

namespace Query

/-- What stands between two locators; a single `&` belongs to a criterion. -/
def delimiter : List Char := [' ', '&', '&', ' ']

def ofChars (cs defaultMethod : List Char) : Query :=
  ⟨(splitAt delimiter cs).map fun term => Locator.ofChars term defaultMethod⟩

/-- Reads a query; a term without a method takes the default method. -/
def parse (input defaultMethod : String) : Query :=
  ofChars input.toList defaultMethod.toList

/-- Reads a query that may be missing; a missing one is a usage error. -/
def parseOptional (input : Option String) (defaultMethod : String) : Except Error Query :=
  match input with
  | some text => .ok (parse text defaultMethod)
  | none => .error (.invalidArgument "search query must not be null")

def text (q : Query) : String :=
  String.ofList (joinWith delimiter (q.locators.map Locator.chars))

/-- Holds of a single locator for the process identifier or the name; it can address a process. -/
def isProcess (q : Query) : Bool :=
  match q.locators with
  | [only] =>
    match only.property with
    | .ok .processId => true
    | .ok .name => true
    | _ => false
  | _ => false

/-- Holds of a locator for the control type with a criterion that passes the test. -/
def namesControl (test : String → Bool) (l : Locator) : Bool :=
  match l.property with
  | .ok .controlType => test l.value
  | _ => false

/-- Holds when some locator asks for a window by its control type. -/
def isWindow (q : Query) : Bool :=
  q.locators.any (namesControl fun value => equalsIgnoringAsciiCase value "Window")

/-- Holds of a single locator for the main window, the element that the search starts from. -/
def isMainWindow (q : Query) : Bool :=
  match q.locators with
  | [only] => namesControl ControlType.isMainWindow only
  | _ => false

/-- Holds of a query without locators and of a single empty one; every element satisfies it. -/
def isAnything (q : Query) : Bool :=
  match q.locators with
  | [] => true
  | [only] => only.isEmpty
  | _ => false

/-- The grid address of the first locator that has one. -/
def gridAddress (q : Query) : Except Error (Option GridAddress) :=
  match q.locators.find? Locator.hasGrid with
  | some l => l.gridAddress
  | none => .ok none

end Query

end ElementQuery
