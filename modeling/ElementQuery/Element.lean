import ElementQuery.Text

/-!
# Elements of an automation tree

An element is known by its handle, a number that the tree gave it and that says nothing about it. A
search considers the element itself, its children or all its descendants. What an element can do
natively is a set of patterns, and the state of a toggle is one of three, each of which may be
written in several ways.
-/

namespace ElementQuery

open Text

/-- The number by which a tree knows an element. -/
abbrev Handle := Nat

def Handle.text (h : Handle) : String :=
  "#" ++ decimal h

/-- The elements that a search considers, as seen from the element that it starts from. -/
inductive Scope where
  | element
  | children
  | descendants
  deriving DecidableEq, Inhabited

namespace Scope

def all : List Scope := [.element, .children, .descendants]

def name : Scope → String
  | .element => "Element"
  | .children => "Children"
  | .descendants => "Descendants"

end Scope

inductive Pattern where
  | value
  | rangeValue
  | text
  | toggle
  | selection
  | selectionItem
  | legacyAccessible
  | grid
  | table
  deriving DecidableEq, Inhabited

namespace Pattern

def all : List Pattern :=
  [.value, .rangeValue, .text, .toggle, .selection, .selectionItem, .legacyAccessible, .grid,
   .table]

def name : Pattern → String
  | .value => "Value"
  | .rangeValue => "RangeValue"
  | .text => "Text"
  | .toggle => "Toggle"
  | .selection => "Selection"
  | .selectionItem => "SelectionItem"
  | .legacyAccessible => "LegacyAccessible"
  | .grid => "Grid"
  | .table => "Table"

end Pattern

inductive ToggleState where
  | off
  | on
  | indeterminate
  deriving DecidableEq, Inhabited

namespace ToggleState

def all : List ToggleState := [.off, .on, .indeterminate]

def name : ToggleState → String
  | .off => "Off"
  | .on => "On"
  | .indeterminate => "Indeterminate"

def spellings : ToggleState → List String
  | .on => ["on", "true", "checked", "1"]
  | .off => ["off", "false", "unchecked", "0"]
  | .indeterminate => ["indeterminate", "mixed"]

/-- Reads a state in any case and with white space around it. -/
def read? (s : String) : Option ToggleState :=
  all.find? fun state => state.spellings.contains (lowered (trim s.toList))

end ToggleState

end ElementQuery
