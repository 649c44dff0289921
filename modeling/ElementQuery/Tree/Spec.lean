import ElementQuery.Binary64
import ElementQuery.Condition
import ElementQuery.Element

/-!
# Descriptions of elements

An element of a tree in memory is described by its properties, the patterns it supports and what
each pattern gives access to. A description starts without properties and patterns, or as an enabled
control of some kind, and is completed step by step: giving a value, a range and so on also makes
the element support the pattern for it. What a pattern gives access to has a value even in an
element that does not support the pattern.
-/

namespace ElementQuery

/-- The properties of an element, at most one value for each. -/
structure Properties where
  entries : List (Property × PropertyValue)
  deriving DecidableEq, Inhabited

namespace Properties

def empty : Properties := ⟨[]⟩

def get? (ps : Properties) (p : Property) : Option PropertyValue :=
  ps.entries.lookup p

def insert (ps : Properties) (p : Property) (v : PropertyValue) : Properties :=
  ⟨(p, v) :: ps.entries.filter fun entry => entry.1 != p⟩

private theorem lookup_filter_of_ne {p q : Property} (hne : q ≠ p)
    (entries : List (Property × PropertyValue)) :
    (entries.filter fun entry => entry.1 != p).lookup q = entries.lookup q := by
  induction entries with
  | nil => rfl
  | cons entry entries ih =>
    obtain ⟨r, v⟩ := entry
    by_cases hr : r = p
    · have hqr : (q == r) = false := by simp [hr, hne]
      have hdrop : (r != p) = false := by simp [hr]
      rw [List.filter_cons_of_neg (by simp [hdrop]), ih, List.lookup_cons, hqr]
    · rw [List.filter_cons_of_pos (by simp [hr]), List.lookup_cons, List.lookup_cons, ih]

theorem get?_insert (ps : Properties) (p q : Property) (v : PropertyValue) :
    (ps.insert p v).get? q = if q = p then some v else ps.get? q := by
  by_cases hq : q = p
  · simp [get?, insert, hq]
  · have hbeq : (q == p) = false := by simp [hq]
    simp [get?, insert, hq, List.lookup_cons, hbeq, lookup_filter_of_ne hq]

end Properties

structure ElementSpec where
  properties : Properties
  patterns : List Pattern
  value : String
  valueReadOnly : Bool
  range : Binary64
  rangeMin : Binary64
  rangeMax : Binary64
  rangeReadOnly : Bool
  text : String
  toggle : Option ToggleState
  threeState : Bool
  multipleSelection : Bool
  selected : Bool
  legacyValue : String
  deriving DecidableEq, Inhabited

namespace ElementSpec

def blank : ElementSpec :=
  { properties := .empty
    patterns := []
    value := ""
    valueReadOnly := false
    range := .zero
    rangeMin := .zero
    rangeMax := .zero
    rangeReadOnly := false
    text := ""
    toggle := none
    threeState := false
    multipleSelection := false
    selected := false
    legacyValue := "" }

def withProperty (s : ElementSpec) (p : Property) (v : PropertyValue) : ElementSpec :=
  { s with properties := s.properties.insert p v }

def ofControlType (c : ControlType) : ElementSpec :=
  ((blank.withProperty .controlType (.controlType c)).withProperty .isEnabled
    (.boolean true)).withProperty .isPassword (.boolean false)

def withPattern (s : ElementSpec) (p : Pattern) : ElementSpec :=
  if s.patterns.contains p then s else { s with patterns := s.patterns ++ [p] }

def withName (s : ElementSpec) (name : String) : ElementSpec :=
  s.withProperty .name (.text name)

def withAutomationId (s : ElementSpec) (id : String) : ElementSpec :=
  s.withProperty .automationId (.text id)

def withClassName (s : ElementSpec) (name : String) : ElementSpec :=
  s.withProperty .className (.text name)

def withProcessId (s : ElementSpec) (id : Int) : ElementSpec :=
  s.withProperty .processId (.integer id)

def withEnabled (s : ElementSpec) (enabled : Bool) : ElementSpec :=
  s.withProperty .isEnabled (.boolean enabled)

def withValue (s : ElementSpec) (value : String) : ElementSpec :=
  { s.withPattern .value with value }

/-- Makes the value and the range of the element read-only. -/
def asReadOnly (s : ElementSpec) : ElementSpec :=
  { s with valueReadOnly := true, rangeReadOnly := true }

def withRange (s : ElementSpec) (value min max : Binary64) : ElementSpec :=
  { s.withPattern .rangeValue with range := value, rangeMin := min, rangeMax := max }

def withText (s : ElementSpec) (text : String) : ElementSpec :=
  { s.withPattern .text with text }

def withToggle (s : ElementSpec) (state : ToggleState) : ElementSpec :=
  { s.withPattern .toggle with toggle := some state }

/-- Lets the toggle pass through the indeterminate state. -/
def asThreeState (s : ElementSpec) : ElementSpec :=
  { s with threeState := true }

/-- Makes the element a container of items of which one or several can be selected. -/
def withSelection (s : ElementSpec) (multiple : Bool) : ElementSpec :=
  { s.withPattern .selection with multipleSelection := multiple }

def withSelectionItem (s : ElementSpec) (selected : Bool) : ElementSpec :=
  { s.withPattern .selectionItem with selected }

def withLegacyValue (s : ElementSpec) (value : String) : ElementSpec :=
  { s.withPattern .legacyAccessible with legacyValue := value }

/-- The state of the toggle; an element without one is off. -/
def toggleState (s : ElementSpec) : ToggleState :=
  s.toggle.getD .off

/-- Moves the toggle one step on its way round. -/
def advanceToggle (s : ElementSpec) : ElementSpec :=
  let next : ToggleState := match s.toggleState with
    | .off => .on
    | .on => if s.threeState then .indeterminate else .off
    | .indeterminate => .off
  { s with toggle := some next }

end ElementSpec

end ElementQuery
