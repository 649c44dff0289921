import ElementQuery.Binary64
import ElementQuery.Provider.Dialogue
import ElementQuery.Settings.Stored
import ElementQuery.Wait

/-!
# Reading and writing the text of an element

The text of an element is read and written through the capabilities that the element has, each of
which stands on a pattern of the provider.
-/

namespace ElementQuery

open Text
open Dialogue (request)

/-! ## Capabilities

The ways in which the text of an element can be read and written. Each but one stands on a pattern
that the element has to support; the structural capability applies to every element, reads the name
of the first text below it or its own, and writes by typing.

Writing through a capability succeeds, or fails because the capability rejects the value, or does
not apply because the element lacks the pattern or the capability cannot write at all. A provider is
asked about a pattern before it is asked for anything that belongs to it.
-/

/-- The ways to read and write the text of an element. -/
inductive Capability where
  | value
  | rangeValue
  | text
  | toggle
  | selection
  | selectionItem
  | legacyAccessible
  | structural
  deriving DecidableEq, Inhabited

/-- What came of writing through a capability. -/
inductive WriteOutcome where
  | notApplicable
  | success
  | failure
  deriving DecidableEq, Inhabited

namespace Capability

def all : List Capability :=
  [.value, .rangeValue, .text, .toggle, .selection, .selectionItem, .legacyAccessible, .structural]

def name : Capability → String
  | .value => "Value"
  | .rangeValue => "RangeValue"
  | .text => "Text"
  | .toggle => "Toggle"
  | .selection => "Selection"
  | .selectionItem => "SelectionItem"
  | .legacyAccessible => "LegacyIAccessible"
  | .structural => "Structural"

def pattern? : Capability → Option Pattern
  | .value => some .value
  | .rangeValue => some .rangeValue
  | .text => some .text
  | .toggle => some .toggle
  | .selection => some .selection
  | .selectionItem => some .selectionItem
  | .legacyAccessible => some .legacyAccessible
  | .structural => none

def applies (c : Capability) (h : Handle) : Dialogue Bool :=
  match c.pattern? with
  | some p => request (.supports h p)
  | none => return true

/-! ### Reading -/

/-- The name of an element, if it is a text. -/
def elementName (h : Handle) : Dialogue (Option String) := do
  return (← request (.property h .name)).bind PropertyValue.text?

/-- What separates the names of selected items. -/
def separator : Char := ';'

/-- The names of the elements that have one. -/
def namesOf : List Handle → Dialogue (List String)
  | [] => return []
  | h :: hs => do
    let name ← elementName h
    let names ← namesOf hs
    return match name with
      | some name => name :: names
      | none => names

/-- The names of the selected items of a container, with a semicolon and a blank between them. -/
def selectedNames (container : Handle) : Dialogue String := do
  let items ← request (.selectedItems container)
  let names ← namesOf items
  return (String.ofList [separator, ' ']).intercalate names

/-- The name of the first text below an element, or else its own name. -/
def structuralText (h : Handle) : Dialogue (Option String) := do
  let isText : Condition := .property .controlType (.controlType .text)
  match ← request (.findFirst h .descendants isText) with
  | some child =>
    match ← elementName child with
    | some name => return some name
    | none => elementName h
  | none => elementName h

def read (c : Capability) (h : Handle) : Dialogue (Option String) :=
  match c with
  | .value => return some (← request (.value h))
  | .rangeValue => return some (← request (.rangeValue h)).text
  | .text => return some (← request (.text h))
  | .toggle => return some (← request (.toggleState h)).name
  | .selection => return some (← selectedNames h)
  | .selectionItem => return some (if ← request (.isSelected h) then "Selected" else "")
  | .legacyAccessible => return some (← request (.legacyValue h))
  | .structural => structuralText h

/-! ### Writing -/

def writeValue (h : Handle) (v : String) : Dialogue WriteOutcome := do
  if ← request (.isValueReadOnly h) then return .failure
  request (.setValue h v)
  return .success

/-- Writes a finite number that lies within bounds to a range that is not read-only. -/
def writeRange (h : Handle) (v : String) : Dialogue WriteOutcome :=
  match (Binary64.read? (trim v.toList)).filter Binary64.isFinite with
  | none => return .failure
  | some number => do
    if ← request (.isRangeReadOnly h) then return .failure
    let (min, max) ← request (.rangeBounds h)
    if number.less min || max.less number then return .failure
    request (.setRangeValue h number)
    return .success

/-- Advances a toggle until it is in a state, but no more than so many times. -/
def advanceTo (h : Handle) (target : ToggleState) : (steps : Nat) → Dialogue WriteOutcome
  | 0 => do
    let state ← request (.toggleState h)
    return if state = target then .success else .failure
  | steps + 1 => do
    let state ← request (.toggleState h)
    if state = target then return .success
    request (.toggle h)
    advanceTo h target steps

/-- Brings a toggle into the state that a text names; a toggle has at most three states. -/
def writeToggle (h : Handle) (v : String) : Dialogue WriteOutcome :=
  match ToggleState.read? v with
  | none => return .failure
  | some target => advanceTo h target 3

/-- The names of the items that a text asks a container to select. -/
def itemNames (multiple : Bool) (v : String) : List String :=
  if multiple then
    (((splitAt [separator] v.toList).map trim).filter fun cs => !cs.isEmpty).map String.ofList
  else [trimmed v]

/--
The selection items that names stand for, each being the first element of its name below a
container; there is no result unless every name stands for an item.
-/
def itemsNamed (container : Handle) : List String → Dialogue (Option (List Handle))
  | [] => return some []
  | name :: names => do
    match ← request (.findFirst container .descendants (.property .name (.text name))) with
    | none => return none
    | some item =>
      if ← request (.supports item .selectionItem) then
        return (← itemsNamed container names).map (item :: ·)
      else return none

def addAll : List Handle → Dialogue Unit
  | [] => return ()
  | item :: items => do
    request (.addToSelection item)
    addAll items

/-- Selects the items below a container that a text names. -/
def writeSelection (container : Handle) (v : String) : Dialogue WriteOutcome := do
  let multiple ← request (.canSelectMultiple container)
  match ← itemsNamed container (itemNames multiple v) with
  | some (first :: others) =>
    request (.select first)
    addAll others
    return .success
  | _ => return .failure

/-- Whether a text asks for an item to be selected or not. -/
def readSelected? (v : String) : Option Bool :=
  let word := lowered (trim v.toList)
  if ["selected", "true", "on", "yes"].contains word then some true
  else if ["", "unselected", "false", "off", "no"].contains word then some false
  else none

/-- Selects or deselects an item as a text asks, if it is not so already. -/
def writeSelected (h : Handle) (v : String) : Dialogue WriteOutcome :=
  match readSelected? v with
  | none => return .failure
  | some wanted => do
    let selected ← request (.isSelected h)
    if selected != wanted then
      if wanted then request (.select h) else request (.removeFromSelection h)
    return .success

/-- Types a text into an element that is not disabled. -/
def typeText (h : Handle) (v : String) : Dialogue WriteOutcome := do
  if (← request (.property h .isEnabled)) == some (.boolean false) then return .failure
  request (.setFocus h)
  request (.sendKeys h v)
  return .success

def writeApplied (c : Capability) (h : Handle) (v : String) : Dialogue WriteOutcome :=
  match c with
  | .value => writeValue h v
  | .rangeValue => writeRange h v
  | .text => return .notApplicable
  | .toggle => writeToggle h v
  | .selection => writeSelection h v
  | .selectionItem => writeSelected h v
  | .legacyAccessible => do
    request (.setLegacyValue h v)
    return .success
  | .structural => typeText h v

def write (c : Capability) (h : Handle) (v : String) : Dialogue WriteOutcome := do
  if ← c.applies h then c.writeApplied h v else return .notApplicable

end Capability

/-! ## Reading and writing the text of an element

An element often has several capabilities, and the order in which they are tried decides what its
text is. Reading takes the first that applies, even when it reads an empty text, and else the
structural capability. Writing tries them in another order and stops at the first that is
applicable, whether it accepts the text or rejects it.
-/

namespace ValueAccess

/-- The capabilities that are tried for reading, before the structural one. -/
def readOrder : List Capability :=
  [.value, .rangeValue, .text, .toggle, .selection, .selectionItem]

/-- The capabilities that are tried for writing. -/
def writeOrder : List Capability :=
  [.selection, .rangeValue, .value, .selectionItem, .legacyAccessible, .structural]

/-- Reads through the first of several capabilities that applies, or else structurally. -/
def readThrough (h : Handle) : List Capability → Dialogue (Option String)
  | [] => Capability.structural.read h
  | c :: cs => do
    if ← c.applies h then c.read h else readThrough h cs

def read (h : Handle) : Dialogue (Option String) :=
  readThrough h readOrder

/-- Writes through the first of several capabilities that is applicable. -/
def writeThrough (h : Handle) (v : String) : List Capability → Dialogue WriteOutcome
  | [] => return .notApplicable
  | c :: cs => do
    match ← c.write h v with
    | .notApplicable => writeThrough h v cs
    | outcome => return outcome

def write (h : Handle) (v : String) : Dialogue WriteOutcome :=
  writeThrough h v writeOrder

/-- Those of several capabilities that an element has. -/
def among (h : Handle) : List Capability → Dialogue (List Capability)
  | [] => return []
  | c :: cs => do
    let has ← c.applies h
    let rest ← among h cs
    return if has then c :: rest else rest

/-- The capabilities of an element in the order of reading, the legacy one last. -/
def capabilities (h : Handle) : Dialogue (List Capability) :=
  among h (readOrder ++ [.legacyAccessible])

def reads (h : Handle) (expected : String) : Dialogue Bool := do
  return (← read h) == some expected

/-- The run of a wait for the text of an element, if it ends within so many attempts. -/
def waitForValue {σ : Type} (p : Provider σ) (clock : Clock σ) (s : Settings) (h : Handle)
    (expected : String) (limit : Nat) (w : σ) : Option (WaitRun σ Error Unit) :=
  tryWaitUntil clock (fun w => (reads h expected).run p w) s.timeout s.pollInterval limit w

end ValueAccess

end ElementQuery
