import ElementQuery.Property
import ElementQuery.Query

/-!
# Values and conditions

What a query asks for, once its criteria have been converted to values: a condition, which holds of an
element or does not, depending on the values of its properties.
-/

namespace ElementQuery

open Text

/-! ## Values of properties

A property has a text, a whole number, a truth value or a kind of control. The criterion of a
locator is converted to the kind of value that its property has before anything is compared: numbers
and truth values may have white space around them and truth values any case, kinds of control are
looked up in their table, and a text is taken as it is.
-/

inductive PropertyValue where
  | text (text : String)
  | integer (number : Int)
  | boolean (truth : Bool)
  | controlType (control : ControlType)
  deriving DecidableEq, Inhabited

namespace PropertyValue

def render : PropertyValue → String
  | .text s => s
  | .integer i => String.ofList (writeInt i)
  | .boolean true => "true"
  | .boolean false => "false"
  | .controlType c => c.name

def text? : PropertyValue → Option String
  | .text s => some s
  | _ => none

def boolean? : PropertyValue → Option Bool
  | .boolean b => some b
  | _ => none

def readBoolean? (s : String) : Option Bool :=
  if equalsIgnoringAsciiCase (trimmed s) "true" then some true
  else if equalsIgnoringAsciiCase (trimmed s) "false" then some false
  else none

end PropertyValue

/-- The value that a locator asks for. -/
def Locator.target (l : Locator) : Except Error PropertyValue := do
  let property ← l.property
  match property.valueKind with
  | .text => return .text l.value
  | .controlType =>
    let control ← ControlType.registry.lookup l.value
    return .controlType control
  | .integer =>
    match readSigned? (trim l.value.toList) with
    | some i => return .integer i
    | none => throw (.invalidValue l.method l.value "an integer")
  | .boolean =>
    match PropertyValue.readBoolean? l.value with
    | some b => return .boolean b
    | none => throw (.invalidValue l.method l.value "'true' or 'false'")

/-! ## Conditions

A condition is what an automation tree is asked to match: a property has a value, or all of several
conditions hold, or nothing is asked. A query becomes the conjunction of its locators' conditions; a
single locator stands alone, and a query that every element satisfies becomes the condition without
a demand. The first locator whose property or value cannot be made out decides the error.
-/

inductive Condition where
  | always
  | property (property : Property) (value : PropertyValue)
  | all (parts : List Condition)
  deriving Inhabited

namespace Condition

mutual

/-- Whether a condition holds of an element whose properties are looked up. -/
def holds (lookup : Property → Option PropertyValue) : Condition → Bool
  | .always => true
  | .property p v => lookup p == some v
  | .all parts => allHold lookup parts

def allHold (lookup : Property → Option PropertyValue) : List Condition → Bool
  | [] => true
  | c :: cs => holds lookup c && allHold lookup cs

end

theorem allHold_eq_all (lookup : Property → Option PropertyValue) (cs : List Condition) :
    allHold lookup cs = cs.all (holds lookup) := by
  induction cs with
  | nil => rfl
  | cons c cs ih => simp [allHold, ih]

def isAlways : Condition → Bool
  | .always => true
  | _ => false

end Condition

def Locator.condition (l : Locator) : Except Error Condition := do
  let property ← l.property
  let value ← l.target
  return .property property value

namespace Query

/-- The conditions of several locators, or the first error among them. -/
def conditions : List Locator → Except Error (List Condition)
  | [] => .ok []
  | l :: ls => do
    let c ← l.condition
    let cs ← conditions ls
    return c :: cs

def condition (q : Query) : Except Error Condition :=
  if q.isAnything then .ok .always
  else do
    match ← conditions q.locators with
    | [only] => return only
    | cs => return .all cs

end Query

end ElementQuery
