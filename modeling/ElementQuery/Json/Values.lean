import ElementQuery.Condition
import ElementQuery.Element
import ElementQuery.Json.Decoder
import ElementQuery.Settings.Stored

/-!
# Values of the domain in JSON

How stored queries, conditions and settings are read from JSON. Names of properties, kinds of
control, scopes, patterns and toggle states are spelled exactly. Nothing is checked beyond the
layout: a stored grid address may be zero, and stored settings may be out of bounds.
-/

namespace ElementQuery.Json

def property? : Nat → Json → Option Property :=
  oneOf? Property.all Property.label

def controlType? : Nat → Json → Option ControlType :=
  oneOf? ControlType.all ControlType.name

def scope? : Nat → Json → Option Scope :=
  oneOf? Scope.all Scope.name

def pattern? : Nat → Json → Option Pattern :=
  oneOf? Pattern.all Pattern.name

def toggleState? : Nat → Json → Option ToggleState :=
  oneOf? ToggleState.all ToggleState.name

def handle? : Json → Option Handle :=
  unsigned?

def propertyValue? (depth : Nat) (value : Json) : Option PropertyValue := do
  match ← choice? depth value with
  | ("Text", some (_, v)) => return .text (← string? v)
  | ("Integer", some (_, v)) => return .integer (← signed? v)
  | ("Boolean", some (_, v)) => return .boolean (← boolean? v)
  | ("ControlType", some (inner, v)) => return .controlType (← controlType? inner v)
  | _ => none

def gridAddress? (depth : Nat) (value : Json) : Option GridAddress := do
  match ← choice? depth value with
  | ("Row", some (_, v)) => return .row (← unsigned? v)
  | ("Column", some (_, v)) => return .column (← unsigned? v)
  | ("Cell", some (inner, v)) =>
    match ← record? true ["row", "column"] inner v with
    | (_, [some r, some c]) => return .cell (← unsigned? r) (← unsigned? c)
    | _ => none
  | _ => none

def locator? (depth : Nat) (value : Json) : Option Locator := do
  match ← record? true ["method", "criterion", "grid_address"] depth value with
  | (_, [some method, some criterion, some grid]) =>
    return ⟨← string? method, ← string? criterion, ← string? grid⟩
  | _ => none

def propertyCondition? (depth : Nat) (value : Json) : Option Condition := do
  match ← record? true ["property", "value"] depth value with
  | (inner, [some p, some v]) => return .property (← property? inner p) (← propertyValue? inner v)
  | _ => none

def simpleCondition? (depth : Nat) (value : Json) : Option Condition := do
  match ← choice? depth value with
  | ("True", none) => return .always
  | ("True", some (_, .null)) => return .always
  | ("Property", some (inner, v)) => propertyCondition? inner v
  | _ => none

/-- Reads a condition; a conjunction takes two levels of depth, its object and its array. -/
def condition? : Nat → Json → Option Condition
  | 0, value => simpleCondition? 0 value
  | 1, value => simpleCondition? 1 value
  | depth + 2, value =>
    match choice? (depth + 2) value with
    | some ("And", some (inner, .array items)) =>
      match descend? inner with
      | some _ => (items.mapM fun item => condition? depth item).map .all
      | none => none
    | _ => simpleCondition? (depth + 2) value

/-- Reads a length of time in seconds and nanoseconds; its whole seconds fit sixty-four bits. -/
def duration? (depth : Nat) (value : Json) : Option Duration := do
  match ← record? false ["secs", "nanos"] depth value with
  | (_, [some seconds, some nanoseconds]) =>
    let seconds ← unsigned? seconds
    let nanoseconds ← (unsigned? nanoseconds).filter fun n => decide (n < Nat.pow 2 32)
    let total := Duration.ofSeconds seconds + nanoseconds
    if Duration.seconds total < Text.unsignedBound then return total else none
  | _ => none

def settings? (depth : Nat) (value : Json) : Option Settings := do
  match ← record? true ["default_condition_type", "timeout", "poll_interval"] depth value with
  | (inner, [some method, some timeout, some poll]) =>
    return ⟨← string? method, ← duration? inner timeout, ← duration? inner poll⟩
  | _ => none

end ElementQuery.Json
