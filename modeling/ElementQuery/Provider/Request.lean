import ElementQuery.Binary64
import ElementQuery.Condition
import ElementQuery.Element

/-!
# Requests and providers

An automation tree is known by its answers: a provider is asked to find an element, to look at it, to
read and write through its patterns, and to type into it.
-/

namespace ElementQuery

/-! ## Requests

Everything that can be asked of an automation tree, as data. Each request has its own type of answer.
Rows and columns of a grid are counted from zero here.
-/

inductive Request where
  | findFirst (parent : Handle) (scope : Scope) (condition : Condition)
  | property (element : Handle) (property : Property)
  | parent (element : Handle)
  | supports (element : Handle) (pattern : Pattern)
  | value (element : Handle)
  | setValue (element : Handle) (value : String)
  | isValueReadOnly (element : Handle)
  | rangeValue (element : Handle)
  | setRangeValue (element : Handle) (value : Binary64)
  | rangeBounds (element : Handle)
  | isRangeReadOnly (element : Handle)
  | text (element : Handle)
  | toggleState (element : Handle)
  | toggle (element : Handle)
  | selectedItems (element : Handle)
  | canSelectMultiple (element : Handle)
  | isSelected (element : Handle)
  | select (element : Handle)
  | addToSelection (element : Handle)
  | removeFromSelection (element : Handle)
  | legacyValue (element : Handle)
  | setLegacyValue (element : Handle) (value : String)
  | rowCount (element : Handle)
  | columnCount (element : Handle)
  | gridItem (element : Handle) (row column : Nat)
  | rowHeaders (element : Handle)
  | columnHeaders (element : Handle)
  | setFocus (element : Handle)
  | sendKeys (element : Handle) (text : String)

namespace Request

/-- What a request is answered with. -/
@[reducible] def Answer : Request → Type
  | .findFirst _ _ _ => Option Handle
  | .property _ _ => Option PropertyValue
  | .parent _ => Option Handle
  | .supports _ _ => Bool
  | .value _ => String
  | .setValue _ _ => Unit
  | .isValueReadOnly _ => Bool
  | .rangeValue _ => Binary64
  | .setRangeValue _ _ => Unit
  | .rangeBounds _ => Binary64 × Binary64
  | .isRangeReadOnly _ => Bool
  | .text _ => String
  | .toggleState _ => ToggleState
  | .toggle _ => Unit
  | .selectedItems _ => List Handle
  | .canSelectMultiple _ => Bool
  | .isSelected _ => Bool
  | .select _ => Unit
  | .addToSelection _ => Unit
  | .removeFromSelection _ => Unit
  | .legacyValue _ => String
  | .setLegacyValue _ _ => Unit
  | .rowCount _ => Nat
  | .columnCount _ => Nat
  | .gridItem _ _ _ => Option Handle
  | .rowHeaders _ => List Handle
  | .columnHeaders _ => List Handle
  | .setFocus _ => Unit
  | .sendKeys _ _ => Unit

def name : Request → String
  | .findFirst _ _ _ => "find_first"
  | .property _ _ => "get_property"
  | .parent _ => "parent"
  | .supports _ _ => "supports"
  | .value _ => "get_value"
  | .setValue _ _ => "set_value"
  | .isValueReadOnly _ => "is_value_read_only"
  | .rangeValue _ => "get_range_value"
  | .setRangeValue _ _ => "set_range_value"
  | .rangeBounds _ => "range_bounds"
  | .isRangeReadOnly _ => "is_range_read_only"
  | .text _ => "get_text"
  | .toggleState _ => "toggle_state"
  | .toggle _ => "toggle"
  | .selectedItems _ => "selected_items"
  | .canSelectMultiple _ => "can_select_multiple"
  | .isSelected _ => "is_selected"
  | .select _ => "select"
  | .addToSelection _ => "add_to_selection"
  | .removeFromSelection _ => "remove_from_selection"
  | .legacyValue _ => "get_legacy_value"
  | .setLegacyValue _ _ => "set_legacy_value"
  | .rowCount _ => "row_count"
  | .columnCount _ => "column_count"
  | .gridItem _ _ _ => "grid_item"
  | .rowHeaders _ => "row_headers"
  | .columnHeaders _ => "column_headers"
  | .setFocus _ => "set_focus"
  | .sendKeys _ _ => "send_keys"

def element : Request → Handle
  | .findFirst e _ _ => e
  | .property e _ => e
  | .parent e => e
  | .supports e _ => e
  | .value e => e
  | .setValue e _ => e
  | .isValueReadOnly e => e
  | .rangeValue e => e
  | .setRangeValue e _ => e
  | .rangeBounds e => e
  | .isRangeReadOnly e => e
  | .text e => e
  | .toggleState e => e
  | .toggle e => e
  | .selectedItems e => e
  | .canSelectMultiple e => e
  | .isSelected e => e
  | .select e => e
  | .addToSelection e => e
  | .removeFromSelection e => e
  | .legacyValue e => e
  | .setLegacyValue e _ => e
  | .rowCount e => e
  | .columnCount e => e
  | .gridItem e _ _ => e
  | .rowHeaders e => e
  | .columnHeaders e => e
  | .setFocus e => e
  | .sendKeys e _ => e

end Request

/-! ## Providers

A provider is an automation tree seen from outside: it has a root, and it answers requests, each of
which may fail and may change its state. Nothing is assumed about the answers. A provider need not
support every request; the ones that it does not support are answered with an error of their own.
-/

/-- An automation tree with states in `σ`. -/
structure Provider (σ : Type) where
  root : Handle
  answer : (r : Request) → σ → Except Error r.Answer × σ

def Request.unsupported (r : Request) : Error :=
  .unsupported (r.name ++ " not implemented by this provider")

namespace Provider

/-- The provider seen in a larger world that it is a part of. -/
def within {σ τ : Type} (p : Provider σ) (get : τ → σ) (set : σ → τ → τ) : Provider τ :=
  { root := p.root
    answer := fun r w =>
      let (result, s) := p.answer r (get w)
      (result, set s w) }

/--
The smallest provider: an element without properties that is found under itself by the condition
without a demand, and that claims some patterns but supports none of their requests.
-/
def minimal (claims : List Pattern) : Provider Unit :=
  { root := 0
    answer := fun r s =>
      match r with
      | .findFirst parent _ condition =>
        (.ok (if condition.isAlways then some parent else none), s)
      | .property _ _ => (.ok none, s)
      | .supports _ pattern => (.ok (claims.contains pattern), s)
      | r => (.error r.unsupported, s) }

end Provider

end ElementQuery
