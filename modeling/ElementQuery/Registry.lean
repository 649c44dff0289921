import ElementQuery.Text

/-!
# Errors and name tables

What can go wrong, and the tables in which the names of properties and of kinds of control are looked
up.
-/

namespace ElementQuery

open Text

/-! ## Errors

Everything that can go wrong, by its cause. A search that finds nothing is not an error unless the
caller requires an element. The usage errors are mistakes in what the caller wrote, a query, a name
or a value, and no amount of waiting can mend them; the others come from the automation tree, from a
wait that has run out, or from settings that cannot be read.
-/

/-- The causes of failure, each with what its message reports. -/
inductive Error where
  | invalidArgument (detail : String)
  | invalidGridAddress (input : String)
  | unrecognized (kind name : String)
  | invalidValue (method value expected : String)
  | elementNotFound (detail : String)
  | timeout (detail : String)
  | platform (detail : String)
  | unsupported (detail : String)
  | settings (detail : String)
  deriving DecidableEq, Inhabited

namespace Error

def message : Error → String
  | .invalidArgument detail => "Invalid argument: " ++ detail
  | .invalidGridAddress input =>
    "Invalid grid address '" ++ input ++
      "'. Expected '<row>,<column>', 'row <r>', 'column <c>' or 'row <r>, column <c>'"
  | .unrecognized kind name => "Unrecognized " ++ kind ++ " '" ++ name ++ "'"
  | .invalidValue method value expected =>
    "Invalid value '" ++ value ++ "' for " ++ method ++ ": expected " ++ expected
  | .elementNotFound detail => "Element not found: " ++ detail
  | .timeout detail => "Timeout: " ++ detail
  | .platform detail => "Platform error: " ++ detail
  | .unsupported detail => "Unsupported operation: " ++ detail
  | .settings detail => "Configuration error: " ++ detail

/-- Holds of the mistakes in what the caller wrote. -/
def isUsage : Error → Bool
  | .invalidArgument _ => true
  | .invalidGridAddress _ => true
  | .unrecognized _ _ => true
  | .invalidValue _ _ _ => true
  | _ => false

end Error

instance {α : Type} [DecidableEq α] : DecidableEq (Except Error α)
  | .ok a, .ok b => if h : a = b then isTrue (by rw [h]) else isFalse (by simp [h])
  | .error d, .error e => if h : d = e then isTrue (by rw [h]) else isFalse (by simp [h])
  | .ok _, .error _ => isFalse (by simp)
  | .error _, .ok _ => isFalse (by simp)

/-! ## Name tables

A name table gives the things of one kind their names. A name may be written in any case and with
white space anywhere in it, so two spellings are the same name when they agree after white space is
dropped and letters are lowered. An unknown name is reported as it was written, without the white
space at its ends, together with the kind of thing that was looked for.
-/

/-- A table of names for things of one kind, in the order in which they are listed. -/
structure Registry (α : Type) where
  kind : String
  entries : List (String × α)

namespace Registry

variable {α : Type}

/-- The form in which spellings of a name are compared. -/
def normalize (name : List Char) : List Char :=
  (name.filter fun c => !isBlank c).map lower

/-- Holds when two texts spell the same name. -/
def sameName (s t : String) : Bool :=
  normalize s.toList == normalize t.toList

def get? (r : Registry α) (name : String) : Option α :=
  (r.entries.find? fun entry => sameName entry.1 name).map Prod.snd

def contains (r : Registry α) (name : String) : Bool :=
  r.entries.any fun entry => sameName entry.1 name

/-- The thing that a name stands for, or an error that reports the name. -/
def lookup (r : Registry α) (name : String) : Except Error α :=
  match r.get? name with
  | some a => .ok a
  | none => .error (.unrecognized r.kind (trimmed name))

def names (r : Registry α) : List String :=
  r.entries.map Prod.fst

end Registry

end ElementQuery
