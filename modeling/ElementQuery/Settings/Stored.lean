import ElementQuery.Binary64
import ElementQuery.Json.Decoder
import ElementQuery.Json.Reader
import ElementQuery.Property
import ElementQuery.Wait

/-!
# Settings

What a search takes for granted: the method of a term that names none, how long a wait may last and
how long it pauses between attempts. Changes go through the functions of this module, which keep the
settings within bounds: a method has to be a name of the property table, a timeout lies between a
tenth of a second and twenty-four days, and a pause is at least a millisecond. Settings that come from
the environment or from a store go through them too.
-/

namespace ElementQuery

open Text

/-- The method of terms without one and the timing of waits. -/
structure Settings where
  defaultMethod : String
  timeout : Duration
  pollInterval : Duration
  deriving DecidableEq

namespace Settings

def initial : Settings :=
  { defaultMethod := "Name"
    timeout := Duration.ofSeconds 3
    pollInterval := Duration.ofMilliseconds 50 }

instance : Inhabited Settings := ⟨initial⟩

def minTimeout : Duration := Duration.ofMilliseconds 100

/-- The longest timeout, twenty-four days. -/
def maxTimeout : Duration := Duration.ofSeconds (24 * 24 * 3600)

def minPollInterval : Duration := Duration.ofMilliseconds 1

/-- Holds of the names that can be the default method. -/
def acceptsMethod (name : String) : Bool :=
  Property.registry.contains name

/-- Changes the default method; a name that cannot be one changes nothing. -/
def withDefaultMethod (s : Settings) (name : String) : Settings :=
  if acceptsMethod name then { s with defaultMethod := trimmed name } else s

/-- The timeout for a number of seconds, brought within the bounds. -/
def clampTimeout (seconds : Binary64) : Duration :=
  match seconds with
  | .nan => minTimeout
  | .infinity negative => if negative then minTimeout else maxTimeout
  | .finite negative units =>
    let given := Binary64.finite negative units
    if given.atMost (.ofRatio false 1 10) then minTimeout
    else if (Binary64.ofNat (24 * 24 * 3600)).atMost given then maxTimeout
    else Duration.ofUnits units

def withTimeout (s : Settings) (seconds : Binary64) : Settings :=
  { s with timeout := clampTimeout seconds }

def withPollInterval (s : Settings) (interval : Duration) : Settings :=
  { s with pollInterval := max interval minPollInterval }

/--
The initial settings, changed where the environment has a value; a value that cannot be read is
passed over.
-/
def ofEnvironment (method timeout : Option String) : Settings :=
  let s := match method with
    | some name => initial.withDefaultMethod name
    | none => initial
  match timeout.bind fun text => Binary64.read? (trim text.toList) with
  | some seconds => s.withTimeout seconds
  | none => s

/-! ## Stored settings

Settings are stored in JSON as a record with a method, a timeout in seconds and a pause in
milliseconds. Every field may be missing or null and then leaves the initial value. A text that is not
such a record, and a file that cannot be read as text, is an error.
-/

def storedFields : List String :=
  ["defaultConditionType", "timeoutSeconds", "pollIntervalMs"]

def ofJson? (value : Json) : Option Settings := do
  match ← Json.record? true storedFields Json.depthLimit value with
  | (_, [method, seconds, milliseconds]) =>
    let method ← Json.optional? Json.string? method
    let seconds ← Json.optional? Json.binary64? seconds
    let milliseconds ← Json.optional? Json.unsigned? milliseconds
    let s := method.elim initial initial.withDefaultMethod
    let s := seconds.elim s s.withTimeout
    return milliseconds.elim s fun n => s.withPollInterval (Duration.ofMilliseconds n)
  | _ => none

def ofText (text : String) : Except Error Settings :=
  match (Json.read? text.toList).bind ofJson? with
  | some s => .ok s
  | none => .error (.settings "the text does not hold settings")

/-- Reads settings from the content of a file; there is none when the file cannot be opened. -/
def ofFile (content : Option ByteArray) : Except Error Settings :=
  match content.bind String.fromUTF8? with
  | some text => ofText text
  | none => .error (.settings "the file does not hold text")

end Settings

end ElementQuery
