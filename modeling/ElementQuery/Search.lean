import ElementQuery.Provider.Dialogue
import ElementQuery.Query
import ElementQuery.Settings.Stored
import ElementQuery.Wait

/-!
# Searching

A search runs a query below an element. The grid address and the condition are made out before
anything is asked of the provider, so a query with a mistake costs no request, and the mistake in
the grid address is reported first. A query for the main window is answered by the element that the
search starts from. A grid address moves the result to a cell or a header of what was found; an
address that points outside the grid, or into something that is no grid, finds nothing.

A search that finds nothing is no error unless the caller requires an element. A wait repeats the
whole search.
-/

namespace ElementQuery

/--
The element that a query addresses, and the one that it was found under: where the search started,
or the grid that its address points into.
-/
structure SearchMatch where
  element : Handle
  anchor : Handle
  deriving DecidableEq, Inhabited

namespace Search

open Dialogue (request)

/-- The header with a number counted from one. -/
def header? (headers : List Handle) (number : Nat) : Option Handle :=
  match number with
  | 0 => none
  | n + 1 => headers[n]?

/-- The cell or header of a grid that an address points to. -/
def resolve (grid : Handle) (address : GridAddress) : Dialogue (Option Handle) :=
  match address with
  | .cell row column => do
    if !(← request (.supports grid .grid)) then return none
    if row == 0 || column == 0 then return none
    if (← request (.rowCount grid)) < row then return none
    if (← request (.columnCount grid)) < column then return none
    request (.gridItem grid (row - 1) (column - 1))
  | .row number => do
    if !(← request (.supports grid .table)) then return none
    return header? (← request (.rowHeaders grid)) number
  | .column number => do
    if !(← request (.supports grid .table)) then return none
    return header? (← request (.columnHeaders grid)) number

/-- What was found at an element, after its grid address has been followed. -/
def follow (found anchor : Handle) (address : Option GridAddress) : Dialogue (Option SearchMatch) :=
  match address with
  | none => return some ⟨found, anchor⟩
  | some address => do
    let element ← resolve found address
    return element.map fun e => ⟨e, found⟩

/-- The first match of a query below an element. -/
def findMatch (parent : Handle) (scope : Scope) (query : Query) :
    Dialogue (Option SearchMatch) := do
  let address ← Dialogue.ofExcept query.gridAddress
  if query.isMainWindow then follow parent parent address
  else
    let condition ← Dialogue.ofExcept query.condition
    match ← request (.findFirst parent scope condition) with
    | none => return none
    | some found => follow found parent address

/-- The first element that a query addresses. -/
def find (parent : Handle) (scope : Scope) (query : Query) : Dialogue (Option Handle) := do
  return (← findMatch parent scope query).map SearchMatch.element

def findText (s : Settings) (parent : Handle) (scope : Scope) (text : String) :
    Dialogue (Option Handle) :=
  find parent scope (Query.parse text s.defaultMethod)

/-- The first window, a child of the root, that a query addresses. -/
def findWindow (root : Handle) (query : Query) : Dialogue (Option Handle) :=
  find root .children query

/-- The first element anywhere in a window that a query addresses. -/
def findControl (window : Handle) (query : Query) : Dialogue (Option Handle) :=
  find window .descendants query

def notFound (parent : Handle) (query : Query) : Error :=
  .elementNotFound ("no element matches '" ++ query.text ++ "' under " ++ parent.text)

/-- The first element that a query addresses; there has to be one. -/
def findRequired (parent : Handle) (scope : Scope) (query : Query) : Dialogue Handle := do
  match ← find parent scope query with
  | some h => return h
  | none => .fail (notFound parent query)

/-! ### Waiting for an element -/

/-- The run of a wait for an element, if it ends within so many attempts. -/
def waitFor {σ : Type} (p : Provider σ) (clock : Clock σ) (s : Settings) (parent : Handle)
    (scope : Scope) (query : Query) (limit : Nat) (w : σ) : Option (WaitRun σ Error Handle) :=
  waitForSome clock (fun w => (find parent scope query).run p w) s.timeout s.pollInterval limit w

def timedOut (s : Settings) (parent : Handle) (query : Query) : Error :=
  .timeout ("timed out after " ++ s.timeout.text ++ " waiting for '" ++ query.text ++ "' under " ++
    parent.text)

def required (s : Settings) (parent : Handle) (query : Query) :
    Except Error (Option Handle) → Except Error Handle
  | .ok (some h) => .ok h
  | .ok none => .error (timedOut s parent query)
  | .error e => .error e

end Search

end ElementQuery
