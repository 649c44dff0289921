import ElementQuery.Provider.Request
import ElementQuery.Tree.Basic

/-!
# Operations on a tree

A tree is changed from outside and by the requests that are made of it. Either may fail.
-/

namespace ElementQuery

/-! ## Changing a tree

Elements are added below an element and removed with everything below them, properties are set, and
an element is made a grid by giving it cells or headers. Cells and headers are ordinary elements
below the grid, cells being named for their row and column, and the grid keeps their handles. New
cells replace the handles of earlier ones, and so do new headers; the earlier elements stay.
-/

namespace Edit

/-- Adds an element as the last child of another. -/
def add (parent : Handle) (spec : ElementSpec) : Edit Handle := do
  let _ ← node parent
  let handle := (← get).nodes.size
  modify fun t => { t with nodes := t.nodes.push (.ofSpec (some parent) spec) }
  update parent fun n => { n with children := n.children ++ [handle] }
  return handle

/-- Marks the elements on a stack, and what is below them, as removed. -/
def markRemoved : (steps : Nat) → List Handle → Edit Unit
  | _, [] => return ()
  | 0, _ => return ()
  | steps + 1, h :: stack => do
    let n ← node h
    update h fun n => { n with removed := true }
    markRemoved steps (n.children.reverse ++ stack)

def remove (h : Handle) : Edit Unit := do
  match (← node h).parent with
  | some parent => update parent fun n => { n with children := n.children.filter fun c => c != h }
  | none => pure ()
  markRemoved (← get).nodes.size [h]

def setProperty (h : Handle) (p : Property) (v : PropertyValue) : Edit Unit :=
  update h (Node.mapSpec fun s => s.withProperty p v)

/-- The description of the cell in a row and a column, counted from zero. -/
def cellSpec (row column : Nat) : ElementSpec :=
  (ElementSpec.ofControlType .dataItem).withName
    (Text.decimal (row + 1) ++ "," ++ Text.decimal (column + 1))

def headerSpec (name : String) : ElementSpec :=
  (ElementSpec.ofControlType .headerItem).withName name

def addAll (parent : Handle) : List ElementSpec → Edit (List Handle)
  | [] => return []
  | spec :: specs => do
    let handle ← add parent spec
    let handles ← addAll parent specs
    return handle :: handles

def addRows (parent : Handle) : List (List ElementSpec) → Edit (List (List Handle))
  | [] => return []
  | row :: rows => do
    let handles ← addAll parent row
    let rest ← addRows parent rows
    return handles :: rest

/-- Gives an element new cells in so many rows and columns. Any number of them is taken: that memory
is limited, and that room for the rows and for each row is set aside beforehand, is left out. -/
def addGrid (h : Handle) (rows columns : Nat) : Edit (List (List Handle)) := do
  let cells ← addRows h
    ((List.range rows).map fun r => (List.range columns).map fun c => cellSpec r c)
  update h (Node.mapGrid fun g => { g with cells })
  return cells

/-- Gives an element new headers, which makes it a table. -/
def addTableHeaders (h : Handle) (rowNames columnNames : List String) : Edit Unit := do
  let rowHeaders ← addAll h (rowNames.map headerSpec)
  let columnHeaders ← addAll h (columnNames.map headerSpec)
  update h (Node.mapGrid fun g => { g with rowHeaders, columnHeaders, isTable := true })

def setSelected (selected : Bool) (h : Handle) : Edit Unit :=
  update h (Node.mapSpec fun s => { s with selected })

def deselectAll : List Handle → Edit Unit
  | [] => return ()
  | item :: items => do
    setSelected false item
    deselectAll items

/-- Selects an item, and deselects all others below its nearest container. -/
def select (h : Handle) : Edit Unit := do
  let _ ← node h
  match (← get).selectionContainer h with
  | some container => deselectAll ((← get).selectionItems container)
  | none => pure ()
  setSelected true h

def setFocus (h : Handle) : Edit Unit := do
  let _ ← node h
  modify fun t => { t with focused := some h }

/-- Types a text into the element that has the keyboard focus. -/
def sendKeys (h : Handle) (text : String) : Edit Unit := do
  if (← get).focused == some h then
    update h fun n => { n with typed := n.typed ++ [text] }
  else
    throw (.platform ("element " ++ h.text ++ " does not have keyboard focus"))

end Edit

/-! ## A tree in memory as a provider

How a tree answers requests. A request about an element that is not available fails, and so does one
about rows and columns of an element that is no grid. The other requests are answered whether or not
the element supports the pattern that they belong to.
-/

/-- What a request does to a tree, and its answer. -/
def Edit.ofRequest : (r : Request) → Edit r.Answer
  | .findFirst parent scope condition => do ofExcept ((← get).findFirst parent scope condition)
  | .property h p => return (← Edit.node h).spec.properties.get? p
  | .parent h => return (← Edit.node h).parent
  | .supports h p => return (← Edit.node h).supports p
  | .value h => return (← Edit.node h).spec.value
  | .setValue h v => Edit.update h (Node.mapSpec fun s => { s with value := v })
  | .isValueReadOnly h => return (← Edit.node h).spec.valueReadOnly
  | .rangeValue h => return (← Edit.node h).spec.range
  | .setRangeValue h v => Edit.update h (Node.mapSpec fun s => { s with range := v })
  | .rangeBounds h => do
    let s := (← Edit.node h).spec
    return (s.rangeMin, s.rangeMax)
  | .isRangeReadOnly h => return (← Edit.node h).spec.rangeReadOnly
  | .text h => return (← Edit.node h).spec.text
  | .toggleState h => return (← Edit.node h).spec.toggleState
  | .toggle h => Edit.update h (Node.mapSpec ElementSpec.advanceToggle)
  | .selectedItems h => do ofExcept ((← get).selectedItems h)
  | .canSelectMultiple h => return (← Edit.node h).spec.multipleSelection
  | .isSelected h => return (← Edit.node h).spec.selected
  | .select h => Edit.select h
  | .addToSelection h => Edit.setSelected true h
  | .removeFromSelection h => Edit.setSelected false h
  | .legacyValue h => return (← Edit.node h).spec.legacyValue
  | .setLegacyValue h v => Edit.update h (Node.mapSpec fun s => { s with legacyValue := v })
  | .rowCount h => return (← Edit.grid h).cells.length
  | .columnCount h => return (← Edit.grid h).columnCount
  | .gridItem h row column => return (← Edit.grid h).item? row column
  | .rowHeaders h => return (← Edit.grid h).rowHeaders
  | .columnHeaders h => return (← Edit.grid h).columnHeaders
  | .setFocus h => Edit.setFocus h
  | .sendKeys h text => Edit.sendKeys h text

def Tree.provider : Provider Tree :=
  { root := Tree.root
    answer := fun r t => (Edit.ofRequest r).perform t }

/-! ## Operations as data

Everything that can happen to a tree: its elements are added, removed and changed from outside, and
requests are made of it. The trees that can occur are those that some list of operations, each of
which may succeed or fail, leaves of the initial tree.
-/

namespace Tree

/-- What can happen to a tree. -/
inductive Operation where
  | add (parent : Handle) (spec : ElementSpec)
  | remove (element : Handle)
  | setProperty (element : Handle) (property : Property) (value : PropertyValue)
  | addGrid (element : Handle) (rows columns : Nat)
  | addTableHeaders (element : Handle) (rowNames columnNames : List String)
  | request (request : Request)

namespace Operation

@[reducible] def Answer : Operation → Type
  | .add _ _ => Handle
  | .remove _ => Unit
  | .setProperty _ _ _ => Unit
  | .addGrid _ _ _ => List (List Handle)
  | .addTableHeaders _ _ _ => Unit
  | .request r => r.Answer

def edit : (o : Operation) → Edit o.Answer
  | .add parent spec => Edit.add parent spec
  | .remove h => Edit.remove h
  | .setProperty h p v => Edit.setProperty h p v
  | .addGrid h rows columns => Edit.addGrid h rows columns
  | .addTableHeaders h rowNames columnNames => Edit.addTableHeaders h rowNames columnNames
  | .request r => Edit.ofRequest r

def result (o : Operation) (t : Tree) : Except Error o.Answer :=
  (o.edit.perform t).1

def apply (t : Tree) (o : Operation) : Tree :=
  (o.edit.perform t).2

end Operation

def applyAll (t : Tree) (os : List Operation) : Tree :=
  os.foldl Operation.apply t

/-- Holds of the trees that can occur. -/
def Reachable (t : Tree) : Prop :=
  ∃ os : List Operation, t = initial.applyAll os

end Tree

end ElementQuery
