import ElementQuery.Condition
import ElementQuery.Registry
import ElementQuery.Tree.Spec

/-!
# Trees in memory

A tree keeps every element that was ever added, numbered in the order of addition, and the handle of
an element is its number. Removing an element only marks it and everything below it, so a handle is
never given twice, and one whose element was removed is not available any more. The tree also knows
which element has the keyboard focus.

Changes to a tree are computations that may fail, and one that fails may have changed the tree
before; that none does is a fact about the operations and not about their type.
-/

namespace ElementQuery

/-- The cells and headers of an element that is a grid; with headers it is a table too. -/
structure Grid where
  cells : List (List Handle)
  rowHeaders : List Handle
  columnHeaders : List Handle
  isTable : Bool
  deriving DecidableEq, Inhabited

/-- An element with its place in the tree, its description and the texts typed into it. -/
structure Node where
  parent : Option Handle
  children : List Handle
  spec : ElementSpec
  grid : Option Grid
  typed : List String
  removed : Bool
  deriving DecidableEq, Inhabited

structure Tree where
  nodes : Array Node
  focused : Option Handle
  deriving DecidableEq, Inhabited

namespace Grid

def empty : Grid := ⟨[], [], [], false⟩

/-- The number of columns, which is the length of the first row. -/
def columnCount (g : Grid) : Nat :=
  match g.cells with
  | [] => 0
  | row :: _ => row.length

/-- The cell of a row and a column, counted from zero. -/
def item? (g : Grid) (row column : Nat) : Option Handle :=
  g.cells[row]?.bind fun cells => cells[column]?

end Grid

namespace Node

def ofSpec (parent : Option Handle) (spec : ElementSpec) : Node :=
  { parent, children := [], spec, grid := none, typed := [], removed := false }

/-- Whether an element supports a pattern; grid and table are a matter of its cells and headers. -/
def supports (n : Node) (p : Pattern) : Bool :=
  match p with
  | .grid => n.grid.isSome
  | .table => n.grid.any Grid.isTable
  | p => n.spec.patterns.contains p

def mapSpec (f : ElementSpec → ElementSpec) (n : Node) : Node :=
  { n with spec := f n.spec }

/-- Changes the grid of an element, which becomes one if it is none. -/
def mapGrid (f : Grid → Grid) (n : Node) : Node :=
  { n with grid := some (f (n.grid.getD .empty)) }

end Node

namespace Tree

def root : Handle := 0

/-- The tree that holds only the root, a pane named for the desktop. -/
def initial : Tree :=
  { nodes := #[.ofSpec none ((ElementSpec.ofControlType .pane).withName "Desktop")]
    focused := none }

/-- The error of a handle whose element was removed or never added. -/
def unavailable (h : Handle) : Error :=
  .platform ("element " ++ h.text ++ " is not available")

def node (t : Tree) (h : Handle) : Except Error Node :=
  match t.nodes[h]? with
  | some n => if n.removed then .error (unavailable h) else .ok n
  | none => .error (unavailable h)

def isLive (t : Tree) (h : Handle) : Bool :=
  t.nodes[h]?.any fun n => !n.removed

def modify (t : Tree) (h : Handle) (f : Node → Node) : Tree :=
  { t with nodes := t.nodes.modify h f }

theorem node_eq_ok_iff {t : Tree} {h : Handle} {n : Node} :
    t.node h = .ok n ↔ t.nodes[h]? = some n ∧ n.removed = false := by
  unfold node
  cases hget : t.nodes[h]? with
  | none => simp
  | some m =>
    by_cases hremoved : m.removed
    · simp only [hremoved, if_true, reduceCtorEq, Option.some.injEq, false_iff, not_and]
      rintro rfl
      simp [hremoved]
    · simp only [hremoved, Bool.false_eq_true, if_false, Except.ok.injEq, Option.some.injEq]
      exact ⟨fun hm => ⟨hm, hm ▸ by simpa using hremoved⟩, And.left⟩

theorem isLive_iff {t : Tree} {h : Handle} : t.isLive h = true ↔ ∃ n, t.node h = .ok n := by
  simp [isLive, node_eq_ok_iff, Option.any_eq_true]

theorem getElem?_modify (t : Tree) (h i : Handle) (f : Node → Node) :
    (t.modify h f).nodes[i]? = if h = i then t.nodes[i]?.map f else t.nodes[i]? :=
  Array.getElem?_modify

end Tree

/-- A change of a tree that may fail. -/
abbrev Edit := ExceptT Error (StateM Tree)

namespace Edit

/-- The outcome of a change and the tree that it leaves. -/
def perform {α : Type} (edit : Edit α) (t : Tree) : Except Error α × Tree :=
  edit.run.run t

@[simp] theorem perform_pure {α : Type} (a : α) (t : Tree) :
    (pure a : Edit α).perform t = (.ok a, t) := rfl

@[simp] theorem perform_throw {α : Type} (e : Error) (t : Tree) :
    (throw e : Edit α).perform t = (.error e, t) := rfl

@[simp] theorem perform_get (t : Tree) : (get : Edit Tree).perform t = (.ok t, t) := rfl

@[simp] theorem perform_modify (f : Tree → Tree) (t : Tree) :
    (modify f : Edit PUnit).perform t = (.ok ⟨⟩, f t) := rfl

/-- The second of two changes is made to the tree that the first leaves, unless the first fails. -/
theorem perform_bind {α β : Type} (x : Edit α) (f : α → Edit β) (t : Tree) :
    (x >>= f).perform t =
      match x.perform t with
      | (.ok a, t) => (f a).perform t
      | (.error e, t) => (.error e, t) := by
  unfold perform ExceptT.run StateT.run
  simp only [bind, ExceptT.bind, ExceptT.mk, StateT.bind, ExceptT.bindCont]
  cases x t with
  | mk result _ => cases result <;> rfl

def node (h : Handle) : Edit Node := do
  match (← get).node h with
  | .ok n => return n
  | .error e => throw e

def update (h : Handle) (f : Node → Node) : Edit Unit := do
  let _ ← node h
  modify fun t => t.modify h f

theorem perform_node (h : Handle) (t : Tree) : (node h).perform t = (t.node h, t) := by
  rw [node, perform_bind]
  simp only [perform_get]
  cases t.node h <;> rfl

theorem perform_update (h : Handle) (f : Node → Node) (t : Tree) :
    (update h f).perform t =
      match t.node h with
      | .ok _ => (.ok (), t.modify h f)
      | .error e => (.error e, t) := by
  rw [update, perform_bind, perform_node]
  cases t.node h <;> rfl

/-- The grid of an element; an element without one does not support the operation. -/
def grid (h : Handle) : Edit Grid := do
  match (← node h).grid with
  | some g => return g
  | none => throw (.unsupported ("element " ++ h.text ++ " is not a grid"))

end Edit

/-! ## Walks through a tree

Searches look at the descendants of an element depth first, each element before what is below it and
siblings in the order of addition. A walk keeps the elements still to be visited on a stack. In a
well-formed tree no element is met twice, so a walk takes no more steps than the tree has elements;
that number bounds every walk.

The order of the walks is also given as a list, by recursion over the tree.
-/

namespace Tree

/-- Whether the element of a handle meets a condition; one that is not available does not. -/
def satisfies (t : Tree) (c : Condition) (h : Handle) : Bool :=
  match t.node h with
  | .ok n => c.holds n.spec.properties.get?
  | .error _ => false

/-- The first element that meets a condition, from those on a stack and what is below them. -/
def searchFirst (t : Tree) (c : Condition) :
    (steps : Nat) → List Handle → Except Error (Option Handle)
  | _, [] => .ok none
  | 0, _ => .ok none
  | steps + 1, h :: stack =>
    if t.satisfies c h then .ok (some h)
    else do
      let n ← t.node h
      searchFirst t c steps (n.children ++ stack)

def firstDescendant (t : Tree) (start : Handle) (c : Condition) : Except Error (Option Handle) := do
  let n ← t.node start
  t.searchFirst c t.nodes.size n.children

/-- The first element in scope that meets a condition. -/
def findFirst (t : Tree) (start : Handle) (scope : Scope) (c : Condition) :
    Except Error (Option Handle) :=
  match scope with
  | .element => do
    let _ ← t.node start
    return if t.satisfies c start then some start else none
  | .children => do
    let n ← t.node start
    return n.children.find? (t.satisfies c)
  | .descendants => t.firstDescendant start c

/-- The selection items among the elements on a stack and what is below them. -/
def collectItems (t : Tree) : (steps : Nat) → List Handle → List Handle
  | _, [] => []
  | 0, _ => []
  | steps + 1, h :: stack =>
    match t.node h with
    | .ok n =>
      let items := collectItems t steps (n.children ++ stack)
      if n.spec.patterns.contains .selectionItem then h :: items else items
    | .error _ => collectItems t steps stack

def selectionItems (t : Tree) (container : Handle) : List Handle :=
  match t.node container with
  | .ok n => t.collectItems t.nodes.size n.children
  | .error _ => []

/-- The nearest selection container at or above a handle. -/
def containerFrom (t : Tree) : (steps : Nat) → Option Handle → Option Handle
  | _, none => none
  | 0, _ => none
  | steps + 1, some h =>
    match t.node h with
    | .ok n =>
      if n.spec.patterns.contains .selection then some h else containerFrom t steps n.parent
    | .error _ => none

/-- The nearest selection container above an element. -/
def selectionContainer (t : Tree) (item : Handle) : Option Handle :=
  match t.node item with
  | .ok n => t.containerFrom t.nodes.size n.parent
  | .error _ => none

def selectedItems (t : Tree) (container : Handle) : Except Error (List Handle) := do
  let _ ← t.node container
  return (t.selectionItems container).filter fun h =>
    match t.node h with
    | .ok n => n.spec.selected
    | .error _ => false

/-! ### The order of the walks -/

def childrenOf (t : Tree) (h : Handle) : List Handle :=
  match t.node h with
  | .ok n => n.children
  | .error _ => []

/-- The elements below a handle to some depth, each before what is below it. -/
def preorder (t : Tree) : (depth : Nat) → Handle → List Handle
  | 0, _ => []
  | depth + 1, h => (t.childrenOf h).flatMap fun c => c :: preorder t depth c

/-- The descendants of an element, each before what is below it. -/
def descendants (t : Tree) (h : Handle) : List Handle :=
  t.preorder t.nodes.size h

/-- The elements of a scope in the order in which they are searched. -/
def scopeList (t : Tree) (start : Handle) : Scope → List Handle
  | .element => [start]
  | .children => t.childrenOf start
  | .descendants => t.descendants start

end Tree

end ElementQuery
