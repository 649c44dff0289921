import ElementQuery.Proofs.Tree.WellFormed
import ElementQuery.Provider.Dialogue

/-!
# What requests do to a tree

No request adds, moves or removes an element. Those that read leave the whole tree alone, and those
that write change descriptions, the texts typed into an element or the keyboard focus.
-/

namespace ElementQuery.Edit

variable {α β γ : Type} {aspect : Node → γ} {t : Tree} {h : Handle} {n : Node}

/-- Holds of a change after which all elements agree in some respect with what they were. -/
def Keeps (aspect : Node → γ) (edit : Edit α) : Prop :=
  ∀ t : Tree, Tree.Agree aspect (edit.perform t).2 t

theorem keeps_pure (a : α) : Keeps aspect (pure a : Edit α) := fun t => Tree.Agree.refl t

theorem keeps_bind {x : Edit α} {f : α → Edit β} (hx : Keeps aspect x)
    (hf : ∀ a, Keeps aspect (f a)) : Keeps aspect (x >>= f) := by
  intro t
  have hfirst := hx t
  rw [perform_bind]
  revert hfirst
  cases x.perform t with
  | mk result s =>
    cases result with
    | ok a => exact fun hfirst => (hf a s).trans hfirst
    | error e => exact id

theorem keeps_get {f : Tree → Edit α} (hf : ∀ t, Keeps aspect (f t)) :
    Keeps aspect (get >>= f) := by
  intro t
  rw [perform_bind, perform_get]
  exact hf t t

theorem keeps_node (h : Handle) : Keeps aspect (node h) := by
  intro t
  rw [perform_node]
  exact Tree.Agree.refl t

theorem keeps_update (h : Handle) {f : Node → Node} (hf : ∀ n, aspect (f n) = aspect n) :
    Keeps aspect (update h f) := by
  intro t
  rw [perform_update]
  cases t.node h with
  | ok n => exact Tree.Agree.modify t h hf
  | error e => exact Tree.Agree.refl t

theorem perform_ofExcept (x : Except Error α) (t : Tree) :
    (ofExcept x : Edit α).perform t = (x, t) := by
  cases x <;> rfl

theorem perform_read (h : Handle) (f : Node → α) (t : Tree) :
    (do return f (← node h) : Edit α).perform t = ((t.node h).map f, t) := by
  rw [perform_bind, perform_node]
  cases t.node h <;> rfl

theorem perform_readGrid (hn : t.node h = .ok n) {g : Grid} (hg : n.grid = some g)
    (f : Grid → α) : (do return f (← grid h) : Edit α).perform t = (.ok (f g), t) := by
  rw [perform_bind, grid, perform_bind, perform_node, hn]
  simp only [hg]
  rfl

theorem perform_grid (h : Handle) (t : Tree) : ((grid h).perform t).2 = t := by
  rw [grid, perform_bind, perform_node]
  cases t.node h with
  | error e => rfl
  | ok n => cases hgrid : n.grid <;> simp [hgrid]

theorem keeps_deselectAll (items : List Handle) : Keeps Node.shape (deselectAll items) := by
  induction items with
  | nil => exact keeps_pure ()
  | cons item items ih => exact keeps_bind (keeps_update item fun _ => rfl) fun _ => ih

theorem keeps_select (h : Handle) : Keeps Node.shape (select h) := by
  apply keeps_bind (keeps_node h)
  intro n
  apply keeps_get
  intro t
  cases t.selectionContainer h with
  | none => exact keeps_update h fun _ => rfl
  | some container =>
    apply keeps_get
    intro t
    exact keeps_bind (keeps_deselectAll _) fun _ => keeps_update h fun _ => rfl

theorem keeps_setFocus (h : Handle) : Keeps Node.shape (setFocus h) := by
  apply keeps_bind (keeps_node h)
  intro n t
  exact fun _ => rfl

theorem keeps_sendKeys (h : Handle) (text : String) : Keeps Node.shape (sendKeys h text) := by
  apply keeps_get
  intro t
  split
  · exact keeps_update h fun _ => rfl
  · exact fun t => Tree.Agree.refl t

/-- No request adds, moves or removes an element or changes a grid. -/
theorem keeps_ofRequest (r : Request) : Keeps Node.shape (ofRequest r) := by
  have hofExcept : ∀ {α : Type} (f : Tree → Except Error α),
      Keeps Node.shape (do ofExcept (f (← get)) : Edit α) := by
    intro α f
    apply keeps_get
    intro t s
    rw [perform_ofExcept]
    exact Tree.Agree.refl s
  have hgrid : ∀ {α : Type} (h : Handle) (f : Grid → α),
      Keeps Node.shape (do return f (← grid h) : Edit α) := by
    intro α h f
    refine keeps_bind (fun t => ?_) fun g => keeps_pure _
    rw [perform_grid]
    exact Tree.Agree.refl t
  cases r with
  | findFirst | selectedItems => exact hofExcept _
  | property | parent | supports | value | isValueReadOnly | rangeValue | rangeBounds
  | isRangeReadOnly | text | toggleState | canSelectMultiple | isSelected | legacyValue =>
    exact keeps_bind (keeps_node _) fun _ => keeps_pure _
  | setValue | setRangeValue | toggle | addToSelection | removeFromSelection | setLegacyValue =>
    exact keeps_update _ fun _ => rfl
  | rowCount | columnCount | gridItem | rowHeaders | columnHeaders => exact hgrid _ _
  | select h => exact keeps_select h
  | setFocus h => exact keeps_setFocus h
  | sendKeys h text => exact keeps_sendKeys h text

end ElementQuery.Edit

/-! ### Dialogues with a tree -/

namespace ElementQuery.Dialogue

theorem run_ofExcept {α σ : Type} (p : Provider σ) (x : Except Error α) (s : σ) :
    (ofExcept x).run p s = (x, s) := by
  cases x <;> rfl

theorem answer_provider (r : Request) (t : Tree) :
    Tree.provider.answer r t = (Edit.ofRequest r).perform t := rfl

theorem answer_findFirst (parent : Handle) (scope : Scope) (c : Condition) (t : Tree) :
    Tree.provider.answer (.findFirst parent scope c) t = (t.findFirst parent scope c, t) :=
  Edit.perform_ofExcept (t.findFirst parent scope c) t

theorem answer_selectedItems (container : Handle) (t : Tree) :
    Tree.provider.answer (.selectedItems container) t = (t.selectedItems container, t) :=
  Edit.perform_ofExcept (t.selectedItems container) t

theorem run_findFirst_bind {α : Type} (parent : Handle) (scope : Scope) (c : Condition)
    (f : Option Handle → Dialogue α) (t : Tree) :
    (request (.findFirst parent scope c) >>= f).run Tree.provider t =
      match t.findFirst parent scope c with
      | .ok found => (f found).run Tree.provider t
      | .error e => (.error e, t) := by
  rw [request, ask_bind, run, answer_findFirst]
  cases t.findFirst parent scope c <;> rfl

end ElementQuery.Dialogue
