import ElementQuery.Proofs.Tree.Requests

/-!
# Selecting items

Selecting an item deselects the other items below its nearest container and then selects the item.
The items that are deselected were found on a walk that passes over what is not in the tree, and no
deselection removes one of the others, so selecting an item that is in the tree succeeds. Nothing
but which items are selected changes.
-/

namespace ElementQuery

/-- An element apart from whether it is selected. -/
def Node.unselected (n : Node) : Node :=
  n.mapSpec fun s => { s with selected := false }

namespace Tree

def withSelected (t : Tree) (selected : Bool) (item : Handle) : Tree :=
  t.modify item (Node.mapSpec fun s => { s with selected })

def deselected (t : Tree) (items : List Handle) : Tree :=
  items.foldl (fun t item => t.withSelected false item) t

def withAlsoSelected (t : Tree) (items : List Handle) : Tree :=
  items.foldl (fun t item => t.withSelected true item) t

/-- The tree with one item selected and the others below its nearest container deselected. -/
def withOnlySelected (t : Tree) (h : Handle) : Tree :=
  match t.selectionContainer h with
  | some container => (t.deselected (t.selectionItems container)).withSelected true h
  | none => t.withSelected true h

variable {t : Tree} {h x : Handle}

theorem agree_withSelected (t : Tree) (selected : Bool) (item : Handle) :
    Agree Node.unselected (t.withSelected selected item) t :=
  Agree.modify t item fun _ => rfl

theorem agree_deselected (t : Tree) (items : List Handle) :
    Agree Node.unselected (t.deselected items) t := by
  induction items generalizing t with
  | nil => exact Agree.refl t
  | cons item items ih => exact (ih _).trans (agree_withSelected t false item)

theorem agree_withAlsoSelected (t : Tree) (items : List Handle) :
    Agree Node.unselected (t.withAlsoSelected items) t := by
  induction items generalizing t with
  | nil => exact Agree.refl t
  | cons item items ih => exact (ih _).trans (agree_withSelected t true item)

theorem agree_withOnlySelected (t : Tree) (h : Handle) :
    Agree Node.unselected (t.withOnlySelected h) t := by
  rw [withOnlySelected]
  split
  · exact (agree_withSelected _ true h).trans (agree_deselected t _)
  · exact agree_withSelected t true h

/-! ### Elements that are not touched -/

theorem getElem?_withSelected {item : Handle} (hx : x ≠ item) (t : Tree) (selected : Bool) :
    (t.withSelected selected item).nodes[x]? = t.nodes[x]? := by
  rw [withSelected, getElem?_modify, if_neg (Ne.symm hx)]

theorem getElem?_foldl_withSelected {items : List Handle} (hx : x ∉ items) (t : Tree)
    (selected : Bool) :
    (items.foldl (fun t item => t.withSelected selected item) t).nodes[x]? = t.nodes[x]? := by
  induction items generalizing t with
  | nil => rfl
  | cons item items ih =>
    rw [List.mem_cons, not_or] at hx
    exact (ih hx.2 _).trans (getElem?_withSelected hx.1 t selected)

theorem getElem?_withOnlySelected (hx : x ≠ h)
    (hitems : ∀ c, t.selectionContainer h = some c → x ∉ t.selectionItems c) :
    (t.withOnlySelected h).nodes[x]? = t.nodes[x]? := by
  rw [withOnlySelected]
  split
  · next container hcontainer =>
    rw [getElem?_withSelected hx]
    exact getElem?_foldl_withSelected (hitems container hcontainer) t false
  · exact getElem?_withSelected hx t true

theorem getElem?_select {first : Handle} {others : List Handle} (hx : x ∉ first :: others)
    (hitems : ∀ c, t.selectionContainer first = some c → x ∉ t.selectionItems c) :
    ((t.withOnlySelected first).withAlsoSelected others).nodes[x]? = t.nodes[x]? := by
  rw [List.mem_cons, not_or] at hx
  rw [withAlsoSelected, getElem?_foldl_withSelected hx.2]
  exact getElem?_withOnlySelected hx.1 hitems

/-! ### The focus and what is in the tree -/

theorem focused_deselected (t : Tree) (items : List Handle) :
    (t.deselected items).focused = t.focused := by
  induction items generalizing t with
  | nil => rfl
  | cons item items ih => exact ih _

theorem focused_withAlsoSelected (t : Tree) (items : List Handle) :
    (t.withAlsoSelected items).focused = t.focused := by
  induction items generalizing t with
  | nil => rfl
  | cons item items ih => exact ih _

theorem focused_withOnlySelected (t : Tree) (h : Handle) :
    (t.withOnlySelected h).focused = t.focused := by
  rw [withOnlySelected]
  split
  · exact focused_deselected t _
  · rfl

theorem Agree.isLive_of_unselected {s t : Tree} (hst : Agree Node.unselected s t) (x : Handle) :
    s.isLive x = t.isLive x :=
  (hst.map Node.place).isLive x

theorem isLive_withSelected (t : Tree) (selected : Bool) (item x : Handle) :
    (t.withSelected selected item).isLive x = t.isLive x :=
  (agree_withSelected t selected item).isLive_of_unselected x

theorem isLive_deselected (t : Tree) (items : List Handle) (x : Handle) :
    (t.deselected items).isLive x = t.isLive x :=
  (agree_deselected t items).isLive_of_unselected x

theorem isLive_withOnlySelected (t : Tree) (h x : Handle) :
    (t.withOnlySelected h).isLive x = t.isLive x :=
  (agree_withOnlySelected t h).isLive_of_unselected x

theorem isLive_of_mem_collectItems {steps : Nat} {stack : List Handle}
    (hx : x ∈ t.collectItems steps stack) : t.isLive x = true := by
  induction steps generalizing stack with
  | zero => cases stack <;> contradiction
  | succ steps ih =>
    cases stack with
    | nil => contradiction
    | cons h stack =>
      rw [collectItems] at hx
      cases hn : t.node h with
      | error e =>
        rw [hn] at hx
        exact ih hx
      | ok n =>
        rw [hn] at hx
        simp only at hx
        split at hx
        · rcases List.mem_cons.mp hx with rfl | hlater
          · exact isLive_iff.mpr ⟨n, hn⟩
          · exact ih hlater
        · exact ih hx

theorem isLive_of_mem_selectionItems {container : Handle}
    (hx : x ∈ t.selectionItems container) : t.isLive x = true := by
  rw [selectionItems] at hx
  split at hx
  · exact isLive_of_mem_collectItems hx
  · contradiction

end Tree

namespace Edit

variable {t : Tree} {h : Handle}

theorem perform_setSelected (selected : Bool) (hlive : t.isLive h = true) :
    (setSelected selected h).perform t = (.ok (), t.withSelected selected h) := by
  obtain ⟨n, hn⟩ := Tree.isLive_iff.mp hlive
  rw [setSelected, perform_update, hn]
  rfl

theorem perform_deselectAll {items : List Handle} (hlive : ∀ x ∈ items, t.isLive x = true) :
    (deselectAll items).perform t = (.ok (), t.deselected items) := by
  induction items generalizing t with
  | nil => rfl
  | cons item items ih =>
    rw [deselectAll, perform_bind, perform_setSelected false (hlive item List.mem_cons_self)]
    apply ih
    intro x hx
    rw [Tree.isLive_withSelected]
    exact hlive x (List.mem_cons_of_mem _ hx)

theorem perform_select (hlive : t.isLive h = true) :
    (select h).perform t = (.ok (), t.withOnlySelected h) := by
  obtain ⟨n, hn⟩ := Tree.isLive_iff.mp hlive
  rw [select, perform_bind, perform_node, hn]
  simp only
  rw [perform_bind, perform_get, Tree.withOnlySelected]
  simp only
  cases t.selectionContainer h with
  | none => exact perform_setSelected true hlive
  | some container =>
    simp only
    rw [perform_bind, perform_get]
    simp only
    rw [perform_bind, perform_deselectAll fun x hx => Tree.isLive_of_mem_selectionItems hx]
    simp only
    rw [perform_setSelected]
    rw [Tree.isLive_deselected]
    exact hlive

end Edit

end ElementQuery
