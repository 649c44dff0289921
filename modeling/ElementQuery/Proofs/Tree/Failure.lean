import ElementQuery.Proofs.Tree.Descendants
import ElementQuery.Proofs.Tree.Reachable
import ElementQuery.Proofs.Tree.Selection

/-!
# Operations that fail

An operation is about an element. If the element is not in the tree, the operation is refused before
anything has happened. If it is, there are two kinds of request that are refused all the same: those
about rows, columns and headers of an element that is no grid, and typing into an element that does
not have the keyboard focus. They are refused before anything has happened too.

All other operations succeed, those included that go on for many steps: adding a grid, removing an
element with what is below it, selecting an item. In a well-formed tree each of their steps meets an
element that is in the tree. So there is no operation that fails halfway, and one that fails leaves
the tree as it was.
-/

namespace ElementQuery

/-- What a request asks of the element that it is about, besides being in the tree. -/
def Request.Granted (t : Tree) (n : Node) : Request → Prop
  | .rowCount _ | .columnCount _ | .gridItem _ _ _ | .rowHeaders _ | .columnHeaders _ =>
    n.grid.isSome = true
  | .sendKeys h _ => t.focused = some h
  | _ => True

namespace Edit

variable {α : Type} {t : Tree} {h : Handle} {n : Node} {e : Error}

/-! ### Requests -/

theorem perform_read_ok (hn : t.node h = .ok n) (f : Node → α) :
    (do return f (← node h) : Edit α).perform t = (.ok (f n), t) := by
  rw [perform_read, hn]
  rfl

theorem perform_read_error (hn : t.node h = .error e) (f : Node → α) :
    (do return f (← node h) : Edit α).perform t = (.error e, t) := by
  rw [perform_read, hn]
  rfl

theorem perform_update_ok (hn : t.node h = .ok n) (f : Node → Node) :
    (update h f).perform t = (.ok (), t.modify h f) := by
  rw [perform_update, hn]

theorem perform_update_error (hn : t.node h = .error e) (f : Node → Node) :
    (update h f).perform t = (.error e, t) := by
  rw [perform_update, hn]

theorem perform_readGrid_error (hn : t.node h = .error e) (f : Grid → α) :
    (do return f (← grid h) : Edit α).perform t = (.error e, t) := by
  rw [perform_bind, grid, perform_bind, perform_node, hn]

theorem perform_readGrid_none (hn : t.node h = .ok n) (hgrid : n.grid = none) (f : Grid → α) :
    ∃ e, (do return f (← grid h) : Edit α).perform t = (.error e, t) := by
  rw [perform_bind, grid, perform_bind, perform_node, hn]
  simp only [hgrid]
  exact ⟨_, rfl⟩

theorem perform_ask (f : Tree → Except Error α) (t : Tree) :
    (do ofExcept (f (← get)) : Edit α).perform t = (f t, t) := by
  rw [perform_bind, perform_get]
  exact perform_ofExcept (f t) t

theorem perform_sendKeys_focused (hfocus : t.focused = some h) (text : String) :
    (sendKeys h text).perform t =
      (update h fun n => { n with typed := n.typed ++ [text] }).perform t := by
  rw [sendKeys, perform_bind, perform_get]
  simp only [hfocus, beq_self_eq_true, if_true]

theorem perform_sendKeys_unfocused (hfocus : t.focused ≠ some h) (text : String) :
    ∃ e, (sendKeys h text).perform t = (.error e, t) := by
  rw [sendKeys, perform_bind, perform_get]
  simp only [beq_iff_eq, hfocus, if_false]
  exact ⟨_, rfl⟩

theorem perform_ofRequest_ok (ht : t.WellFormed) {r : Request} (hn : t.node r.element = .ok n)
    (hgranted : r.Granted t n) : ∃ a s, (ofRequest r).perform t = (.ok a, s) := by
  cases r with
  | findFirst parent scope c =>
    have hfind := ht.findFirst_eq (h := parent) hn scope c
    exact ⟨_, t, (perform_ask (fun t => t.findFirst parent scope c) t).trans (by rw [hfind])⟩
  | selectedItems h =>
    obtain ⟨items, hitems⟩ : ∃ items, t.selectedItems h = .ok items := by
      rw [Tree.selectedItems, show t.node h = .ok n from hn]
      exact ⟨_, rfl⟩
    exact ⟨items, t, (perform_ask (fun t => t.selectedItems h) t).trans (by rw [hitems])⟩
  | property | parent | supports | value | isValueReadOnly | rangeValue | rangeBounds
  | isRangeReadOnly | text | toggleState | canSelectMultiple | isSelected | legacyValue =>
    exact ⟨_, t, perform_read_ok hn _⟩
  | setValue | setRangeValue | toggle | addToSelection | removeFromSelection | setLegacyValue =>
    exact ⟨(), _, perform_update_ok hn _⟩
  | rowCount | columnCount | gridItem | rowHeaders | columnHeaders =>
    obtain ⟨g, hg⟩ := Option.isSome_iff_exists.mp hgranted
    exact ⟨_, t, perform_readGrid hn hg _⟩
  | select h => exact ⟨(), _, perform_select (Tree.isLive_iff.mpr ⟨n, hn⟩)⟩
  | setFocus h =>
    refine ⟨(), { t with focused := some h }, ?_⟩
    rw [ofRequest, setFocus, perform_bind, perform_node, show t.node h = .ok n from hn]
    rfl
  | sendKeys h text =>
    exact ⟨(), _, (perform_sendKeys_focused hgranted text).trans (perform_update_ok hn _)⟩

theorem perform_ofRequest_error {r : Request} (hn : t.node r.element = .error e) :
    ∃ e, (ofRequest r).perform t = (.error e, t) := by
  cases r with
  | findFirst parent scope c =>
    have hparent : t.node parent = .error e := hn
    refine ⟨e, (perform_ask (fun t => t.findFirst parent scope c) t).trans ?_⟩
    cases scope <;> simp [Tree.findFirst, Tree.firstDescendant, hparent, bind, Except.bind]
  | selectedItems h =>
    refine ⟨e, (perform_ask (fun t => t.selectedItems h) t).trans ?_⟩
    rw [Tree.selectedItems, show t.node h = .error e from hn]
    rfl
  | property | parent | supports | value | isValueReadOnly | rangeValue | rangeBounds
  | isRangeReadOnly | text | toggleState | canSelectMultiple | isSelected | legacyValue =>
    exact ⟨e, perform_read_error hn _⟩
  | setValue | setRangeValue | toggle | addToSelection | removeFromSelection | setLegacyValue =>
    exact ⟨e, perform_update_error hn _⟩
  | rowCount | columnCount | gridItem | rowHeaders | columnHeaders =>
    exact ⟨e, perform_readGrid_error hn _⟩
  | select h =>
    refine ⟨e, ?_⟩
    rw [ofRequest, select, perform_bind, perform_node, show t.node h = .error e from hn]
  | setFocus h =>
    refine ⟨e, ?_⟩
    rw [ofRequest, setFocus, perform_bind, perform_node, show t.node h = .error e from hn]
  | sendKeys h text =>
    by_cases hfocus : t.focused = some h
    · exact ⟨e, (perform_sendKeys_focused hfocus text).trans (perform_update_error hn _)⟩
    · exact perform_sendKeys_unfocused hfocus text

theorem perform_ofRequest_not_granted {r : Request} (hn : t.node r.element = .ok n)
    (hgranted : ¬ r.Granted t n) : ∃ e, (ofRequest r).perform t = (.error e, t) := by
  cases r with
  | rowCount | columnCount | gridItem | rowHeaders | columnHeaders =>
    refine perform_readGrid_none hn ?_ _
    exact Option.not_isSome_iff_eq_none.mp hgranted
  | sendKeys h text => exact perform_sendKeys_unfocused hgranted text
  | _ => exact absurd trivial hgranted

end Edit

/-! ### Operations -/

namespace Tree

namespace Operation

def element : Operation → Handle
  | .add parent _ => parent
  | .remove h => h
  | .setProperty h _ _ => h
  | .addGrid h _ _ => h
  | .addTableHeaders h _ _ => h
  | .request r => r.element

/-- What an operation asks of the element that it is about, besides being in the tree. -/
def Granted (t : Tree) (n : Node) : Operation → Prop
  | .request r => r.Granted t n
  | _ => True

variable {t : Tree} {n : Node} {o : Operation}

theorem perform_edit_ok (ht : t.WellFormed) (hn : t.node o.element = .ok n)
    (hgranted : o.Granted t n) : ∃ a s, o.edit.perform t = (.ok a, s) := by
  cases o with
  | add p spec => exact ⟨_, _, Edit.perform_add hn spec⟩
  | remove h => exact ⟨(), _, Edit.perform_remove ht hn⟩
  | setProperty h p v => exact ⟨(), _, Edit.perform_update_ok hn _⟩
  | addGrid h rows columns =>
    obtain ⟨cells, hperform, -⟩ := Edit.perform_addGrid hn rows columns
    exact ⟨cells, _, hperform⟩
  | addTableHeaders h rowNames columnNames =>
    exact ⟨(), _, Edit.perform_addTableHeaders hn rowNames columnNames⟩
  | request r => exact Edit.perform_ofRequest_ok ht hn hgranted

theorem perform_edit_error (hrefused : ¬ ∃ n, t.node o.element = .ok n ∧ o.Granted t n) :
    ∃ e, o.edit.perform t = (.error e, t) := by
  cases hn : t.node o.element with
  | error e =>
    cases o with
    | add p spec => exact ⟨e, Edit.perform_add_error hn spec⟩
    | remove h => exact ⟨e, Edit.perform_remove_error hn⟩
    | setProperty h p v => exact ⟨e, Edit.perform_update_error hn _⟩
    | addGrid h rows columns => exact ⟨e, Edit.perform_addGrid_error hn rows columns⟩
    | addTableHeaders h rowNames columnNames =>
      exact ⟨e, Edit.perform_addTableHeaders_error hn rowNames columnNames⟩
    | request r => exact Edit.perform_ofRequest_error hn
  | ok n =>
    cases o with
    | request r =>
      exact Edit.perform_ofRequest_not_granted hn fun hgranted => hrefused ⟨n, hn, hgranted⟩
    | _ => exact absurd ⟨n, hn, trivial⟩ hrefused

/-- An operation on a tree that can occur succeeds exactly if the element that it is about is in the
tree and grants it, and an operation that fails leaves the tree as it was. -/
theorem apply_eq_of_error (ht : t.Reachable) (o : Operation) :
    ((∃ a, o.result t = .ok a) ↔ ∃ n, t.node o.element = .ok n ∧ o.Granted t n) ∧
      ∀ e, o.result t = .error e → o.apply t = t := by
  rw [result, apply]
  by_cases hgranted : ∃ n, t.node o.element = .ok n ∧ o.Granted t n
  · obtain ⟨n, hn, hgrants⟩ := hgranted
    obtain ⟨a, s, hperform⟩ := perform_edit_ok ht.wellFormed hn hgrants
    rw [hperform]
    refine ⟨⟨fun _ => ⟨n, hn, hgrants⟩, fun _ => ⟨a, rfl⟩⟩, ?_⟩
    rintro e ⟨⟩
  · obtain ⟨e, hperform⟩ := perform_edit_error hgranted
    rw [hperform]
    refine ⟨⟨?_, fun hgrants => absurd hgrants hgranted⟩, fun _ _ => rfl⟩
    rintro ⟨a, ⟨⟩⟩

/-- An element that was removed while it had the focus cannot be typed into any more. -/
theorem apply_sendKeys_removed :
    let t := initial.applyAll
      [.add root ((ElementSpec.ofControlType .edit).withName "Login"), .request (.setFocus 1),
        .request (.sendKeys 1 "a"), .remove 1]
    (Operation.request (.sendKeys 1 "b")).result t = .error (unavailable 1) ∧
      (Operation.request (.sendKeys 1 "b")).apply t = t := by
  intro t
  have herror : (Operation.request (.sendKeys 1 "b")).result t = .error (unavailable 1) := rfl
  exact ⟨herror, (apply_eq_of_error ⟨_, rfl⟩ (.request (.sendKeys 1 "b"))).2 _ herror⟩

end Operation

end Tree

end ElementQuery
