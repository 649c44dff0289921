import ElementQuery.Proofs.Tree.Requests
import ElementQuery.Search

/-!
# Failures that are no mistake of the caller

A tree fails a request because the element is not available, because it is no grid or because it does
not have the keyboard focus. None of these is a usage error, whatever the state of the tree is, and
neither is what a dialogue adds when it requires an element and finds none. So a dialogue with a tree
ends with a usage error only if it brings the error along itself. Since this is a fact about single
answers, it does not matter what happens to the tree between two requests.
-/

namespace ElementQuery

/-! ### Changes of a tree -/

namespace Edit

variable {α β : Type}

/-- Holds of a change that never fails with a usage error. -/
def Blameless (edit : Edit α) : Prop :=
  ∀ (t : Tree) (e : Error), (edit.perform t).1 = .error e → e.isUsage = false

theorem blameless_pure (a : α) : Blameless (pure a : Edit α) := nofun

theorem blameless_bind {x : Edit α} {f : α → Edit β} (hx : Blameless x)
    (hf : ∀ a, Blameless (f a)) : Blameless (x >>= f) := by
  intro t e he
  rw [perform_bind] at he
  rcases hperform : x.perform t with ⟨e' | a, s⟩ <;> rw [hperform] at he
  · obtain rfl := Except.error.inj he
    exact hx t e' (congrArg Prod.fst hperform)
  · exact hf a s e he

theorem blameless_get {f : Tree → Edit α} (hf : ∀ t, Blameless (f t)) :
    Blameless (get >>= f) :=
  blameless_bind (fun _ _ he => nomatch he) hf

theorem isUsage_of_node {t : Tree} {h : Handle} {e : Error} (he : t.node h = .error e) :
    e.isUsage = false := by
  rw [Tree.node.eq_def] at he
  split at he
  · split at he
    · obtain rfl := Except.error.inj he
      rfl
    · contradiction
  · obtain rfl := Except.error.inj he
    rfl

theorem blameless_node (h : Handle) : Blameless (node h) := by
  intro t e he
  rw [perform_node] at he
  exact isUsage_of_node he

theorem blameless_update (h : Handle) (f : Node → Node) : Blameless (update h f) :=
  blameless_bind (blameless_node h) fun _ _ _ he => nomatch he

theorem blameless_grid (h : Handle) : Blameless (grid h) := by
  apply blameless_bind (blameless_node h)
  intro n t e he
  split at he
  · nomatch he
  · obtain rfl := Except.error.inj he
    rfl

theorem blameless_ofExcept {f : Tree → Except Error α}
    (hf : ∀ t e, f t = .error e → e.isUsage = false) :
    Blameless (do ofExcept (f (← get)) : Edit α) := by
  apply blameless_get
  intro t s e he
  rw [perform_ofExcept] at he
  exact hf t e he

theorem isUsage_of_searchFirst {t : Tree} {c : Condition} {steps : Nat} {stack : List Handle}
    {e : Error} (he : t.searchFirst c steps stack = .error e) : e.isUsage = false := by
  induction steps generalizing stack with
  | zero => cases stack <;> nomatch he
  | succ steps ih =>
    cases stack with
    | nil => nomatch he
    | cons h stack =>
      rw [Tree.searchFirst] at he
      split at he
      · nomatch he
      · cases hn : t.node h with
        | error e' =>
          rw [hn] at he
          obtain rfl := Except.error.inj he
          exact isUsage_of_node hn
        | ok n =>
          rw [hn] at he
          exact ih he

theorem isUsage_of_findFirst {t : Tree} {start : Handle} {scope : Scope} {c : Condition} {e : Error}
    (he : t.findFirst start scope c = .error e) : e.isUsage = false := by
  rw [Tree.findFirst.eq_def, Tree.firstDescendant] at he
  cases hn : t.node start with
  | error e' =>
    rw [hn] at he
    obtain rfl : e' = e := by cases scope <;> exact Except.error.inj he
    exact isUsage_of_node hn
  | ok n =>
    rw [hn] at he
    cases scope with
    | element | children => nomatch he
    | descendants => exact isUsage_of_searchFirst he

theorem isUsage_of_selectedItems {t : Tree} {h : Handle} {e : Error}
    (he : t.selectedItems h = .error e) : e.isUsage = false := by
  rw [Tree.selectedItems] at he
  cases hn : t.node h with
  | error e' =>
    rw [hn] at he
    obtain rfl := Except.error.inj he
    exact isUsage_of_node hn
  | ok n =>
    rw [hn] at he
    nomatch he

theorem blameless_deselectAll (items : List Handle) : Blameless (deselectAll items) := by
  induction items with
  | nil => exact blameless_pure ()
  | cons item items ih => exact blameless_bind (blameless_update item _) fun _ => ih

theorem blameless_select (h : Handle) : Blameless (select h) := by
  apply blameless_bind (blameless_node h)
  intro n
  apply blameless_get
  intro t
  cases t.selectionContainer h with
  | none => exact blameless_update h _
  | some container =>
    apply blameless_get
    intro t
    exact blameless_bind (blameless_deselectAll _) fun _ => blameless_update h _

theorem blameless_sendKeys (h : Handle) (text : String) : Blameless (sendKeys h text) := by
  apply blameless_get
  intro t
  split
  · exact blameless_update h _
  · intro s e he
    obtain rfl := Except.error.inj he
    rfl

theorem blameless_ofRequest (r : Request) : Blameless (ofRequest r) := by
  cases r with
  | findFirst => exact blameless_ofExcept fun _ _ => isUsage_of_findFirst
  | selectedItems => exact blameless_ofExcept fun _ _ => isUsage_of_selectedItems
  | property | parent | supports | value | isValueReadOnly | rangeValue | rangeBounds
  | isRangeReadOnly | text | toggleState | canSelectMultiple | isSelected | legacyValue =>
    exact blameless_bind (blameless_node _) fun _ => blameless_pure _
  | setValue | setRangeValue | toggle | addToSelection | removeFromSelection | setLegacyValue =>
    exact blameless_update _ _
  | rowCount | columnCount | gridItem | rowHeaders | columnHeaders =>
    exact blameless_bind (blameless_grid _) fun _ => blameless_pure _
  | select h => exact blameless_select h
  | setFocus h => exact blameless_bind (blameless_node h) fun _ _ _ he => nomatch he
  | sendKeys h text => exact blameless_sendKeys h text

end Edit

/-! ### Dialogues -/

/-- Holds of a provider that never answers with a usage error. -/
def Provider.Blameless {σ : Type} (p : Provider σ) : Prop :=
  ∀ (r : Request) (s : σ) (e : Error), (p.answer r s).1 = .error e → e.isUsage = false

theorem Tree.blameless_provider : Tree.provider.Blameless :=
  fun r t e he => Edit.blameless_ofRequest r t e he

theorem Provider.Blameless.within {σ τ : Type} {p : Provider σ} (hp : p.Blameless) (get : τ → σ)
    (set : σ → τ → τ) : (p.within get set).Blameless :=
  fun r w e he => hp r (get w) e he

namespace Dialogue

variable {α β σ : Type} {p : Provider σ} {d : Dialogue α} {s : σ} {e : Error}

/-- Holds of a dialogue that brings no usage error along. -/
def Blameless : Dialogue α → Prop
  | .done _ => True
  | .fail e => e.isUsage = false
  | .ask _ next => ∀ answer, Blameless (next answer)

theorem blameless_request (r : Request) : Blameless (request r) := fun _ => trivial

theorem Blameless.bind {f : α → Dialogue β} (hd : d.Blameless) (hf : ∀ a, (f a).Blameless) :
    (d >>= f).Blameless := by
  induction d with
  | done a => exact hf a
  | fail e => exact hd
  | ask r next ih => exact fun answer => ih answer (hd answer)

/-- A dialogue that brings no usage error along gets none from a provider that answers with none. -/
theorem Blameless.isUsage_of_result (hp : p.Blameless) (hd : d.Blameless)
    (he : d.result p s = .error e) : e.isUsage = false := by
  rw [result] at he
  induction d generalizing s with
  | done a => nomatch he
  | fail e' =>
    obtain rfl := Except.error.inj he
    exact hd
  | ask r next ih =>
    rw [run] at he
    rcases hanswer : p.answer r s with ⟨e' | answer, s'⟩ <;> rw [hanswer] at he
    · obtain rfl := Except.error.inj he
      exact hp r s e' (congrArg Prod.fst hanswer)
    · exact ih answer (hd answer) he

end Dialogue

namespace Search

open Dialogue

theorem blameless_resolve (grid : Handle) (address : GridAddress) :
    (resolve grid address).Blameless := by
  cases address with
  | cell row column =>
    apply (blameless_request _).bind
    rintro (_ | _)
    · trivial
    simp only [Bool.not_true, Bool.false_eq_true, if_false]
    split
    · trivial
    · apply (blameless_request _).bind
      intro rows
      split
      · trivial
      · apply (blameless_request _).bind
        intro columns
        split
        · trivial
        · exact blameless_request _
  | row number | column number =>
    apply (blameless_request _).bind
    rintro (_ | _)
    · trivial
    · exact (blameless_request _).bind fun _ => trivial

theorem blameless_follow (found anchor : Handle) (address : Option GridAddress) :
    (follow found anchor address).Blameless := by
  cases address with
  | none => trivial
  | some a => exact (blameless_resolve found a).bind fun _ => trivial

end Search

end ElementQuery
