import ElementQuery.Proofs.Provider.Answers
import ElementQuery.Proofs.Tree.Identity
import ElementQuery.Proofs.Tree.Pruning

/-!
# The history of the keyboard

The texts typed into an element are kept with it, and the tree knows which element has the keyboard
focus. Two kinds of request have to do with the keyboard: one gives the focus to an element of the
tree, whichever had it before, and one types into the element that has it. Nothing else changes what
was typed or where the focus is. In particular the focus stays with an element that is removed, into
which nothing can be typed any more.

So over a run the texts typed into an element are those of the requests that succeeded in typing into
it, in their order. Each of them came after a request that gave the element the focus, and no request
in between gave it to any element.
-/

namespace ElementQuery.Tree

/-- The texts typed into an element, whether it is still in the tree or not. -/
def typedAt (t : Tree) (h : Handle) : List String :=
  (t.nodes[h]?.map Node.typed).getD []

/-- Holds of two trees in which the same was typed and the same element has the focus. -/
structure SameKeyboard (s t : Tree) : Prop where
  typed : ∀ h, s.typedAt h = t.typedAt h
  focused : s.focused = t.focused

def Operation.keystrokes (t : Tree) (h : Handle) : Operation → List String
  | .request (.sendKeys element text) =>
    match (Operation.request (.sendKeys element text)).result t with
    | .ok () => if element = h then [text] else []
    | .error _ => []
  | _ => []

def keystrokesAll (t : Tree) (h : Handle) : List Operation → List String
  | [] => []
  | o :: os => o.keystrokes t h ++ keystrokesAll (o.apply t) h os

def Operation.GivesFocus (o : Operation) : Prop :=
  ∃ h, o = .request (.setFocus h)

/-- Holds of a run in which an element was given the focus, and after that no element was. -/
def LastFocused (t : Tree) (h : Handle) (os : List Operation) : Prop :=
  ∃ before after, os = before ++ .request (.setFocus h) :: after ∧
    (Operation.request (.setFocus h)).result (t.applyAll before) = .ok () ∧
    NoneSucceeds Operation.GivesFocus (t.applyAll (before ++ [.request (.setFocus h)])) after

variable {s t u : Tree} {h p : Handle} {n : Node} {o : Operation}

theorem typedAt_eq (hn : t.node h = .ok n) : t.typedAt h = n.typed := by
  rw [typedAt, (node_eq_ok_iff.mp hn).1]
  rfl

/-! ### Changes that do not concern the keyboard -/

namespace SameKeyboard

protected theorem refl (t : Tree) : SameKeyboard t t :=
  ⟨fun _ => rfl, rfl⟩

protected theorem trans (hst : SameKeyboard s t) (htu : SameKeyboard t u) : SameKeyboard s u :=
  ⟨fun h => (hst.typed h).trans (htu.typed h), hst.focused.trans htu.focused⟩

end SameKeyboard

theorem Agree.sameKeyboard (hst : Agree Node.typed s t) (hfocused : s.focused = t.focused) :
    SameKeyboard s t :=
  ⟨fun h => congrArg (fun typed => typed.getD []) (hst h), hfocused⟩

theorem sameKeyboard_modify (t : Tree) (h : Handle) {f : Node → Node}
    (hf : ∀ n, (f n).typed = n.typed) : SameKeyboard (t.modify h f) t :=
  (Agree.modify t h hf).sameKeyboard rfl

theorem sameKeyboard_grow (hp : t.node p = .ok n) (spec : ElementSpec) :
    SameKeyboard (t.grow p spec) t := by
  refine ⟨fun h => ?_, rfl⟩
  rw [typedAt, getElem?_grow hp]
  split
  · next hnew =>
    rw [typedAt, hnew, Array.getElem?_eq_none (Nat.le_refl _)]
    rfl
  · split
    · next hself =>
      rw [hself, typedAt_eq hp]
      rfl
    · rfl

theorem sameKeyboard_growAll (hp : t.node p = .ok n) (specs : List ElementSpec) :
    SameKeyboard (t.growAll p specs) t := by
  induction specs generalizing t n with
  | nil => exact .refl t
  | cons spec specs ih => exact (ih (node_grow_self hp spec)).trans (sameKeyboard_grow hp spec)

theorem sameKeyboard_pruned (t : Tree) (h : Handle) (n : Node) :
    SameKeyboard (t.pruned h n) t := by
  have hunlink : Agree Node.typed (t.unlink h n.parent) t := by
    cases n.parent with
    | none => exact Agree.refl t
    | some p => exact Agree.modify t p fun _ => rfl
  have hmarked : Agree Node.typed (t.pruned h n) (t.unlink h n.parent) := by
    intro x
    rw [pruned, getElem?_marked, Option.map_map]
    congr 1
    funext m
    rw [Function.comp_apply]
    split <;> rfl
  exact (hmarked.trans hunlink).sameKeyboard (focused_pruned t h n)

theorem sameKeyboard_update (t : Tree) (h : Handle) (f : ElementSpec → ElementSpec) :
    SameKeyboard ((Edit.update h (Node.mapSpec f)).perform t).2 t := by
  rw [Edit.perform_update]
  cases t.node h with
  | ok n => exact sameKeyboard_modify t h fun _ => rfl
  | error e => exact .refl t

theorem sameKeyboard_select (t : Tree) (h : Handle) :
    SameKeyboard ((Edit.select h).perform t).2 t := by
  cases hn : t.node h with
  | ok n =>
    rw [Edit.perform_select (isLive_iff.mpr ⟨n, hn⟩)]
    exact ((agree_withOnlySelected t h).map Node.typed).sameKeyboard (focused_withOnlySelected t h)
  | error e =>
    rw [Edit.select, Edit.perform_bind, Edit.perform_node, hn]
    exact .refl t

theorem sameKeyboard_request {r : Request} (hfocus : ∀ h, r ≠ .setFocus h)
    (hkeys : ∀ h text, r ≠ .sendKeys h text) (t : Tree) :
    SameKeyboard ((Edit.ofRequest r).perform t).2 t := by
  have hquestion : r.mutates = false → SameKeyboard ((Edit.ofRequest r).perform t).2 t := by
    intro hr
    rw [Edit.perform_question hr]
    exact .refl t
  cases r with
  | setValue | setRangeValue | toggle | addToSelection | removeFromSelection | setLegacyValue =>
    exact sameKeyboard_update t _ _
  | select h => exact sameKeyboard_select t h
  | setFocus h => exact absurd rfl (hfocus h)
  | sendKeys h text => exact absurd rfl (hkeys h text)
  | _ => exact hquestion rfl

theorem Operation.Effect.sameKeyboard (heffect : o.Effect t s)
    (hproperty : ∀ h p v, o ≠ .setProperty h p v) (hrequest : ∀ r, o ≠ .request r) :
    SameKeyboard s t := by
  cases heffect with
  | failed => exact .refl _
  | add hp => exact sameKeyboard_grow hp _
  | remove => exact sameKeyboard_pruned _ _ _
  | setProperty => exact absurd rfl (hproperty _ _ _)
  | addGrid hn | addTableHeaders hn =>
    refine SameKeyboard.trans (sameKeyboard_modify _ _ ?_) (sameKeyboard_growAll hn _)
    exact fun _ => rfl
  | request => exact absurd rfl (hrequest _)

/-- Only two kinds of request have to do with the keyboard. -/
theorem sameKeyboard_apply (ht : t.WellFormed) (hfocus : ¬ o.GivesFocus)
    (hkeys : ∀ h text, o ≠ .request (.sendKeys h text)) : SameKeyboard (o.apply t) t := by
  cases o with
  | setProperty h p v => exact sameKeyboard_update t h _
  | request r =>
    apply sameKeyboard_request
    · rintro h rfl
      exact hfocus ⟨h, rfl⟩
    · rintro h text rfl
      exact hkeys h text rfl
  | _ => exact (Operation.effect ht _).sameKeyboard (by simp) (by simp)

/-! ### The keyboard -/

theorem setFocus_cases (t : Tree) (h : Handle) :
    ((Operation.request (.setFocus h)).result t = .ok () ∧
      (Operation.request (.setFocus h)).apply t = { t with focused := some h }) ∨
    ((∃ e, (Operation.request (.setFocus h)).result t = .error e) ∧
      (Operation.request (.setFocus h)).apply t = t) := by
  rw [Operation.result, Operation.apply, Operation.edit, Edit.ofRequest, Edit.setFocus,
    Edit.perform_bind, Edit.perform_node]
  cases t.node h with
  | ok n => exact .inl ⟨rfl, rfl⟩
  | error e => exact .inr ⟨⟨e, rfl⟩, rfl⟩

theorem sendKeys_cases (t : Tree) (h : Handle) (text : String) :
    ((Operation.request (.sendKeys h text)).result t = .ok () ∧
      (∃ n, t.node h = .ok n) ∧ t.focused = some h ∧
      (Operation.request (.sendKeys h text)).apply t =
        t.modify h fun n => { n with typed := n.typed ++ [text] }) ∨
    ((∃ e, (Operation.request (.sendKeys h text)).result t = .error e) ∧
      (Operation.request (.sendKeys h text)).apply t = t) := by
  rw [Operation.result, Operation.apply, Operation.edit, Edit.ofRequest]
  by_cases hfocus : t.focused = some h
  · rw [Edit.perform_sendKeys_focused hfocus, Edit.perform_update]
    cases hn : t.node h with
    | ok n => exact .inl ⟨rfl, ⟨n, rfl⟩, hfocus, rfl⟩
    | error e => exact .inr ⟨⟨e, rfl⟩, rfl⟩
  · obtain ⟨e, herror⟩ := Edit.perform_sendKeys_unfocused hfocus text
    rw [herror]
    exact .inr ⟨⟨e, rfl⟩, rfl⟩

theorem typedAt_modify_typed (hn : t.node p = .ok n) (text : String) (h : Handle) :
    (t.modify p fun n => { n with typed := n.typed ++ [text] }).typedAt h =
      t.typedAt h ++ if p = h then [text] else [] := by
  rw [typedAt, getElem?_modify]
  split
  · next hself =>
    rw [← hself, typedAt_eq hn, (node_eq_ok_iff.mp hn).1]
    rfl
  · exact (List.append_nil _).symm

theorem typedAt_sendKeys (t : Tree) (p : Handle) (text : String) (h : Handle) :
    ((Operation.request (.sendKeys p text)).apply t).typedAt h =
      t.typedAt h ++ (Operation.request (.sendKeys p text)).keystrokes t h := by
  rcases sendKeys_cases t p text with ⟨hresult, ⟨n, hn⟩, -, happly⟩ | ⟨⟨e, hresult⟩, happly⟩
  · rw [happly, typedAt_modify_typed hn]
    simp only [Operation.keystrokes, hresult]
  · rw [happly]
    simp only [Operation.keystrokes, hresult, List.append_nil]

theorem Operation.keystrokes_eq_nil (hkeys : ∀ e text, o ≠ .request (.sendKeys e text)) (t : Tree)
    (h : Handle) : o.keystrokes t h = [] := by
  cases o with
  | request r =>
    cases r with
    | sendKeys e text => exact absurd rfl (hkeys e text)
    | _ => rfl
  | _ => rfl

/-- An operation adds to the texts of an element what it types into it. -/
theorem typedAt_apply (ht : t.WellFormed) (o : Operation) (h : Handle) :
    (o.apply t).typedAt h = t.typedAt h ++ o.keystrokes t h := by
  by_cases hkeys : ∃ e text, o = .request (.sendKeys e text)
  · obtain ⟨e, text, rfl⟩ := hkeys
    exact typedAt_sendKeys t e text h
  · push Not at hkeys
    rw [Operation.keystrokes_eq_nil hkeys, List.append_nil]
    by_cases hgives : o.GivesFocus
    · obtain ⟨e, rfl⟩ := hgives
      rcases setFocus_cases t e with ⟨-, happly⟩ | ⟨-, happly⟩
      · rw [happly]
        rfl
      · rw [happly]
    · exact (sameKeyboard_apply ht hgives hkeys).typed h

/-- An operation leaves the focus where it is unless it succeeds in giving it to an element. -/
theorem focused_apply_cases (ht : t.WellFormed) (o : Operation) :
    (∃ h, o = .request (.setFocus h) ∧ (Operation.request (.setFocus h)).result t = .ok () ∧
      (o.apply t).focused = some h) ∨
    ((o.GivesFocus → ∀ a, o.result t ≠ .ok a) ∧ (o.apply t).focused = t.focused) := by
  by_cases hgives : o.GivesFocus
  · obtain ⟨h, rfl⟩ := hgives
    rcases setFocus_cases t h with ⟨hresult, happly⟩ | ⟨⟨e, hresult⟩, happly⟩
    · exact .inl ⟨h, rfl, hresult, by rw [happly]⟩
    · refine .inr ⟨fun _ a ha => ?_, by rw [happly]⟩
      rw [hresult] at ha
      contradiction
  · refine .inr ⟨fun hfocus => absurd hfocus hgives, ?_⟩
    by_cases hkeys : ∃ h text, o = .request (.sendKeys h text)
    · obtain ⟨h, text, rfl⟩ := hkeys
      rcases sendKeys_cases t h text with ⟨-, -, -, happly⟩ | ⟨-, happly⟩
      · rw [happly]
        rfl
      · rw [happly]
    · push Not at hkeys
      exact (sameKeyboard_apply ht hgives hkeys).focused

/-! ### Runs -/

section Runs

variable {os : List Operation}

theorem typedAt_applyAll (ht : t.WellFormed) (os : List Operation) (h : Handle) :
    (t.applyAll os).typedAt h = t.typedAt h ++ t.keystrokesAll h os := by
  induction os generalizing t with
  | nil => exact (List.append_nil _).symm
  | cons o os ih =>
    rw [keystrokesAll, ← List.append_assoc, ← typedAt_apply ht]
    exact ih (ht.apply o)

theorem typedAt_added (ht : t.WellFormed) {o : Operation} (hadded : h ∈ o.added t) :
    (o.apply t).typedAt h = [] := by
  have hfresh : t.nodes.size ≤ h := by
    have hnodup : (List.range t.nodes.size ++ o.added t).Nodup := by
      rw [range_append_added ht]
      exact List.nodup_range
    by_contra hold
    have hmem : h ∈ List.range t.nodes.size := List.mem_range.mpr (Nat.not_le.mp hold)
    exact (List.nodup_append.mp hnodup).2.2 h hmem h hadded rfl
  have hkeys : ∀ e text, o ≠ .request (.sendKeys e text) := by
    rintro e text rfl
    contradiction
  rw [typedAt_apply ht, Operation.keystrokes_eq_nil hkeys, typedAt, Array.getElem?_eq_none hfresh]
  rfl

theorem typedAt_of_added (ht : t.WellFormed) {before after : List Operation} {o : Operation}
    (hadded : h ∈ o.added (t.applyAll before)) :
    (t.applyAll (before ++ o :: after)).typedAt h =
      (t.applyAll (before ++ [o])).keystrokesAll h after := by
  have hstep : t.applyAll (before ++ [o]) = o.apply (t.applyAll before) := applyAll_append t before [o]
  have hbefore := ht.applyAll before
  rw [List.append_cons, applyAll_append, hstep, typedAt_applyAll (hbefore.apply o),
    typedAt_added hbefore hadded, List.nil_append]

theorem typedAt_initial (h : Handle) : initial.typedAt h = [] := by
  cases h <;> rfl

/-- The element that has the focus had it before the run, or was the last that was given it. -/
theorem focused_applyAll (ht : t.WellFormed) (hfocused : (t.applyAll os).focused = some h) :
    (t.focused = some h ∧ NoneSucceeds Operation.GivesFocus t os) ∨ t.LastFocused h os := by
  induction os generalizing t with
  | nil => exact .inl ⟨hfocused, noneSucceeds_of_forall (by simp)⟩
  | cons o os ih =>
    rcases ih (ht.apply o) hfocused with ⟨hlater, hnone⟩ | ⟨before, after, rfl, hresult, hnone⟩
    · rcases focused_apply_cases ht o with ⟨e, rfl, hresult, hgiven⟩ | ⟨hfails, hsame⟩
      · obtain rfl := Option.some.inj (hgiven.symm.trans hlater)
        exact .inr ⟨[], os, rfl, hresult, hnone⟩
      · exact .inl ⟨hsame.symm.trans hlater, hnone.cons hfails⟩
    · exact .inr ⟨o :: before, after, rfl, hresult, hnone⟩

/-- Text can be typed only into an element of the tree that was the last to be given the focus. -/
theorem lastFocused_of_sendKeys {text : String}
    (hresult : (Operation.request (.sendKeys h text)).result (initial.applyAll os) = .ok ()) :
    (initial.applyAll os).isLive h = true ∧ initial.LastFocused h os := by
  rcases sendKeys_cases (initial.applyAll os) h text with ⟨-, hlive, hfocused, -⟩ | ⟨⟨e, herror⟩, -⟩
  · refine ⟨isLive_iff.mpr hlive, ?_⟩
    refine (focused_applyAll wellFormed_initial hfocused).resolve_left fun hbefore => ?_
    exact absurd hbefore.1 (Option.some_ne_none h).symm
  · rw [herror] at hresult
    contradiction

end Runs

end ElementQuery.Tree
