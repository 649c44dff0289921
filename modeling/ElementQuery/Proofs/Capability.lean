import ElementQuery.Proofs.Tree.Containers
import ElementQuery.Proofs.Tree.Descendants
import ElementQuery.Proofs.Tree.Reachable
import ElementQuery.Proofs.Tree.Selection
import ElementQuery.ValueAccess

/-!
# Writing through a capability

What each capability that is tried for writing does to an element that is in the tree. It makes up
its mind on answers that change nothing, and once it has accepted the text, no request that it makes
can fail any more: so it either succeeds, or it rejects the text and leaves the whole tree alone.
-/

namespace ElementQuery.Capability

open Dialogue Text

variable {t : Tree} {h : Handle} {n : Node} {v : String}

theorem run_writeValue (hn : t.node h = .ok n) (v : String) :
    (writeValue h v).run Tree.provider t =
      if n.spec.valueReadOnly then (.ok .failure, t)
      else (.ok .success, t.modify h (Node.mapSpec fun s => { s with value := v })) := by
  simp only [writeValue, request, ask_bind, done_bind, pure_eq, run, answer_provider,
    Edit.ofRequest, Edit.perform_read, hn, Except.map]
  split
  · rfl
  · simp only [run, answer_provider, Edit.ofRequest, Edit.perform_update, hn]

theorem run_writeRange (hn : t.node h = .ok n) (v : String) :
    (writeRange h v).run Tree.provider t =
      match (Binary64.read? (trim v.toList)).filter Binary64.isFinite with
      | none => (.ok .failure, t)
      | some number =>
        if n.spec.rangeReadOnly || number.less n.spec.rangeMin || n.spec.rangeMax.less number then
          (.ok .failure, t)
        else (.ok .success, t.modify h (Node.mapSpec fun s => { s with range := number })) := by
  rw [writeRange]
  cases (Binary64.read? (trim v.toList)).filter Binary64.isFinite with
  | none => rfl
  | some number =>
    simp only [request, ask_bind, done_bind, pure_eq, run, answer_provider,
      Edit.ofRequest, Edit.perform_read, hn, Except.map]
    cases n.spec.rangeReadOnly with
    | true => rfl
    | false =>
      simp only [Bool.false_eq_true, if_false, run, answer_provider, Edit.ofRequest,
        Edit.perform_read, hn, Except.map, Bool.false_or]
      split
      · rfl
      · simp only [run, answer_provider, Edit.ofRequest, Edit.perform_update, hn]

theorem run_writeSelected (hn : t.node h = .ok n) (v : String) :
    (writeSelected h v).run Tree.provider t =
      match readSelected? v with
      | none => (.ok .failure, t)
      | some wanted =>
        (.ok .success,
          if n.spec.selected == wanted then t
          else if wanted then t.withOnlySelected h else t.withSelected false h) := by
  have hlive : t.isLive h = true := Tree.isLive_iff.mpr ⟨n, hn⟩
  rw [writeSelected]
  cases readSelected? v with
  | none => rfl
  | some wanted =>
    simp only [request, ask_bind, done_bind, pure_eq, run, answer_provider,
      Edit.ofRequest, Edit.perform_read, hn, Except.map]
    cases wanted <;> cases n.spec.selected <;>
      simp [run, answer_provider, Edit.ofRequest, Edit.perform_select hlive,
        Edit.perform_setSelected _ hlive]

theorem run_typeText (hn : t.node h = .ok n) (v : String) :
    (typeText h v).run Tree.provider t =
      if n.spec.properties.get? .isEnabled == some (.boolean false) then (.ok .failure, t)
      else (.ok .success,
        ({ t with focused := some h }).modify h fun n => { n with typed := n.typed ++ [v] }) := by
  have hfocused : ({ t with focused := some h } : Tree).node h = .ok n := hn
  simp only [typeText, request, ask_bind, done_bind, pure_eq, run, answer_provider,
    Edit.ofRequest, Edit.perform_read, hn, Except.map]
  split
  · rfl
  · simp only [run, answer_provider, Edit.ofRequest, Edit.setFocus, Edit.sendKeys,
      Edit.perform_bind, Edit.perform_node, Edit.perform_get, Edit.perform_modify, hn, beq_self_eq_true,
      if_true, Edit.perform_update, hfocused]

/-! ### Selecting items by name -/

theorem run_itemsNamed (ht : t.WellFormed) (hn : t.node h = .ok n) (names : List String) :
    (itemsNamed h names).run Tree.provider t = (.ok (t.itemsNamed? h names), t) := by
  induction names with
  | nil => rfl
  | cons name names ih =>
    have hfind := ht.findFirst_eq hn .descendants (.property .name (.text name))
    simp only [itemsNamed, request, ask_bind, done_bind, pure_eq, run, answer_provider,
      Edit.ofRequest, Edit.perform_bind, Edit.perform_get, Edit.perform_ofExcept, hfind,
      Tree.scopeList, Tree.itemsNamed?_cons, Tree.itemNamed?]
    cases hitem : (t.descendants h).find? (t.satisfies (.property .name (.text name))) with
    | none => rfl
    | some item =>
      obtain ⟨m, hm⟩ := ht.node_of_mem_descendants (List.mem_of_find?_eq_some hitem)
      simp only [run, answer_provider, Edit.ofRequest, Edit.perform_read, hm, Except.map,
        Option.filter_some, Tree.supports_eq hm]
      split
      · rw [run_bind, ih]
        rfl
      · rfl

theorem run_addAll {items : List Handle} (hlive : ∀ x ∈ items, t.isLive x = true) :
    (addAll items).run Tree.provider t = (.ok (), t.withAlsoSelected items) := by
  induction items generalizing t with
  | nil => rfl
  | cons item items ih =>
    simp only [addAll, request, ask_bind, done_bind, run, answer_provider, Edit.ofRequest,
      Edit.perform_setSelected true (hlive item List.mem_cons_self)]
    apply ih
    intro x hx
    rw [Tree.isLive_withSelected]
    exact hlive x (List.mem_cons_of_mem _ hx)

theorem run_writeSelection (ht : t.WellFormed) (hn : t.node h = .ok n) (v : String) :
    (writeSelection h v).run Tree.provider t =
      match t.itemsNamed? h (itemNames n.spec.multipleSelection v) with
      | some (first :: others) =>
        (.ok .success, (t.withOnlySelected first).withAlsoSelected others)
      | _ => (.ok .failure, t) := by
  simp only [writeSelection, request, ask_bind, done_bind, run, answer_provider, Edit.ofRequest,
    Edit.perform_read, hn, Except.map]
  rw [run_bind, run_itemsNamed ht hn]
  cases hitems : t.itemsNamed? h (itemNames n.spec.multipleSelection v) with
  | none => rfl
  | some items =>
    cases items with
    | nil => rfl
    | cons first others =>
      have hlive : ∀ x ∈ first :: others, t.isLive x = true := fun x hx =>
        ht.isLive_of_mem_itemsNamed? hitems hx
      simp only [run, answer_provider, Edit.ofRequest,
        Edit.perform_select (hlive first List.mem_cons_self)]
      rw [run_bind, run_addAll]
      · rfl
      · intro x hx
        rw [Tree.isLive_withOnlySelected]
        exact hlive x (List.mem_cons_of_mem _ hx)

/-! ### Accepting or rejecting a text -/

/-- Holds of a dialogue that either succeeds or fails without having changed the tree. -/
def Settles (d : Dialogue WriteOutcome) (t : Tree) : Prop :=
  (∃ s, d.run Tree.provider t = (.ok .success, s)) ∨ d.run Tree.provider t = (.ok .failure, t)

theorem settles_writeSelection (ht : t.WellFormed) (hn : t.node h = .ok n) (v : String) :
    Settles (writeSelection h v) t := by
  rw [Settles, run_writeSelection ht hn]
  split
  · exact .inl ⟨_, rfl⟩
  · exact .inr rfl

/-- A capability that is tried for writing and applies accepts the text or rejects it. -/
theorem settles_writeApplied (ht : t.WellFormed) (hn : t.node h = .ok n) {c : Capability}
    (htext : c ≠ .text) (htoggle : c ≠ .toggle) (v : String) : Settles (c.writeApplied h v) t := by
  cases c with
  | value =>
    rw [Settles, writeApplied, run_writeValue hn]
    split
    · exact .inr rfl
    · exact .inl ⟨_, rfl⟩
  | rangeValue =>
    rw [Settles, writeApplied, run_writeRange hn]
    split
    · exact .inr rfl
    · split
      · exact .inr rfl
      · exact .inl ⟨_, rfl⟩
  | text => exact absurd rfl htext
  | toggle => exact absurd rfl htoggle
  | selection => exact settles_writeSelection ht hn v
  | selectionItem =>
    rw [Settles, writeApplied, run_writeSelected hn]
    split
    · exact .inr rfl
    · exact .inl ⟨_, rfl⟩
  | legacyAccessible =>
    left
    simp only [writeApplied, request, ask_bind, done_bind, pure_eq, run, answer_provider,
      Edit.ofRequest, Edit.perform_update, hn]
    exact ⟨_, rfl⟩
  | structural =>
    rw [Settles, writeApplied, run_typeText hn]
    split
    · exact .inr rfl
    · exact .inl ⟨_, rfl⟩

end ElementQuery.Capability
