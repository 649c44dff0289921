import ElementQuery.Proofs.Tree.Exclusive
import ElementQuery.Proofs.ValueAccess

/-!
# What a successful write changes

An element may have several capabilities that can be written, and a text is given to the first of
them only. So the others show nothing of a write that succeeds: a value does not reach the legacy
value, typed text does not reach the value. Of the selection more than the written element can
change, since other items are selected or deselected with it, but no element that is not an item is
touched, and of the items nothing but whether they are selected.
-/

namespace ElementQuery

open Dialogue Capability

/-- Holds of a tree before and after that differ in which items are selected and in nothing else. -/
structure Tree.SelectionOnly (t u : Tree) : Prop where
  agree : Tree.Agree Node.unselected u t
  focused : u.focused = t.focused
  others : ∀ x : Handle, t.supports x .selectionItem = false → u.nodes[x]? = t.nodes[x]?

/-- What a text that a capability accepts makes of the tree. -/
def Capability.Effect (c : Capability) (t : Tree) (h : Handle) (v : String) (u : Tree) : Prop :=
  match c with
  | .value => u = t.modify h (Node.mapSpec fun s => { s with value := v })
  | .rangeValue =>
    ∃ number, Binary64.read? (Text.trim v.toList) = some number ∧
      u = t.modify h (Node.mapSpec fun s => { s with range := number })
  | .selection | .selectionItem => t.SelectionOnly u
  | .legacyAccessible => u = t.modify h (Node.mapSpec fun s => { s with legacyValue := v })
  | .structural =>
    u = ({ t with focused := some h }).modify h fun n => { n with typed := n.typed ++ [v] }
  | .text | .toggle => False

variable {t u : Tree} {h : Handle} {n : Node} {v : String} {c : Capability}

/-! ### Selecting -/

namespace Tree

theorem SelectionOnly.refl (t : Tree) : t.SelectionOnly t :=
  ⟨Agree.refl t, rfl, fun _ _ => rfl⟩

theorem ne_of_supports_eq_false {x item : Handle} {p : Pattern} (hx : t.supports x p = false)
    (hitem : t.supports item p = true) : x ≠ item := by
  rintro rfl
  rw [hx] at hitem
  contradiction

theorem selectionOnly_withSelected (hitem : t.supports h .selectionItem = true) (selected : Bool) :
    t.SelectionOnly (t.withSelected selected h) where
  agree := agree_withSelected t selected h
  focused := rfl
  others := fun _ hx => getElem?_withSelected (ne_of_supports_eq_false hx hitem) t selected

theorem selectionOnly_select (ht : t.WellFormed) {first : Handle} {others : List Handle}
    (hitems : ∀ x ∈ first :: others, t.supports x .selectionItem = true) :
    t.SelectionOnly ((t.withOnlySelected first).withAlsoSelected others) where
  agree := (agree_withAlsoSelected _ others).trans (agree_withOnlySelected t first)
  focused := (focused_withAlsoSelected _ others).trans (focused_withOnlySelected t first)
  others := by
    intro x hx
    apply getElem?_select
    · exact fun hmem => ne_of_supports_eq_false hx (hitems x hmem) rfl
    · intro c _ hmem
      exact ne_of_supports_eq_false hx (ht.mem_selectionItems.mp hmem).2 rfl

end Tree

namespace ValueAccess

/-! ### One capability -/

theorem effect_writeRange (hn : t.node h = .ok n)
    (hrun : (writeRange h v).run Tree.provider t = (.ok .success, u)) :
    Capability.rangeValue.Effect t h v u := by
  rw [run_writeRange hn] at hrun
  split at hrun
  · cases hrun
  · next number hnumber =>
    split at hrun
    · cases hrun
    · cases hrun
      exact ⟨number, (Option.filter_eq_some_iff.mp hnumber).1, rfl⟩

theorem selectionOnly_writeSelected (ht : t.WellFormed) (hn : t.node h = .ok n)
    (hitem : n.supports .selectionItem = true)
    (hrun : (writeSelected h v).run Tree.provider t = (.ok .success, u)) : t.SelectionOnly u := by
  have hsupports : t.supports h .selectionItem = true := Tree.supports_iff.mpr ⟨n, hn, hitem⟩
  rw [run_writeSelected hn] at hrun
  split at hrun
  · cases hrun
  · cases hrun
    split
    · exact .refl t
    · split
      · have hselect : t.SelectionOnly ((t.withOnlySelected h).withAlsoSelected []) :=
          Tree.selectionOnly_select ht fun x hx => List.mem_singleton.mp hx ▸ hsupports
        exact hselect
      · exact Tree.selectionOnly_withSelected hsupports false

theorem selectionOnly_writeSelection (ht : t.WellFormed) (hn : t.node h = .ok n)
    (hrun : (writeSelection h v).run Tree.provider t = (.ok .success, u)) : t.SelectionOnly u := by
  rw [run_writeSelection ht hn] at hrun
  split at hrun
  · next hitems =>
    cases hrun
    exact Tree.selectionOnly_select ht fun x hx => (Tree.mem_of_itemsNamed? hitems hx).2
  · cases hrun

theorem effect_writeApplied (ht : t.WellFormed) (hn : t.node h = .ok n)
    (happlies : c.pattern?.all n.supports = true) (htext : c ≠ .text) (htoggle : c ≠ .toggle)
    (hrun : (c.writeApplied h v).run Tree.provider t = (.ok .success, u)) : c.Effect t h v u := by
  cases c with
  | value =>
    rw [writeApplied, run_writeValue hn] at hrun
    split at hrun
    · cases hrun
    · cases hrun
      exact rfl
  | rangeValue => exact effect_writeRange hn hrun
  | text => exact absurd rfl htext
  | toggle => exact absurd rfl htoggle
  | selection => exact selectionOnly_writeSelection ht hn hrun
  | selectionItem =>
    rw [writeApplied] at hrun
    exact selectionOnly_writeSelected ht hn happlies hrun
  | legacyAccessible =>
    simp only [writeApplied, request, ask_bind, done_bind, pure_eq, run, answer_provider,
      Edit.ofRequest, Edit.perform_update, hn] at hrun
    cases hrun
    exact rfl
  | structural =>
    rw [writeApplied, run_typeText hn] at hrun
    split at hrun
    · cases hrun
    · cases hrun
      exact rfl

/-! ### One write -/

theorem run_read_value (hn : t.node h = .ok n) (hvalue : n.supports .value = true) :
    (read h).run Tree.provider t = (.ok (some n.spec.value), t) := by
  rw [read, readOrder, readThrough, run_bind, run_applies hn]
  simp only [pattern?, Option.all_some, hvalue, if_true, Capability.read, request, ask_bind,
    done_bind, pure_eq, run, answer_provider, Edit.ofRequest, Edit.perform_read, hn, Except.map]

theorem run_read_modify_value (hn : t.node h = .ok n) (hvalue : n.supports .value = true)
    (hu : u = t.modify h (Node.mapSpec fun s => { s with value := v })) :
    (read h).run Tree.provider u = (.ok (some v), u) := by
  have hnode : u.node h = .ok (n.mapSpec fun s => { s with value := v }) := by
    rw [hu, Tree.node_modify, if_pos rfl, hn]
    · rfl
    · exact fun _ => rfl
  exact run_read_value hnode hvalue

/-- A write that succeeds keeps everything but values, ranges, selections, legacy values and typed
texts, and changes of these only what belongs to the first capability that the element can be written
through. -/
theorem effect_write (ht : t.Reachable) (hn : t.node h = .ok n)
    (hsuccess : (write h v).result Tree.provider t = .ok .success) :
    let u := (write h v).after Tree.provider t
    Tree.Agree Node.frame u t ∧ (writer n).Effect t h v u ∧
      (writer n = .value → (read h).run Tree.provider u = (.ok (some v), u)) := by
  intro u
  have hwf := ht.wellFormed
  obtain ⟨htext, htoggle⟩ := writer_writable n
  have happlies := writer_applies n
  have hrun : ((writer n).writeApplied h v).run Tree.provider t = (.ok .success, u) := by
    rw [← run_write_eq hwf hn]
    exact Prod.ext hsuccess rfl
  have heffect := effect_writeApplied hwf hn happlies htext htoggle hrun
  refine ⟨(written_write hwf h v).agree, heffect, fun hvalue => ?_⟩
  rw [hvalue] at heffect happlies
  exact run_read_modify_value hn happlies heffect

/-- A field with a value and a legacy value: the first is written and read back, the second stays. -/
theorem effect_write_field :
    let t := Tree.initial.applyAll
      [.add Tree.root (((ElementSpec.ofControlType .edit).withValue "draft").withLegacyValue "old")]
    let u := (write 1 "final").after Tree.provider t
    t.Reachable ∧ t.isLive 1 = true ∧ (write 1 "final").result Tree.provider t = .ok .success ∧
      (u.node 1).map (fun n => n.spec.legacyValue) = .ok "old" ∧
      (read 1).run Tree.provider u = (.ok (some "final"), u) := by
  intro t u
  have hreachable : t.Reachable := ⟨_, rfl⟩
  have hlive : t.isLive 1 = true := by decide +kernel
  have hsuccess : (write 1 "final").result Tree.provider t = .ok .success := by decide +kernel
  obtain ⟨n, hn⟩ := Tree.isLive_iff.mp hlive
  have hwriter : (t.node 1).map writer = .ok .value := by decide +kernel
  rw [hn] at hwriter
  obtain ⟨-, heffect, hread⟩ := effect_write hreachable hn hsuccess
  have hvalue : writer n = .value := Except.ok.inj hwriter
  rw [hvalue] at heffect
  have hu : u = t.modify 1 (Node.mapSpec fun s => { s with value := "final" }) := heffect
  refine ⟨hreachable, hlive, hsuccess, ?_, hread hvalue⟩
  rw [hu]
  decide +kernel

end ValueAccess

end ElementQuery
