import ElementQuery.Proofs.NamedItems

/-!
# Names that select nothing

A container that is written looks its names up one by one, among all elements below it. Not all of
these are items: a label may have the name of the item that it stands next to, and so may a group.
Only of the first element of a name is it asked whether it can be selected. So a write is refused
when there is no item of some name, and also when there is one but it comes after another element of
its name, which hides it.
-/

namespace ElementQuery

open Dialogue

namespace Tree

/-- Holds of the selectable items of a name below a container. -/
structure Offers (t : Tree) (c : Handle) (name : String) (x : Handle) : Prop where
  below : x ∈ t.descendants c
  item : t.supports x .selectionItem = true
  named : t.nameOf? x = some name

/-- Holds of a name whose first element below a container cannot be selected, although there is an
item of that name. -/
def Hidden (t : Tree) (c : Handle) (name : String) : Prop :=
  (∃ x, t.Offers c name x) ∧
    ∃ y, t.firstNamed? c name = some y ∧ t.supports y .selectionItem = false

variable {t : Tree} {c : Handle} {name : String} {names : List String}

theorem offers_of_firstNamed? {x : Handle} (hfirst : t.firstNamed? c name = some x)
    (hitem : t.supports x .selectionItem = true) : t.Offers c name x :=
  ⟨List.mem_of_find?_eq_some hfirst, hitem, nameOf?_of_firstNamed? hfirst⟩

theorem not_offers_of_firstNamed? (hnone : t.firstNamed? c name = none) (x : Handle) :
    ¬ t.Offers c name x := fun hoffers =>
  List.find?_eq_none.mp hnone x hoffers.below (satisfies_name_iff.mpr hoffers.named)

theorem itemNamed?_eq_none_iff :
    t.itemNamed? c name = none ↔ (∀ x, ¬ t.Offers c name x) ∨ t.Hidden c name := by
  show (t.firstNamed? c name).filter (fun x => t.supports x .selectionItem) = none ↔ _
  cases hfirst : t.firstNamed? c name with
  | none => exact iff_of_true rfl (.inl (not_offers_of_firstNamed? hfirst))
  | some y =>
    rw [Option.filter_some]
    cases hitem : t.supports y .selectionItem with
    | true =>
      refine iff_of_false (by simp) ?_
      rintro (hnone | ⟨-, z, hz, hnot⟩)
      · exact hnone y (offers_of_firstNamed? hfirst hitem)
      · obtain rfl := Option.some.inj (hfirst.symm.trans hz)
        rw [hitem] at hnot
        contradiction
    | false =>
      refine iff_of_true rfl ?_
      by_cases hoffered : ∃ x, t.Offers c name x
      · exact .inr ⟨hoffered, y, hfirst, hitem⟩
      · exact .inl (not_exists.mp hoffered)

theorem itemsNamed?_eq_none_iff :
    t.itemsNamed? c names = none ↔ ∃ name ∈ names, t.itemNamed? c name = none := by
  induction names with
  | nil => simp [itemsNamed?]
  | cons name names ih =>
    simp only [List.mem_cons, exists_eq_or_imp, ← ih, itemsNamed?_cons]
    cases t.itemNamed? c name <;> simp

theorem itemsNamed?_eq_nil_iff : t.itemsNamed? c names = some [] ↔ names = [] := by
  constructor
  · intro hitems
    have hmap := map_itemNamed? hitems
    rwa [List.map_nil, List.map_eq_nil_iff] at hmap
  · rintro rfl
    rfl

end Tree

namespace Capability

variable {t : Tree} {c : Handle} {n : Node} {v : String}

/-- A write to a container fails exactly if no name is asked for, or if there is one of which there
is no item or whose items are hidden. Otherwise it succeeds. -/
theorem refuses_write_iff (ht : t.Reachable) (hn : t.node c = .ok n)
    (hcontainer : n.supports .selection = true) (v : String) :
    let names := itemNames n.spec.multipleSelection v
    let result := (selection.write c v).result Tree.provider t
    (result = .ok .failure ↔
      names = [] ∨ ∃ name ∈ names, (∀ x, ¬ t.Offers c name x) ∨ t.Hidden c name) ∧
    (result ≠ .ok .failure → result = .ok .success) := by
  intro names result
  have hrun : result = ((writeSelection c v).run Tree.provider t).1 :=
    congrArg Prod.fst (run_write_selection hn hcontainer v)
  rw [run_writeSelection ht.wellFormed hn] at hrun
  simp only [← Tree.itemNamed?_eq_none_iff, ← Tree.itemsNamed?_eq_none_iff,
    ← Tree.itemsNamed?_eq_nil_iff (t := t) (c := c)]
  cases hitems : t.itemsNamed? c names with
  | none =>
    rw [hitems] at hrun
    simp [hrun]
  | some items =>
    rw [hitems] at hrun
    cases items <;> simp [hrun]

/-- A group has the name of the item inside it, which it hides. -/
theorem refuses_write_group :
    let item := fun name =>
      ((ElementSpec.ofControlType .listItem).withName name).withSelectionItem false
    let t := Tree.initial.applyAll
      [.add Tree.root ((ElementSpec.ofControlType .list).withSelection true),
        .add 1 ((ElementSpec.ofControlType .group).withName "Blue"), .add 2 (item "Blue"),
        .add 1 (item "Red")]
    t.Reachable ∧ t.supports 1 .selection = true ∧ t.Hidden 1 "Blue" ∧
      (selection.write 1 "Red; Blue").result Tree.provider t = .ok .failure ∧
      (selection.write 1 "Red; ").result Tree.provider t = .ok .success := by
  intro item t
  have hreachable : t.Reachable := ⟨_, rfl⟩
  have hcontainer : t.supports 1 .selection = true := by decide +kernel
  have hhidden : t.Hidden 1 "Blue" :=
    ⟨⟨3, by decide +kernel, by decide +kernel, by decide +kernel⟩, 2, by decide +kernel⟩
  have hnode : (t.node 1).map (fun n => (n.supports .selection, n.spec.multipleSelection)) =
      .ok (true, true) := by
    decide +kernel
  obtain ⟨n, hn, hpair⟩ := Tree.node_map_eq_ok_iff.mp hnode
  obtain ⟨hsupports, hmany⟩ := Prod.mk.inj hpair
  have hnamed : "Blue" ∈ itemNames n.spec.multipleSelection "Red; Blue" := by
    rw [hmany]
    decide +kernel
  refine ⟨hreachable, hcontainer, hhidden, ?_, ?_⟩
  · exact (refuses_write_iff hreachable hn hsupports "Red; Blue").1.mpr
      (.inr ⟨"Blue", hnamed, .inr hhidden⟩)
  · refine (refuses_write_iff hreachable hn hsupports "Red; ").2 ?_
    decide +kernel

/-- A label stands before the item of its name, and a write that asks for the item fails. -/
theorem refuses_write_label :
    let t := Tree.initial.applyAll
      [.add Tree.root ((ElementSpec.ofControlType .list).withSelection false),
        .add 1 ((ElementSpec.ofControlType .text).withName "Red"),
        .add 1 (((ElementSpec.ofControlType .listItem).withName "Red").withSelectionItem false)]
    t.Reachable ∧ t.supports 1 .selection = true ∧
      (t.node 1).map (fun n => itemNames n.spec.multipleSelection "Red") = .ok ["Red"] ∧
      t.Offers 1 "Red" 3 ∧ (selection.write 1 "Red").result Tree.provider t = .ok .failure := by
  intro t
  have hoffers : t.Offers 1 "Red" 3 :=
    ⟨by decide +kernel, by decide +kernel, by decide +kernel⟩
  exact ⟨⟨_, rfl⟩, by decide +kernel, by decide +kernel, hoffers, by decide +kernel⟩

end Capability

end ElementQuery
