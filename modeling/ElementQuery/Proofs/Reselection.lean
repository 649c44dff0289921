import ElementQuery.Proofs.NamedItems
import ElementQuery.Proofs.Text.Character
import ElementQuery.Proofs.Text.Split
import Mathlib.Data.List.Infix

/-!
# Selecting what is selected

A container is read as the names of its selected items, with a semicolon and a blank between them,
and it is written by names with semicolons between them, around which white space does not matter.
So where many items may be selected, the text that is read comes apart again into the names that it
was made of, provided that they can be listed: a name that is empty, that has white space at its
ends or that has a semicolon in it would be lost or torn.

If each name stands for the item that it was read from, then writing that text selects the items
that are selected already. The container is cleared on the way, with everything that is selected
below it, but those are the items that were read, and what is marked as selected without being an
item is passed over. So the whole tree is after the write as it was before.
-/

namespace ElementQuery

open Dialogue Text

/-! ### Reading the names and taking them apart -/

namespace Capability

/-- Holds of a name that can be listed with others and found again. -/
structure Listable (name : String) : Prop where
  nonempty : name ≠ ""
  isTrimmed : IsTrimmed name.toList
  single : separator ∉ name.toList

variable {names : List String}

/-- In the list of several names, the blank after a separator can be taken as part of the name. -/
theorem toList_intercalate_separator (name : String) (names : List String) :
    ((String.ofList [separator, ' ']).intercalate (name :: names)).toList =
      joinWith [separator] (name.toList :: names.map fun name => ' ' :: name.toList) := by
  induction names generalizing name with
  | nil => rw [String.intercalate_singleton, List.map_nil, joinWith]
  | cons next names ih =>
    have hblank := joinWith_cons_append [separator] [' '] next.toList
      (names.map fun name => ' ' :: name.toList)
    calc ((String.ofList [separator, ' ']).intercalate (name :: next :: names)).toList
      _ = name.toList ++ [separator] ++
          ([' '] ++ joinWith [separator]
            (next.toList :: names.map fun name => ' ' :: name.toList)) := by
        rw [String.intercalate_cons_cons, String.toList_append, String.toList_append, ih,
          String.toList_ofList]
        simp
      _ = joinWith [separator]
          (name.toList :: (next :: names).map fun name => ' ' :: name.toList) := by
        rw [← hblank]
        rfl

/-- Names that are joined for reading are the ones that are taken apart for writing. -/
theorem itemNames_intercalate (hnames : ∀ name ∈ names, Listable name) :
    itemNames true ((String.ofList [separator, ' ']).intercalate names) = names := by
  cases names with
  | nil => rfl
  | cons name names =>
    have hsplit : splitAt [separator]
        (joinWith [separator] (name.toList :: names.map fun name => ' ' :: name.toList)) =
          name.toList :: names.map fun name => ' ' :: name.toList := by
      apply splitAt_joinWith (List.cons_ne_nil _ _)
      intro piece hpiece
      rw [List.dropLast_singleton, List.append_nil, List.singleton_infix_iff]
      rcases List.mem_cons.mp hpiece with rfl | hpiece
      · exact (hnames name List.mem_cons_self).single
      · obtain ⟨next, hnext, rfl⟩ := List.mem_map.mp hpiece
        rw [List.mem_cons, not_or]
        exact ⟨by decide, (hnames next (List.mem_cons_of_mem _ hnext)).single⟩
    have htrim : (name.toList :: names.map fun name => ' ' :: name.toList).map trim =
        (name :: names).map String.toList := by
      rw [List.map_cons, List.map_cons, List.map_map, (hnames name List.mem_cons_self).isTrimmed.trim_eq]
      refine congrArg _ (List.map_congr_left fun next hnext => ?_)
      rw [Function.comp_apply, trim_cons_of_blank (by decide),
        (hnames next (List.mem_cons_of_mem _ hnext)).isTrimmed.trim_eq]
    have hnonempty : ((name :: names).map String.toList).filter (fun cs => !cs.isEmpty) =
        (name :: names).map String.toList := by
      rw [List.filter_eq_self]
      intro cs hcs
      obtain ⟨next, hnext, rfl⟩ := List.mem_map.mp hcs
      have hne := (hnames next hnext).nonempty
      simpa using hne
    rw [itemNames, if_pos rfl, toList_intercalate_separator, hsplit, htrim, hnonempty,
      List.map_map]
    simp [Function.comp_def]

end Capability

/-! ### Selecting again -/

theorem Node.eq_of_unselected {m n : Node} (hunselected : m.unselected = n.unselected)
    (hselected : m.spec.selected = n.spec.selected) : m = n := by
  calc m
    _ = m.unselected.mapSpec fun s => { s with selected := m.spec.selected } := rfl
    _ = n.unselected.mapSpec fun s => { s with selected := n.spec.selected } := by
      rw [hunselected, hselected]
    _ = n := rfl

namespace Tree

variable {s t : Tree} {c x first : Handle} {n : Node} {items others : List Handle}

/-- An element that is in two trees is the same if it is so apart from being selected, and it is
selected in both or in neither. -/
theorem Agree.getElem?_eq_of_unselected (hst : Agree Node.unselected s t)
    (hlive : t.isLive x = true) (hselected : s.isSelected x = t.isSelected x) :
    s.nodes[x]? = t.nodes[x]? := by
  obtain ⟨n, hn⟩ := isLive_iff.mp hlive
  obtain ⟨m, hm⟩ := isLive_iff.mp ((hst.isLive_of_unselected x).trans hlive)
  have hget := (node_eq_ok_iff.mp hn).1
  have hget' := (node_eq_ok_iff.mp hm).1
  have hunselected : m.unselected = n.unselected := by
    simpa [hget, hget'] using hst x
  have hflag : m.spec.selected = n.spec.selected := by
    simpa only [isSelected, hm, hn] using hselected
  rw [hget, hget', Node.eq_of_unselected hunselected hflag]

namespace WellFormed

theorem mem_selectedItems_iff (ht : t.WellFormed) (hn : t.node c = .ok n)
    (hselected : t.selectedItems c = .ok items) :
    x ∈ items ↔ x ∈ t.selectionItems c ∧ t.isSelected x = true := by
  rw [ht.selectedItems_eq hn, Except.ok.injEq] at hselected
  rw [← hselected, ht.mem_selectionItems, List.mem_filter, Bool.and_eq_true, ← and_assoc,
    and_right_comm]

/-- Selecting all items that are selected below a container changes nothing, if the first of them
belongs to the container. -/
theorem select_eq_self (ht : t.WellFormed) (hn : t.node c = .ok n)
    (hselected : t.selectedItems c = .ok (first :: others)) (hnearest : t.Nearest first c) :
    (t.withOnlySelected first).withAlsoSelected others = t := by
  have hitems : ∀ x, x ∈ first :: others ↔ x ∈ t.selectionItems c ∧ t.isSelected x = true :=
    fun x => ht.mem_selectedItems_iff hn hselected
  have hagree : Agree Node.unselected ((t.withOnlySelected first).withAlsoSelected others) t :=
    (agree_withAlsoSelected _ others).trans (agree_withOnlySelected t first)
  have hlive : ∀ x ∈ first :: others, t.isLive x = true := fun x hx =>
    isLive_of_mem_selectionItems ((hitems x).mp hx).1
  refine ext_of_getElem? (fun x => ?_)
    ((focused_withAlsoSelected _ others).trans (focused_withOnlySelected t first))
  by_cases hx : x ∈ t.selectionItems c
  · apply hagree.getElem?_eq_of_unselected (isLive_of_mem_selectionItems hx)
    rw [Bool.eq_iff_iff, isSelected_select ht hlive, hitems]
    constructor
    · rintro (⟨-, hsel⟩ | hstays)
      · exact hsel
      · exact hstays.1
    · exact fun hsel => .inl ⟨hx, hsel⟩
  · apply getElem?_select
    · exact fun hasked => hx ((hitems x).mp hasked).1
    · intro d hd
      obtain rfl := ht.nearest_unique hnearest (ht.selectionContainer_eq_some_iff.mp hd)
      exact hx

end WellFormed

theorem itemsNamed?_filterMap_nameOf? (hitems : ∀ x ∈ items, t.supports x .selectionItem = true)
    (hnames : ∀ x ∈ items, ∃ name, t.firstNamed? c name = some x) :
    t.itemsNamed? c (items.filterMap t.nameOf?) = some items := by
  induction items with
  | nil => rfl
  | cons x items ih =>
    obtain ⟨name, hfirst⟩ := hnames x List.mem_cons_self
    have hitem : t.itemNamed? c name = some x :=
      Option.filter_eq_some_iff.mpr ⟨hfirst, hitems x List.mem_cons_self⟩
    rw [List.filterMap_cons_some (nameOf?_of_firstNamed? hfirst), itemsNamed?_cons, hitem,
      ih (fun y hy => hitems y (List.mem_cons_of_mem _ hy))
        fun y hy => hnames y (List.mem_cons_of_mem _ hy)]
    rfl

end Tree

namespace Capability

variable {t : Tree} {c h first : Handle} {n : Node} {items others : List Handle}

theorem run_elementName (hn : t.node h = .ok n) :
    (elementName h).run Tree.provider t = (.ok (t.nameOf? h), t) := by
  simp only [elementName, request, ask_bind, done_bind, pure_eq, run, answer_provider,
    Edit.ofRequest, Edit.perform_read, hn, Except.map, Tree.nameOf?]

theorem run_namesOf (hlive : ∀ x ∈ items, t.isLive x = true) :
    (namesOf items).run Tree.provider t = (.ok (items.filterMap t.nameOf?), t) := by
  induction items with
  | nil => rfl
  | cons x items ih =>
    obtain ⟨n, hn⟩ := Tree.isLive_iff.mp (hlive x List.mem_cons_self)
    rw [namesOf, run_bind, run_elementName hn]
    simp only
    rw [run_bind, ih fun y hy => hlive y (List.mem_cons_of_mem _ hy), List.filterMap_cons]
    cases t.nameOf? x <;> rfl

theorem run_read_selection (hselected : t.selectedItems c = .ok items)
    (hlive : ∀ x ∈ items, t.isLive x = true) :
    (selection.read c).run Tree.provider t =
      (.ok (some ((String.ofList [separator, ' ']).intercalate (items.filterMap t.nameOf?))), t) := by
  have hnames : (selectedNames c).run Tree.provider t =
      (.ok ((String.ofList [separator, ' ']).intercalate (items.filterMap t.nameOf?)), t) := by
    simp only [selectedNames, request, ask_bind, done_bind, run, answer_selectedItems, hselected]
    rw [run_bind, run_namesOf hlive]
    rfl
  rw [read, run_bind, hnames]
  rfl

/-- The text that is read from a container of many selected items can be written to it, and nothing
changes. The names must be fit to be listed, each must stand for the item that has it, and the
container must be the nearest of the first item. -/
theorem write_read_selection (ht : t.Reachable) (hn : t.node c = .ok n)
    (hcontainer : n.supports .selection = true) (hmultiple : n.spec.multipleSelection = true)
    (hselected : t.selectedItems c = .ok (first :: others))
    (hnames : ∀ x ∈ first :: others, ∃ name, t.firstNamed? c name = some x ∧ Listable name)
    (hnearest : t.Nearest first c) :
    ∃ s, (selection.read c).run Tree.provider t = (.ok (some s), t) ∧
      (selection.write c s).run Tree.provider t = (.ok .success, t) := by
  have hwf := ht.wellFormed
  have hitems : ∀ x ∈ first :: others, x ∈ t.selectionItems c := fun x hx =>
    ((hwf.mem_selectedItems_iff hn hselected).mp hx).1
  refine ⟨_, run_read_selection hselected fun x hx =>
    Tree.isLive_of_mem_selectionItems (hitems x hx), ?_⟩
  have hlistable : ∀ name ∈ (first :: others).filterMap t.nameOf?, Listable name := by
    intro name hname
    obtain ⟨x, hx, hnamed⟩ := List.mem_filterMap.mp hname
    obtain ⟨name', hfirst, hlistable⟩ := hnames x hx
    obtain rfl := Option.some.inj (hnamed.symm.trans (Tree.nameOf?_of_firstNamed? hfirst))
    exact hlistable
  have hfound : t.itemsNamed? c ((first :: others).filterMap t.nameOf?) = some (first :: others) := by
    apply Tree.itemsNamed?_filterMap_nameOf?
    · exact fun x hx => (hwf.mem_selectionItems.mp (hitems x hx)).2
    · exact fun x hx => (hnames x hx).imp fun _ => And.left
  rw [run_write_selection hn hcontainer, run_writeSelection hwf hn, hmultiple,
    itemNames_intercalate hlistable, hfound]
  simp only [hwf.select_eq_self hn hselected hnearest]

/-- An item inside a group and one inside a second list are selected. A label between them is marked
as selected too, and it stays so. -/
theorem write_read_selection_nested :
    let item := fun name selected =>
      ((ElementSpec.ofControlType .listItem).withName name).withSelectionItem selected
    let t := Tree.initial.applyAll
      [.add Tree.root ((ElementSpec.ofControlType .list).withSelection true),
        .add 1 (.ofControlType .group), .add 2 (item "Light green" true),
        .add 1 ((ElementSpec.ofControlType .text).withName "Blue, too"),
        .add 1 ((ElementSpec.ofControlType .list).withSelection false), .add 5 (item "Blue" true),
        .add 1 (item "Red" false), .request (.addToSelection 4)]
    t.Reachable ∧ t.supports 1 .selection = true ∧ t.isSelected 4 = true ∧
      t.selectedItems 1 = .ok [3, 6] ∧ t.Nearest 3 1 ∧
      (selection.read 1).result Tree.provider t = .ok (some "Light green; Blue") ∧
      (selection.write 1 "Light green; Blue").run Tree.provider t = (.ok .success, t) := by
  intro item t
  have hreachable : t.Reachable := ⟨_, rfl⟩
  have hcontainer : t.supports 1 .selection = true := by decide +kernel
  have hselected : t.selectedItems 1 = .ok [3, 6] := by decide +kernel
  have hnearest : t.Nearest 3 1 :=
    hreachable.wellFormed.selectionContainer_eq_some_iff.mp (by decide +kernel)
  have hnode : (t.node 1).map (fun n => (n.supports .selection, n.spec.multipleSelection)) =
      .ok (true, true) := by
    decide +kernel
  obtain ⟨n, hn, hpair⟩ := Tree.node_map_eq_ok_iff.mp hnode
  obtain ⟨hsupports, hmany⟩ := Prod.mk.inj hpair
  have hgreen : t.firstNamed? 1 "Light green" = some 3 ∧ Listable "Light green" :=
    ⟨by decide +kernel, by decide, by decide, by decide⟩
  have hblue : t.firstNamed? 1 "Blue" = some 6 ∧ Listable "Blue" :=
    ⟨by decide +kernel, by decide, by decide, by decide⟩
  have hnames : ∀ x ∈ [3, 6], ∃ name, t.firstNamed? 1 name = some x ∧ Listable name := by
    intro x hx
    rcases List.mem_pair.mp hx with rfl | rfl
    · exact ⟨_, hgreen⟩
    · exact ⟨_, hblue⟩
  have hread : (selection.read 1).result Tree.provider t = .ok (some "Light green; Blue") := by
    decide +kernel
  obtain ⟨s, hs, hwrite⟩ :=
    write_read_selection hreachable hn hsupports hmany hselected hnames hnearest
  have htext : s = "Light green; Blue" := by
    rw [result, hs, Except.ok.injEq, Option.some.injEq] at hread
    exact hread
  exact ⟨hreachable, hcontainer, by decide +kernel, hselected, hnearest, hread, htext ▸ hwrite⟩

end Capability

end ElementQuery
