import ElementQuery.Proofs.Tree.Exclusive
import ElementQuery.Proofs.ValueAccess
import Mathlib.Data.List.Induction

/-!
# Writing and containers of which one item is selected

A text written to a container of several items names items anywhere below it, and those items need
not belong to it: between them and the container that is written there may be one of which only one
item can be selected. All names after the first are added to the selection, which deselects nothing,
and so a write can give such a container more selected items than it allows. No other write does.
-/

namespace ElementQuery.ValueAccess

open Capability

variable {t : Tree} {h : Handle} {v : String}

/--
Holds of a text that asks a container of several items for a selection with too many items in another
container, one of which only one item can be selected.
-/
def Crowds (t : Tree) (h : Handle) (v : String) : Prop :=
  ∃ n first others, t.node h = .ok n ∧ n.supports .selection = true ∧
    n.spec.multipleSelection = true ∧ t.itemsNamed? h (itemNames true v) = some (first :: others) ∧
    t.Clash first others

theorem Crowds.exists_below (hcrowds : Crowds t h v) :
    ∃ c ∈ t.descendants h, t.selectsOne c = true := by
  obtain ⟨n, first, others, hn, hcontainer, hmultiple, hitems, c, x, y, hc, -, hy, -, hother, -⟩ :=
    hcrowds
  have hsupports : t.supports h .selection = true := Tree.supports_iff.mpr ⟨n, hn, hcontainer⟩
  have hbelow : y ∈ t.descendants h :=
    (Tree.mem_of_itemsNamed? hitems (List.mem_cons_of_mem _ hother)).1
  rcases List.mem_cons.mp (hy.nearest.nearest h hsupports hbelow) with rfl | hmem
  · obtain ⟨m, hm, -, hone⟩ := Tree.selectsOne_iff.mp hc
    obtain rfl := Except.ok.inj (hn.symm.trans hm)
    rw [hmultiple] at hone
    contradiction
  · exact ⟨c, hmem, hc⟩

theorem others_eq_nil {first : Handle} {others : List Handle}
    (hitems : t.itemsNamed? h (itemNames false v) = some (first :: others)) : others = [] := by
  rw [itemNames, if_neg Bool.false_ne_true, Tree.itemsNamed?_cons, Option.bind_eq_some_iff] at hitems
  obtain ⟨item, -, hrest⟩ := hitems
  obtain ⟨rest, hnone, heq⟩ := Option.map_eq_some_iff.mp hrest
  obtain rfl := Option.some.inj hnone
  exact (List.cons.inj heq).2.symm

theorem exclusive_write_iff (ht : t.WellFormed) (hexclusive : t.Exclusive) (h : Handle)
    (v : String) : ((write h v).after Tree.provider t).Exclusive ↔ ¬ Crowds t h v := by
  constructor
  · rintro hafter ⟨n, first, others, hn, hcontainer, hmultiple, hitems, hclash⟩
    rw [← hmultiple] at hitems
    rw [after_write_items ht hn hcontainer hitems] at hafter
    exact (Tree.exclusive_select_iff ht hexclusive fun x hx =>
      ht.isLive_of_mem_itemsNamed? hitems hx).mp hafter hclash
  · intro hcrowds
    generalize hu : (write h v).after Tree.provider t = u
    have hwritten := written_write ht h v
    rw [hu] at hwritten
    cases hwritten with
    | nothing => exact hexclusive
    | items hn hcontainer hitems =>
      next n first others =>
      apply (Tree.exclusive_select_iff ht hexclusive fun x hx =>
        ht.isLive_of_mem_itemsNamed? hitems hx).mpr
      intro hclash
      cases hmultiple : n.spec.multipleSelection with
      | true =>
        rw [hmultiple] at hitems
        exact hcrowds ⟨n, first, others, hn, hcontainer, hmultiple, hitems, hclash⟩
      | false =>
        rw [hmultiple] at hitems
        obtain rfl := others_eq_nil hitems
        exact Tree.not_clash_nil first hclash
    | selected hn =>
      have hlive : ∀ x ∈ [h], t.isLive x = true := fun x hx =>
        List.mem_singleton.mp hx ▸ Tree.isLive_iff.mpr ⟨_, hn⟩
      exact (Tree.exclusive_select_iff ht hexclusive hlive).mpr (Tree.not_clash_nil h)
    | deselected hn =>
      refine hexclusive.of_agree ((Tree.agree_withSelected t false h).map Node.frame) fun x hx => ?_
      rw [Tree.isSelected_withSelected] at hx
      split at hx
      · rw [Bool.and_false] at hx
        contradiction
      · exact hx
    | value | range | legacyValue =>
      exact hexclusive.modify h (fun _ => rfl) fun _ => rfl
    | typed =>
      have hfocused : ({ t with focused := some h } : Tree).Exclusive :=
        hexclusive.of_agree (fun _ => rfl) fun _ hx => hx
      exact hfocused.modify h (fun _ => rfl) fun _ => rfl

/-! ### Runs of writes -/

/-- A run of writes keeps a tree exclusive all along just as long as no write of it crowds a
container. -/
theorem exclusive_writeAll_iff (ht : t.Reachable) (hexclusive : t.Exclusive)
    (writes : List (Handle × String)) :
    (∀ before, before <+: writes → (writeAll t before).Exclusive) ↔
      ∀ before h v, before ++ [(h, v)] <+: writes → ¬ Crowds (writeAll t before) h v := by
  have hstep : ∀ before h v, (writeAll t before).Exclusive →
      ((writeAll t (before ++ [(h, v)])).Exclusive ↔ ¬ Crowds (writeAll t before) h v) := by
    intro before h v hbefore
    rw [writeAll_concat]
    exact exclusive_write_iff (wellFormed_writeAll ht.wellFormed before) hbefore h v
  constructor
  · intro hall before h v hprefix
    have hbefore : before <+: writes := (List.prefix_append before [(h, v)]).trans hprefix
    exact (hstep before h v (hall before hbefore)).mp (hall _ hprefix)
  · intro hnone before
    -- From the end: whether the last write crowds depends on the tree that the others leave.
    induction before using List.reverseRecOn with
    | nil => exact fun _ => hexclusive
    | append_singleton before w ih =>
      intro hprefix
      have hbefore : before <+: writes := (List.prefix_append before [w]).trans hprefix
      exact (hstep before w.1 w.2 (ih hbefore)).mpr (hnone before w.1 w.2 hprefix)

/-- No container is crowded where the containers above one that allows one item allow one item too. -/
theorem not_crowds_writeAll (ht : t.WellFormed)
    (habove : ∀ h c, t.supports h .selection = true → c ∈ t.descendants h →
      t.selectsOne c = true → t.selectsOne h = true)
    (writes : List (Handle × String)) (h : Handle) (v : String) :
    ¬ Crowds (writeAll t writes) h v := by
  intro hcrowds
  have hagree := agree_writeAll ht writes
  obtain ⟨c, hbelow, hone⟩ := hcrowds.exists_below
  obtain ⟨n, first, others, hn, hcontainer, hmultiple, -⟩ := hcrowds
  rw [(hagree.map Node.place).descendants] at hbelow
  have hsupports := hagree.supports (Tree.supports_iff.mpr ⟨n, hn, hcontainer⟩)
  have hself := habove h c hsupports hbelow (hagree.selectsOne hone)
  obtain ⟨m, hm, -, hsingle⟩ := Tree.selectsOne_iff.mp (hagree.symm.selectsOne hself)
  obtain rfl := Except.ok.inj (hn.symm.trans hm)
  rw [hmultiple] at hsingle
  contradiction

/-- A list of tags of which several can be selected, next to a list of colours of which one can. -/
theorem exclusive_writeAll_colours :
    let t := Tree.initial.applyAll
      [.add Tree.root ((ElementSpec.ofControlType .list).withSelection true),
        .add 1 (((ElementSpec.ofControlType .listItem).withName "New").withSelectionItem false),
        .add 1 (((ElementSpec.ofControlType .listItem).withName "Hot").withSelectionItem false),
        .add Tree.root ((ElementSpec.ofControlType .list).withSelection false),
        .add 4 (((ElementSpec.ofControlType .listItem).withName "Red").withSelectionItem false),
        .add 4 (((ElementSpec.ofControlType .listItem).withName "Blue").withSelectionItem false)]
    t.Exclusive ∧ ∀ before, before <+: [(1, "New; Hot"), (4, "Red"), (6, "selected")] →
      (writeAll t before).Exclusive := by
  intro t
  have hreachable : t.Reachable := ⟨_, rfl⟩
  have hexclusive : t.Exclusive := Tree.exclusive_of_forall (by decide +kernel)
  have hdecided : ∀ h < t.nodes.size, ∀ c ∈ t.descendants h, t.supports h .selection = true →
      t.selectsOne c = true → t.selectsOne h = true := by decide +kernel
  have habove : ∀ h c, t.supports h .selection = true → c ∈ t.descendants h →
      t.selectsOne c = true → t.selectsOne h = true := by
    intro h c hsupports hbelow
    obtain ⟨n, hn, -⟩ := Tree.supports_iff.mp hsupports
    exact hdecided h (Tree.lt_size_of_node hn) c hbelow hsupports
  refine ⟨hexclusive, (exclusive_writeAll_iff hreachable hexclusive _).mpr fun before h v _ => ?_⟩
  exact not_crowds_writeAll hreachable.wellFormed habove before h v

/-- A list of one colour inside a list of several: two colours named to the outer one are both
selected. -/
theorem not_exclusive_write_nested :
    let t := Tree.initial.applyAll
      [.add Tree.root ((ElementSpec.ofControlType .list).withSelection true),
        .add 1 ((ElementSpec.ofControlType .list).withSelection false),
        .add 2 (((ElementSpec.ofControlType .listItem).withName "Red").withSelectionItem false),
        .add 2 (((ElementSpec.ofControlType .listItem).withName "Blue").withSelectionItem false)]
    t.Reachable ∧ t.Exclusive ∧ (write 1 "Red; Blue").result Tree.provider t = .ok .success ∧
      ¬ ((write 1 "Red; Blue").after Tree.provider t).Exclusive := by
  intro t
  have hreachable : t.Reachable := ⟨_, rfl⟩
  have hresult : (write 1 "Red; Blue").result Tree.provider t = .ok .success := by decide +kernel
  refine ⟨hreachable, Tree.exclusive_of_forall (by decide +kernel), hresult, fun hexclusive => ?_⟩
  have hone : t.selectsOne 2 = true := by decide +kernel
  have hitems : ∀ x ∈ [3, 4], t.supports x .selectionItem = true ∧
      t.selectionContainer x = some 2 := by decide +kernel
  have hbelongs : ∀ x ∈ [3, 4], t.Belongs x 2 := fun x hx =>
    ⟨(hitems x hx).1, hreachable.wellFormed.selectionContainer_eq_some_iff.mp (hitems x hx).2⟩
  have hagree := (written_write hreachable.wellFormed 1 "Red; Blue").agree.symm
  have hsame : 3 = 4 := hexclusive 2 3 4 (hagree.selectsOne hone)
    (hagree.belongs (hbelongs 3 (by decide))) (hagree.belongs (hbelongs 4 (by decide)))
    (by decide +kernel) (by decide +kernel)
  exact absurd hsame (by decide)

end ElementQuery.ValueAccess
