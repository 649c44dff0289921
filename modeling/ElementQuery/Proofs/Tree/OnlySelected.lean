import ElementQuery.Proofs.Tree.Traversal

/-!
# Selecting one element

Selecting an element looks for the nearest container above it and deselects the items below that
container, at any depth, also those that belong to a container further down. Then the element is
selected, whether it is an item or not. If it is one, it is afterwards the only item of the container
that is selected.

Nothing else changes. Without a container above it no other element is touched, and neither are the
elements below the container that are no items, even if they are marked as selected.

The way up to the container is a loop like the walks down. Since a parent comes before its children,
it ends.
-/

namespace ElementQuery.Tree

def climbStep (t : Tree) : Option Handle → Option Handle ⊕ Option Handle
  | none => .inl none
  | some h =>
    match t.node h with
    | .ok n => if n.spec.patterns.contains .selection then .inl (some h) else .inr n.parent
    | .error _ => .inl none

/-- Holds of a tree before and after one element was selected. -/
structure OnlySelected (t : Tree) (e : Handle) (u : Tree) : Prop where
  selected : u.isSelected e = true
  cleared : ∀ c x : Handle, t.Nearest e c → x ∈ t.descendants c →
    t.supports x .selectionItem = true → x ≠ e → u.isSelected x = false
  kept : ∀ x : Handle, x ≠ e →
    (∀ c, t.Nearest e c → x ∈ t.descendants c → t.supports x .selectionItem = false) →
    u.nodes[x]? = t.nodes[x]?
  agree : Agree Node.unselected u t
  focused : u.focused = t.focused
  items : ∀ c : Handle, t.Nearest e c → provider.answer (.selectedItems c) u =
    (.ok (if t.supports e .selectionItem then [e] else []), u)

variable {t : Tree} {e c : Handle} {n : Node}

/-! ### The way up -/

theorem ends_climb {h : Nat} (ht : t.WellFormed) {steps : Nat} (hsteps : h < steps) :
    Ends t.climbStep (some h) (t.containerFrom steps (some h)) := by
  induction steps generalizing h with
  | zero => omega
  | succ steps ih =>
    rw [containerFrom]
    cases hn : t.node h with
    | error e => exact .last (by rw [climbStep, hn])
    | ok n =>
      simp only
      split
      · next hcontainer => exact .last (by rw [climbStep, hn]; exact if_pos hcontainer)
      · next hpass =>
        have hstep : t.climbStep (some h) = .inr n.parent := by
          rw [climbStep, hn]
          exact if_neg hpass
        refine .next hstep ?_
        cases hparent : n.parent with
        | none => exact .last (by rw [climbStep, containerFrom])
        | some p =>
          have hlt := (ht.node_parent hn hparent).1
          exact ih (by omega)

theorem WellFormed.ends_climb_parent (ht : t.WellFormed) (hn : t.node e = .ok n) :
    Ends t.climbStep n.parent (t.selectionContainer e) := by
  rw [selectionContainer, hn]
  simp only
  cases hparent : n.parent with
  | none => exact .last (by rw [climbStep, containerFrom])
  | some p =>
    obtain ⟨m, hm, -⟩ := mem_childrenOf.mp (ht.node_parent hn hparent).2
    exact ends_climb ht (lt_size_of_node hm)

/-! ### What is selected afterwards -/

namespace WellFormed

theorem isSelected_below (ht : t.WellFormed) (hlive : t.isLive e = true) (hnearest : t.Nearest e c)
    {x : Handle} (hx : x ∈ t.descendants c) (hitem : t.supports x .selectionItem = true) :
    (t.withOnlySelected e).isSelected x = true ↔ x = e := by
  rw [isSelected_withOnlySelected ht hlive]
  refine or_iff_left fun hstays => ?_
  exact hstays.2 c hnearest (ht.mem_selectionItems.mpr ⟨hx, hitem⟩)

theorem selectedItems_withOnlySelected (ht : t.WellFormed) (hlive : t.isLive e = true)
    (hnearest : t.Nearest e c) :
    (t.withOnlySelected e).selectedItems c =
      .ok (if t.supports e .selectionItem then [e] else []) := by
  have hagree : Agree Node.frame (t.withOnlySelected e) t :=
    (agree_withOnlySelected t e).map Node.frame
  obtain ⟨n, hn, -⟩ := supports_iff.mp hnearest.container
  obtain ⟨m, hm, -⟩ := hagree.symm.exists_node hn
  have hmem : ∀ x ∈ t.descendants c,
      ((t.withOnlySelected e).isSelected x && (t.withOnlySelected e).supports x .selectionItem) =
        (t.supports e .selectionItem && x == e) := by
    intro x hx
    rw [Bool.eq_iff_iff, Bool.and_eq_true, Bool.and_eq_true, beq_iff_eq]
    constructor
    · rintro ⟨hselected, hsupports⟩
      have hitem := hagree.supports hsupports
      obtain rfl := (ht.isSelected_below hlive hnearest hx hitem).mp hselected
      exact ⟨hitem, rfl⟩
    · rintro ⟨hitem, rfl⟩
      exact ⟨(ht.isSelected_below hlive hnearest hx hitem).mpr rfl, hagree.symm.supports hitem⟩
  rw [((hagree.map Node.shape).wellFormed ht).selectedItems_eq hm,
    (hagree.map Node.place).descendants, List.filter_congr hmem]
  cases t.supports e .selectionItem with
  | false => simp
  | true =>
    have honce : (t.descendants c).count e = 1 :=
      List.count_eq_one_of_mem (ht.nodup_descendants c) hnearest.above
    simp [List.filter_beq, honce]

theorem onlySelected (ht : t.WellFormed) (hlive : t.isLive e = true) :
    t.OnlySelected e (t.withOnlySelected e) where
  selected := (isSelected_withOnlySelected ht hlive).mpr (.inl rfl)
  cleared := by
    intro c x hnearest hx hitem hne
    rw [← Bool.not_eq_true, ht.isSelected_below hlive hnearest hx hitem]
    exact hne
  kept := by
    intro x hne hnoItem
    refine getElem?_withOnlySelected hne fun c hc hmem => ?_
    obtain ⟨hx, hitem⟩ := ht.mem_selectionItems.mp hmem
    rw [hnoItem c (ht.selectionContainer_eq_some_iff.mp hc) hx] at hitem
    contradiction
  agree := agree_withOnlySelected t e
  focused := focused_withOnlySelected t e
  items := by
    intro c hnearest
    rw [Dialogue.answer_selectedItems, ht.selectedItems_withOnlySelected hlive hnearest]

end WellFormed

/--
An element that is in the tree can be selected, and then it is selected and no other item below its
nearest container is. Nothing else has changed. An element that is below some container has a nearest
one, which the way up finds, and the walks up and down end without a bound on their steps.
-/
theorem onlySelected_select (ht : t.Reachable) (hlive : t.isLive e = true) :
    (∃ u, provider.answer (.select e) t = (.ok (), u) ∧ t.OnlySelected e u) ∧
    (∀ d, t.supports d .selection = true → e ∈ t.descendants d → ∃ c, t.Nearest e c) ∧
    (∀ c, t.selectionContainer e = some c ↔ t.Nearest e c) ∧
    (∃ n, t.node e = .ok n ∧ Ends t.climbStep n.parent (t.selectionContainer e)) ∧
    ∀ c, Ends t.collectStep ([], t.childrenOf c) (t.selectionItems c) := by
  have hwf := ht.wellFormed
  obtain ⟨n, hn⟩ := isLive_iff.mp hlive
  refine ⟨⟨_, Edit.perform_select hlive, hwf.onlySelected hlive⟩, ?_, ?_, ?_, ?_⟩
  · exact fun d hd hbelow => hwf.exists_nearest hd hbelow
  · exact fun c => hwf.selectionContainer_eq_some_iff
  · exact ⟨n, hn, hwf.ends_climb_parent hn⟩
  · intro c
    rw [hwf.selectionItems_eq, hwf.descendants_eq]
    exact hwf.ends_collect hwf.node_of_mem_childrenOf

/-- An item of the outer of two lists is selected: that deselects an item of the inner list, but
neither the label that is marked as selected nor the item of another list. -/
theorem onlySelected_select_outer :
    let item := fun name selected =>
      ((ElementSpec.ofControlType .listItem).withName name).withSelectionItem selected
    let t := initial.applyAll
      [.add root ((ElementSpec.ofControlType .list).withSelection true), .add 1 (item "Red" false),
        .add 1 ((ElementSpec.ofControlType .list).withSelection false), .add 3 (item "Blue" true),
        .add 3 (.ofControlType .text), .request (.addToSelection 5),
        .add root ((ElementSpec.ofControlType .list).withSelection false), .add 6 (item "Red" true)]
    let u := (provider.answer (.select 2) t).2
    t.Reachable ∧ t.isLive 2 = true ∧ t.Nearest 2 1 ∧
      (provider.answer (.selectedItems 1) t).1 = .ok [4] ∧
      provider.answer (.selectedItems 1) u = (.ok [2], u) ∧
      u.isSelected 4 = false ∧ u.isSelected 5 = true ∧ u.nodes[7]? = t.nodes[7]? := by
  intro item t u
  have hreachable : t.Reachable := ⟨_, rfl⟩
  have hlive : t.isLive 2 = true := by decide +kernel
  obtain ⟨⟨u', hanswer, honly⟩, -, hcontainer, -⟩ := onlySelected_select hreachable hlive
  have hu : u = u' := congrArg Prod.snd hanswer
  rw [← hu] at honly
  have hnearest : t.Nearest 2 1 := (hcontainer 1).mp (by decide +kernel)
  have hitem : t.supports 2 .selectionItem = true := by decide +kernel
  have hitems := honly.items 1 hnearest
  rw [hitem, if_pos rfl] at hitems
  refine ⟨hreachable, hlive, hnearest, by decide +kernel, hitems, ?_, by decide +kernel, ?_⟩
  · exact honly.cleared 1 4 hnearest (by decide +kernel) (by decide +kernel) (by decide)
  · apply honly.kept 7 (by decide)
    intro c hc hbelow
    obtain rfl := hreachable.wellFormed.nearest_unique hnearest hc
    exact absurd hbelow (by decide +kernel)

end ElementQuery.Tree
