import ElementQuery.Proofs.Tree.Containers
import ElementQuery.Proofs.Tree.Selection

/-!
# Containers of which one item is selected

A container may allow no more than one of its items to be selected, and an item belongs to the
nearest container above it. Selecting an item keeps to that, since all items below its nearest
container are deselected before. Adding items to the selection deselects nothing, so it keeps to that
exactly if of the items that are selected in the end no two belong to one such container.
-/

namespace ElementQuery.Tree

variable {s t : Tree} {c h x y : Handle}

def isSelected (t : Tree) (h : Handle) : Bool :=
  match t.node h with
  | .ok n => n.spec.selected
  | .error _ => false

def selectsOne (t : Tree) (h : Handle) : Bool :=
  match t.node h with
  | .ok n => n.supports .selection && !n.spec.multipleSelection
  | .error _ => false

/-- Holds of a selection item and the container that it belongs to. -/
structure Belongs (t : Tree) (x c : Handle) : Prop where
  item : t.supports x .selectionItem = true
  nearest : t.Nearest x c

/-- Holds of a tree in which no container has more selected items than it allows. -/
def Exclusive (t : Tree) : Prop :=
  ∀ c x y : Handle, t.selectsOne c = true → t.Belongs x c → t.Belongs y c →
    t.isSelected x = true → t.isSelected y = true → x = y

theorem isSelected_iff :
    t.isSelected x = true ↔ ∃ n, t.node x = .ok n ∧ n.spec.selected = true := by
  rw [isSelected]
  cases t.node x <;> simp

theorem selectsOne_iff :
    t.selectsOne c = true ↔
      ∃ n, t.node c = .ok n ∧ n.supports .selection = true ∧ n.spec.multipleSelection = false := by
  rw [selectsOne]
  cases t.node c <;> simp

theorem exclusive_of_forall (hnone : ∀ n ∈ t.nodes, n.spec.selected = false) : t.Exclusive := by
  intro c x y _ _ _ hx _
  obtain ⟨n, hn, hselected⟩ := isSelected_iff.mp hx
  rw [hnone n (Array.mem_of_getElem? (node_eq_ok_iff.mp hn).1)] at hselected
  contradiction

theorem Agree.selectsOne (hst : Agree Node.frame s t) (hone : s.selectsOne c = true) :
    t.selectsOne c = true := by
  obtain ⟨n, hn, hsupports, hmultiple⟩ := selectsOne_iff.mp hone
  obtain ⟨m, hm, hframe⟩ := hst.exists_node hn
  have hsupports' : m.supports .selection = n.supports .selection :=
    congrArg (fun n => n.supports .selection) hframe
  have hmultiple' : m.spec.multipleSelection = n.spec.multipleSelection :=
    congrArg (fun n => n.spec.multipleSelection) hframe
  exact selectsOne_iff.mpr ⟨m, hm, hsupports'.trans hsupports, hmultiple'.trans hmultiple⟩

theorem Agree.belongs (hst : Agree Node.frame s t) (hbelongs : s.Belongs x c) : t.Belongs x c :=
  ⟨hst.supports hbelongs.item, hst.nearest hbelongs.nearest⟩

/-- What selects nothing new keeps a tree exclusive. -/
theorem Exclusive.of_agree (ht : t.Exclusive) (hst : Agree Node.frame s t)
    (hselected : ∀ x, s.isSelected x = true → t.isSelected x = true) : s.Exclusive :=
  fun c x y hc hx hy hxs hys => ht c x y (hst.selectsOne hc) (hst.belongs hx) (hst.belongs hy)
    (hselected x hxs) (hselected y hys)

theorem Exclusive.modify (ht : t.Exclusive) (h : Handle) {f : Node → Node}
    (hframe : ∀ n, (f n).frame = n.frame) (hflag : ∀ n, (f n).spec.selected = n.spec.selected) :
    (t.modify h f).Exclusive := by
  have hremoved : ∀ n, (f n).removed = n.removed := fun n =>
    congrArg (fun n => n.removed) (hframe n)
  refine ht.of_agree (Agree.modify t h hframe) fun x hx => ?_
  obtain ⟨n, hn, hselected⟩ := isSelected_iff.mp hx
  rw [node_modify t h x hremoved] at hn
  split at hn
  · cases hm : t.node x with
    | error e =>
      rw [hm] at hn
      contradiction
    | ok m =>
      rw [hm] at hn
      obtain rfl := Except.ok.inj hn
      exact isSelected_iff.mpr ⟨m, hm, (hflag m).symm.trans hselected⟩
  · exact isSelected_iff.mpr ⟨n, hn, hselected⟩

/-! ### What is selected afterwards -/

theorem isSelected_withSelected (t : Tree) (selected : Bool) (item x : Handle) :
    (t.withSelected selected item).isSelected x =
      if item = x then t.isLive x && selected else t.isSelected x := by
  rw [isSelected, withSelected, node_modify]
  · by_cases hx : item = x
    · rw [if_pos hx, if_pos hx]
      cases hn : t.node x with
      | ok n =>
        rw [isLive_iff.mpr ⟨n, hn⟩, Bool.true_and]
        rfl
      | error e =>
        have hdead : t.isLive x = false := by
          rw [← Bool.not_eq_true, isLive_iff, hn]
          simp
        rw [hdead, Bool.false_and]
        rfl
    · rw [if_neg hx, if_neg hx, ← isSelected]
  · exact fun _ => rfl

theorem isSelected_deselected (t : Tree) (items : List Handle) (x : Handle) :
    (t.deselected items).isSelected x = true ↔ t.isSelected x = true ∧ x ∉ items := by
  induction items generalizing t with
  | nil => simp [deselected]
  | cons item items ih =>
    rw [deselected, List.foldl_cons, ← deselected, ih, isSelected_withSelected, List.mem_cons, not_or]
    by_cases hx : item = x
    · simp [hx]
    · simp [hx, Ne.symm hx]

theorem isSelected_withAlsoSelected {items : List Handle}
    (hlive : ∀ x ∈ items, t.isLive x = true) :
    (t.withAlsoSelected items).isSelected x = true ↔ t.isSelected x = true ∨ x ∈ items := by
  induction items generalizing t with
  | nil => simp [withAlsoSelected]
  | cons item items ih =>
    have hitem := hlive item List.mem_cons_self
    rw [withAlsoSelected, List.foldl_cons, ← withAlsoSelected, ih, isSelected_withSelected,
      List.mem_cons]
    · by_cases hx : item = x
      · simp [← hx, hitem]
      · simp [hx, Ne.symm hx]
    · intro y hy
      rw [isLive_withSelected]
      exact hlive y (List.mem_cons_of_mem _ hy)

/-- Holds of an item that is selected and is still when another item has been selected, since it is
not below the container that the other belongs to. -/
def StaysSelected (t : Tree) (x h : Handle) : Prop :=
  t.isSelected x = true ∧ ∀ c, t.Nearest h c → x ∉ t.selectionItems c

theorem isSelected_withOnlySelected (ht : t.WellFormed) (hlive : t.isLive h = true) :
    (t.withOnlySelected h).isSelected x = true ↔ x = h ∨ t.StaysSelected x h := by
  rw [withOnlySelected, StaysSelected]
  cases hcontainer : t.selectionContainer h with
  | none =>
    have hnone : ∀ c, ¬ t.Nearest h c := by
      intro c hc
      rw [ht.selectionContainer_eq_some_iff.mpr hc] at hcontainer
      contradiction
    rw [isSelected_withSelected]
    by_cases hx : h = x
    · simp [← hx, hlive]
    · simp [hx, Ne.symm hx, hnone]
  | some container =>
    have hnearest : ∀ c, t.Nearest h c ↔ container = c := by
      intro c
      rw [← ht.selectionContainer_eq_some_iff, hcontainer, Option.some.injEq]
    simp only [isSelected_withSelected, isLive_deselected, hnearest, forall_eq']
    by_cases hx : h = x
    · simp [← hx, hlive]
    · rw [if_neg hx, isSelected_deselected]
      simp [Ne.symm hx]

/-! ### Selecting several items -/

theorem agree_select (t : Tree) (first : Handle) (others : List Handle) :
    Agree Node.frame ((t.withOnlySelected first).withAlsoSelected others) t :=
  ((agree_withAlsoSelected _ others).trans (agree_withOnlySelected t first)).map Node.frame

theorem isSelected_select (ht : t.WellFormed) {first : Handle} {others : List Handle}
    (hlive : ∀ x ∈ first :: others, t.isLive x = true) :
    ((t.withOnlySelected first).withAlsoSelected others).isSelected x = true ↔
      x ∈ first :: others ∨ t.StaysSelected x first := by
  rw [isSelected_withAlsoSelected, isSelected_withOnlySelected ht (hlive first List.mem_cons_self),
    List.mem_cons, or_right_comm]
  intro y hy
  rw [isLive_withOnlySelected]
  exact hlive y (List.mem_cons_of_mem _ hy)

/--
Holds of items to be selected, one after the other, if a container would get more than it allows: one
of the others, and an item that is selected with them or stays selected.
-/
def Clash (t : Tree) (first : Handle) (others : List Handle) : Prop :=
  ∃ c x y, t.selectsOne c = true ∧ t.Belongs x c ∧ t.Belongs y c ∧ x ≠ y ∧ y ∈ others ∧
    (x ∈ first :: others ∨ t.StaysSelected x first)

theorem not_clash_nil (first : Handle) : ¬ t.Clash first [] := by
  rintro ⟨c, x, y, -, -, -, -, hy, -⟩
  contradiction

theorem exclusive_select_iff (ht : t.WellFormed) (hexclusive : t.Exclusive) {first : Handle}
    {others : List Handle} (hlive : ∀ x ∈ first :: others, t.isLive x = true) :
    ((t.withOnlySelected first).withAlsoSelected others).Exclusive ↔ ¬ t.Clash first others := by
  have hagree := agree_select t first others
  constructor
  · rintro hafter ⟨c, x, y, hc, hx, hy, hne, hother, hxs⟩
    apply hne
    exact hafter c x y (hagree.symm.selectsOne hc) (hagree.symm.belongs hx) (hagree.symm.belongs hy)
      ((isSelected_select ht hlive).mpr hxs)
      ((isSelected_select ht hlive).mpr (.inl (List.mem_cons_of_mem _ hother)))
  · intro hclash c x y hc hx hy hxs hys
    replace hc := hagree.selectsOne hc
    replace hx := hagree.belongs hx
    replace hy := hagree.belongs hy
    rw [isSelected_select ht hlive] at hxs hys
    by_contra hne
    have hother : ∀ x y, t.Belongs x c → t.Belongs y c → x ≠ y →
        (x ∈ first :: others ∨ t.StaysSelected x first) → y ∉ others := fun x y hx hy hne hxs hother =>
      hclash ⟨c, x, y, hc, hx, hy, hne, hother, hxs⟩
    have hfirst : ∀ x, t.Belongs first c → t.Belongs x c → ¬ t.StaysSelected x first :=
      fun x hfirst hx hstays => hstays.2 c hfirst.nearest
        (ht.mem_selectionItems.mpr ⟨hx.nearest.above, hx.item⟩)
    have hxfirst : x = first ∨ t.StaysSelected x first := by
      rw [List.mem_cons, or_right_comm] at hxs
      exact hxs.resolve_right (hother y x hy hx (Ne.symm hne) hys)
    have hyfirst : y = first ∨ t.StaysSelected y first := by
      rw [List.mem_cons, or_right_comm] at hys
      exact hys.resolve_right (hother x y hx hy hne hxs)
    rcases hxfirst with rfl | hxstays
    · rcases hyfirst with rfl | hystays
      · exact hne rfl
      · exact hfirst y hx hy hystays
    · rcases hyfirst with rfl | hystays
      · exact hfirst x hy hx hxstays
      · exact hne (hexclusive c x y hc hx hy hxstays.1 hystays.1)

end ElementQuery.Tree
