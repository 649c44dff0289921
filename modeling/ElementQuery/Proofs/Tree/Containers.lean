import ElementQuery.Proofs.Tree.Descendants

/-!
# Selection containers and their items

An item belongs to the nearest container above it, which the walk up from its parent finds: the first
element on the way that supports selection is below every other one on the way. The items that a
walk down from a container collects are those of its descendants that support being selected, in the
order in which the descendants are listed. They are not all its own, since those of the containers
below it are among them.
-/

namespace ElementQuery

/-- An element apart from what writing can change. -/
def Node.frame (n : Node) : Node :=
  { n.mapSpec fun s => { s with value := "", range := .zero, selected := false, legacyValue := "" }
    with typed := [] }

namespace Tree

variable {t : Tree} {h c x p : Nat} {n : Node}

def supports (t : Tree) (h : Handle) (p : Pattern) : Bool :=
  match t.node h with
  | .ok n => n.supports p
  | .error _ => false

theorem supports_eq (hn : t.node h = .ok n) (p : Pattern) : t.supports h p = n.supports p := by
  rw [supports, hn]

theorem supports_iff {p : Pattern} :
    t.supports h p = true ↔ ∃ n, t.node h = .ok n ∧ n.supports p = true := by
  rw [supports]
  cases t.node h <;> simp

/-- Holds of an element and the nearest selection container above it. -/
structure Nearest (t : Tree) (x c : Handle) : Prop where
  container : t.supports c .selection = true
  above : x ∈ t.descendants c
  nearest : ∀ d, t.supports d .selection = true → x ∈ t.descendants d → c ∈ t.subtree d

namespace WellFormed

theorem eq_of_mem_subtree (ht : t.WellFormed) (hx : x ∈ t.subtree c) (hc : c ∈ t.subtree x) :
    x = c := by
  rcases List.mem_cons.mp hx with rfl | hx
  · rfl
  · rcases List.mem_cons.mp hc with rfl | hc
    · rfl
    · exact absurd (ht.lt_of_mem_descendants hx) (Nat.lt_asymm (ht.lt_of_mem_descendants hc))

theorem nearest_unique (ht : t.WellFormed) {d : Nat} (hc : t.Nearest x c) (hd : t.Nearest x d) :
    c = d :=
  ht.eq_of_mem_subtree (hc.nearest d hd.container hd.above) (hd.nearest c hc.container hc.above)

theorem mem_descendants_iff (ht : t.WellFormed) (hn : t.node x = .ok n) :
    x ∈ t.descendants h ↔ ∃ p, n.parent = some p ∧ p ∈ t.subtree h := by
  constructor
  · intro hx
    obtain ⟨p, hp, hxp⟩ := ht.exists_parent hx
    obtain ⟨m, hm, hparent⟩ := ht.node_of_mem hxp
    obtain rfl := Except.ok.inj (hn.symm.trans hm)
    exact ⟨p, hparent, hp⟩
  · rintro ⟨p, hparent, hp⟩
    exact ht.mem_descendants_of_parent hp (ht.node_parent hn hparent).2

/-- Holds of the first container on the way up from an element, the element included. -/
private def FirstFrom (t : Tree) (x c : Handle) : Prop :=
  t.supports c .selection = true ∧ x ∈ t.subtree c ∧
    ∀ d, t.supports d .selection = true → x ∈ t.subtree d → c ∈ t.subtree d

private theorem containerFrom_cases (ht : t.WellFormed) {steps : Nat} (hsteps : x < steps)
    (hn : t.node x = .ok n) :
    (∃ c, t.containerFrom steps (some x) = some c ∧ FirstFrom t x c) ∨
      t.containerFrom steps (some x) = none ∧
        ∀ d, t.supports d .selection = true → x ∉ t.subtree d := by
  induction steps generalizing x n with
  | zero => omega
  | succ steps ih =>
    have hsupports := supports_eq hn .selection
    rw [containerFrom, hn]
    simp only
    by_cases hcontainer : n.supports .selection = true
    · left
      rw [hcontainer] at hsupports
      refine ⟨x, if_pos hcontainer, hsupports, List.mem_cons_self, fun d _ hx => hx⟩
    · have hpass : n.spec.patterns.contains .selection = false := by
        simpa [Node.supports] using hcontainer
      rw [hpass, if_neg Bool.false_ne_true]
      have hup : ∀ d, t.supports d .selection = true → x ∈ t.subtree d →
          ∃ p, n.parent = some p ∧ p ∈ t.subtree d := by
        intro d hd hx
        rcases List.mem_cons.mp hx with rfl | hx
        · exact absurd (hsupports.symm.trans hd) hcontainer
        · exact (ht.mem_descendants_iff hn).mp hx
      cases hparent : n.parent with
      | none =>
        right
        refine ⟨by rw [containerFrom], fun d hd hx => ?_⟩
        obtain ⟨p, hp, -⟩ := hup d hd hx
        rw [hparent] at hp
        contradiction
      | some p =>
        obtain ⟨hlt, hchild⟩ := ht.node_parent hn hparent
        obtain ⟨m, hm, -⟩ := mem_childrenOf.mp hchild
        have hdown : ∀ d, t.supports d .selection = true → x ∈ t.subtree d → p ∈ t.subtree d := by
          intro d hd hx
          obtain ⟨q, hq, hmem⟩ := hup d hd hx
          obtain rfl := Option.some.inj (hparent.symm.trans hq)
          exact hmem
        rcases ih (by omega) hm with ⟨c, hfound, hc, hpc, hfirst⟩ | ⟨hnone, hnowhere⟩
        · left
          refine ⟨c, hfound, hc, ?_, fun d hd hx => hfirst d hd (hdown d hd hx)⟩
          exact List.mem_cons_of_mem _ (ht.mem_descendants_of_parent hpc hchild)
        · exact .inr ⟨hnone, fun d hd hx => hnowhere d hd (hdown d hd hx)⟩

/-- The walk up from an element finds the nearest container above it, unless there is none. -/
theorem selectionContainer_cases (ht : t.WellFormed) (hn : t.node x = .ok n) :
    (∃ c, t.selectionContainer x = some c ∧ t.Nearest x c) ∨
      t.selectionContainer x = none ∧
        ∀ d, t.supports d .selection = true → x ∉ t.descendants d := by
  rw [selectionContainer, hn]
  simp only
  cases hparent : n.parent with
  | none =>
    refine .inr ⟨by rw [containerFrom], fun d _ hx => ?_⟩
    obtain ⟨p, hp, -⟩ := (ht.mem_descendants_iff hn).mp hx
    rw [hparent] at hp
    contradiction
  | some p =>
    obtain ⟨-, hchild⟩ := ht.node_parent hn hparent
    obtain ⟨m, hm, -⟩ := mem_childrenOf.mp hchild
    have hiff : ∀ d, x ∈ t.descendants d ↔ p ∈ t.subtree d := by
      intro d
      rw [ht.mem_descendants_iff hn, hparent]
      simp
    have hsteps : p < t.nodes.size := lt_size_of_node hm
    rcases ht.containerFrom_cases hsteps hm with ⟨d, hfound, hd, hpd, hfirst⟩ | ⟨hnone, hnowhere⟩
    · exact .inl ⟨d, hfound, hd, (hiff d).mpr hpd, fun e he hx => hfirst e he ((hiff e).mp hx)⟩
    · exact .inr ⟨hnone, fun d hd hx => hnowhere d hd ((hiff d).mp hx)⟩

theorem selectionContainer_eq_some_iff (ht : t.WellFormed) :
    t.selectionContainer x = some c ↔ t.Nearest x c := by
  cases hn : t.node x with
  | error e =>
    rw [selectionContainer, hn]
    refine iff_of_false (by simp) fun hnearest => ?_
    obtain ⟨n, hn'⟩ := ht.node_of_mem_descendants hnearest.above
    rw [hn] at hn'
    contradiction
  | ok n =>
    rcases ht.selectionContainer_cases hn with ⟨d, hfound, hnearest⟩ | ⟨hnone, hnowhere⟩
    · rw [hfound, Option.some.injEq]
      constructor
      · rintro rfl
        exact hnearest
      · exact ht.nearest_unique hnearest
    · rw [hnone]
      exact iff_of_false (by simp) fun hnearest => hnowhere c hnearest.container hnearest.above

theorem exists_nearest (ht : t.WellFormed) (hc : t.supports c .selection = true)
    (hx : x ∈ t.descendants c) : ∃ d, t.Nearest x d := by
  obtain ⟨n, hn⟩ := ht.node_of_mem_descendants hx
  rcases ht.selectionContainer_cases hn with ⟨d, -, hnearest⟩ | ⟨-, hnowhere⟩
  · exact ⟨d, hnearest⟩
  · exact absurd hx (hnowhere c hc)

/-! ### The items below a container -/

/-- A walk collects the items among the elements that its stack stands for. -/
theorem collectItems_eq (ht : t.WellFormed) {steps : Nat} {stack : List Handle}
    (hstack : ∀ x ∈ stack, ∃ n, t.node x = .ok n)
    (hsteps : (stack.flatMap t.subtree).length ≤ steps) :
    t.collectItems steps stack =
      (stack.flatMap t.subtree).filter fun x => t.supports x .selectionItem := by
  induction steps generalizing stack with
  | zero =>
    cases stack with
    | nil => rfl
    | cons h stack =>
      rw [ht.flatMap_subtree_cons, List.length_cons] at hsteps
      omega
  | succ steps ih =>
    cases stack with
    | nil => rfl
    | cons h stack =>
      obtain ⟨n, hn⟩ := hstack h List.mem_cons_self
      obtain ⟨hrest, hlist⟩ := ht.pop hstack hn
      rw [hlist, List.length_cons] at hsteps
      rw [collectItems, hlist, List.filter_cons, supports_eq hn, hn]
      simp only [ih hrest (by omega)]
      rfl

theorem selectionItems_eq (ht : t.WellFormed) (c : Handle) :
    t.selectionItems c = (t.descendants c).filter fun x => t.supports x .selectionItem := by
  cases hn : t.node c with
  | error e =>
    have hnone : t.childrenOf c = [] := by
      rw [childrenOf, hn]
    rw [selectionItems, hn, ht.descendants_eq, hnone]
    rfl
  | ok n =>
    rw [selectionItems, hn]
    simp only
    rw [← childrenOf_eq hn, ht.collectItems_eq, ← ht.descendants_eq]
    · exact ht.node_of_mem_childrenOf
    · rw [← ht.descendants_eq]
      exact ht.length_descendants_le c

theorem mem_selectionItems (ht : t.WellFormed) :
    x ∈ t.selectionItems c ↔ x ∈ t.descendants c ∧ t.supports x .selectionItem = true := by
  rw [ht.selectionItems_eq, List.mem_filter]

end WellFormed

/-! ### Items by name -/

/-- The item that a name stands for: the first element of that name below a container, if it can be
selected. -/
def itemNamed? (t : Tree) (container : Handle) (name : String) : Option Handle :=
  ((t.descendants container).find? (t.satisfies (.property .name (.text name)))).filter
    fun x => t.supports x .selectionItem

/-- The items that several names stand for, if each of them stands for one. -/
def itemsNamed? (t : Tree) (container : Handle) (names : List String) : Option (List Handle) :=
  names.mapM (t.itemNamed? container)

theorem itemsNamed?_cons (t : Tree) (container : Handle) (name : String) (names : List String) :
    t.itemsNamed? container (name :: names) =
      (t.itemNamed? container name).bind fun item =>
        (t.itemsNamed? container names).map (item :: ·) := by
  rw [itemsNamed?, List.mapM_cons]
  cases t.itemNamed? container name with
  | none => rfl
  | some item =>
    rw [Option.bind_some, ← itemsNamed?]
    cases t.itemsNamed? container names <;> rfl

theorem map_itemNamed? {container : Handle} {names : List String} {items : List Handle}
    (hitems : t.itemsNamed? container names = some items) :
    names.map (t.itemNamed? container) = items.map some := by
  induction names generalizing items with
  | nil =>
    obtain rfl := Option.some.inj hitems
    rfl
  | cons name names ih =>
    rw [itemsNamed?_cons, Option.bind_eq_some_iff] at hitems
    obtain ⟨item, hitem, hrest⟩ := hitems
    obtain ⟨others, hothers, rfl⟩ := Option.map_eq_some_iff.mp hrest
    rw [List.map_cons, List.map_cons, hitem, ih hothers]

theorem mem_itemsNamed?_iff {container : Handle} {names : List String} {items : List Handle}
    (hitems : t.itemsNamed? container names = some items) :
    x ∈ items ↔ ∃ name ∈ names, t.itemNamed? container name = some x := by
  rw [← List.mem_map, map_itemNamed? hitems,
    List.mem_map_of_injective fun _ _ => Option.some.inj]

theorem mem_of_itemsNamed? {container : Handle} {names : List String} {items : List Handle}
    (hitems : t.itemsNamed? container names = some items) (hx : x ∈ items) :
    x ∈ t.descendants container ∧ t.supports x .selectionItem = true := by
  obtain ⟨name, -, hitem⟩ := (mem_itemsNamed?_iff hitems).mp hx
  obtain ⟨hfound, hsupports⟩ := Option.filter_eq_some_iff.mp hitem
  exact ⟨List.mem_of_find?_eq_some hfound, hsupports⟩

theorem WellFormed.isLive_of_mem_itemsNamed? (ht : t.WellFormed) {container : Handle}
    {names : List String} {items : List Handle} (hitems : t.itemsNamed? container names = some items)
    (hx : x ∈ items) : t.isLive x = true :=
  isLive_iff.mpr (ht.node_of_mem_descendants (mem_of_itemsNamed? hitems hx).1)

/-! ### What containers depend on -/

namespace Agree

variable {s t : Tree}

theorem exists_node (hst : Agree Node.frame s t) (hn : s.node h = .ok n) :
    ∃ m, t.node h = .ok m ∧ m.frame = n.frame := by
  obtain ⟨hget, hlive⟩ := node_eq_ok_iff.mp hn
  obtain ⟨m, hm, hframe⟩ := hst.getElem? hget
  have hremoved : m.removed = n.removed := congrArg (fun n => n.removed) hframe
  exact ⟨m, node_eq_ok_iff.mpr ⟨hm, hremoved.trans hlive⟩, hframe⟩

theorem supports (hst : Agree Node.frame s t) {p : Pattern} (hsupports : s.supports h p = true) :
    t.supports h p = true := by
  obtain ⟨n, hn, hp⟩ := supports_iff.mp hsupports
  obtain ⟨m, hm, hframe⟩ := hst.exists_node hn
  have heq : m.supports p = n.supports p := congrArg (fun n => n.supports p) hframe
  exact supports_iff.mpr ⟨m, hm, heq.trans hp⟩

theorem nearest (hst : Agree Node.frame s t) (hnearest : s.Nearest x c) : t.Nearest x c := by
  have hdescendants : ∀ d, s.descendants d = t.descendants d := (hst.map Node.place).descendants
  refine ⟨hst.supports hnearest.container, ?_, fun d hd hx => ?_⟩
  · rw [← hdescendants]
    exact hnearest.above
  · rw [subtree, ← hdescendants]
    rw [← hdescendants] at hx
    exact hnearest.nearest d (hst.symm.supports hd) hx

end Agree

end Tree

end ElementQuery
