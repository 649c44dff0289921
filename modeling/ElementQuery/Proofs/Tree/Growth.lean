import ElementQuery.Proofs.Tree.Descendants

/-!
# Adding elements

What the changes that add elements do. On an element that is in the tree each of them succeeds, and
the tree that it leaves is the old one with new entries at its end, whose handles the element lists
after those it had. On any other handle they fail and leave the tree alone. A new entry has nothing
below it and comes after all others, so a well-formed tree stays well formed.
-/

namespace ElementQuery

namespace Tree

/-- The tree with one more element, the last child of another. -/
def grow (t : Tree) (p : Handle) (spec : ElementSpec) : Tree :=
  { t with nodes := t.nodes.push (.ofSpec (some p) spec) }.modify p fun n =>
    { n with children := n.children ++ [t.nodes.size] }

/-- The tree with several more elements below one. -/
def growAll (t : Tree) (p : Handle) (specs : List ElementSpec) : Tree :=
  specs.foldl (fun t spec => t.grow p spec) t

variable {t : Tree} {p : Handle} {n : Node}

theorem getElem?_grow (hp : t.node p = .ok n) (spec : ElementSpec) (x : Handle) :
    (t.grow p spec).nodes[x]? =
      if x = t.nodes.size then some (.ofSpec (some p) spec)
      else if x = p then some { n with children := n.children ++ [t.nodes.size] }
      else t.nodes[x]? := by
  have hlt := lt_size_of_node hp
  have hget := (node_eq_ok_iff.mp hp).1
  rw [grow, getElem?_modify]
  simp only [Array.getElem?_push]
  by_cases hnew : x = t.nodes.size
  · have hne : p ≠ x := fun heq => Nat.ne_of_lt hlt (heq.trans hnew)
    rw [if_neg hne, if_pos hnew, if_pos hnew]
  · rw [if_neg hnew, if_neg hnew]
    by_cases hself : p = x
    · subst hself
      rw [if_pos rfl, if_pos rfl, hget, Option.map_some]
    · rw [if_neg hself, if_neg fun heq => hself heq.symm]

theorem exists_getElem?_grow (hp : t.node p = .ok n) (spec : ElementSpec) {x : Handle} {m : Node}
    (hm : t.nodes[x]? = some m) :
    ∃ children, (t.grow p spec).nodes[x]? = some { m with children } := by
  have hne : x ≠ t.nodes.size := Nat.ne_of_lt (Array.getElem?_eq_some_iff.mp hm).1
  rw [getElem?_grow hp, if_neg hne]
  split
  · next hself =>
    subst hself
    obtain rfl := Option.some.inj ((node_eq_ok_iff.mp hp).1.symm.trans hm)
    exact ⟨_, rfl⟩
  · exact ⟨m.children, hm⟩

theorem size_grow (t : Tree) (p : Handle) (spec : ElementSpec) :
    (t.grow p spec).nodes.size = t.nodes.size + 1 := by
  simp [grow, Tree.modify]

theorem node_grow_self (hp : t.node p = .ok n) (spec : ElementSpec) :
    (t.grow p spec).node p = .ok { n with children := n.children ++ [t.nodes.size] } := by
  have hne : p ≠ t.nodes.size := Nat.ne_of_lt (lt_size_of_node hp)
  rw [node_eq_ok_iff, getElem?_grow hp, if_neg hne, if_pos rfl]
  exact ⟨rfl, (node_eq_ok_iff.mp hp).2⟩

/-- An element of the grown tree is the new one, the one it was added to, or an old one. -/
theorem node_grow_cases (hp : t.node p = .ok n) {spec : ElementSpec} {x : Handle} {m : Node}
    (hx : (t.grow p spec).node x = .ok m) :
    (x = t.nodes.size ∧ m = .ofSpec (some p) spec) ∨
      (x = p ∧ m = { n with children := n.children ++ [t.nodes.size] }) ∨
      (x ≠ p ∧ t.node x = .ok m) := by
  rw [node_eq_ok_iff, getElem?_grow hp] at hx
  obtain ⟨hget, hremoved⟩ := hx
  split at hget
  · next hnew => exact .inl ⟨hnew, (Option.some.inj hget).symm⟩
  · split at hget
    · next hself => exact .inr (.inl ⟨hself, (Option.some.inj hget).symm⟩)
    · next hself => exact .inr (.inr ⟨hself, node_eq_ok_iff.mpr ⟨hget, hremoved⟩⟩)

/-- An old element of the grown tree is where it was, with its old children and maybe a new one. -/
theorem node_grow_of_node (hp : t.node p = .ok n) (spec : ElementSpec) {x : Handle} {m : Node}
    (hx : t.node x = .ok m) :
    ∃ m', (t.grow p spec).node x = .ok m' ∧ m'.parent = m.parent ∧ m.children ⊆ m'.children := by
  by_cases hself : x = p
  · subst hself
    obtain rfl : n = m := Except.ok.inj (hp.symm.trans hx)
    exact ⟨_, node_grow_self hp spec, rfl, List.subset_append_left _ _⟩
  · have hne : x ≠ t.nodes.size := Nat.ne_of_lt (lt_size_of_node hx)
    refine ⟨m, ?_, rfl, List.Subset.refl _⟩
    rw [node_eq_ok_iff, getElem?_grow hp, if_neg hne, if_neg hself]
    exact node_eq_ok_iff.mp hx

theorem node_grow_new (hp : t.node p = .ok n) (spec : ElementSpec) :
    (t.grow p spec).node t.nodes.size = .ok (.ofSpec (some p) spec) := by
  rw [node_eq_ok_iff, getElem?_grow hp, if_pos rfl]
  exact ⟨rfl, rfl⟩

theorem WellFormed.grow (ht : t.WellFormed) (hp : t.node p = .ok n) (spec : ElementSpec) :
    (t.grow p spec).WellFormed where
  root_parent := by
    intro m hm
    have hlt := lt_size_of_node hp
    rw [getElem?_grow hp] at hm
    split at hm
    · next hnew => exact absurd hlt (hnew ▸ Nat.not_lt_zero p)
    · split at hm
      · next hself =>
        obtain rfl := Option.some.inj hm
        exact ht.root_parent n (hself ▸ (node_eq_ok_iff.mp hp).1)
      · exact ht.root_parent m hm
  parent_live := by
    intro x m hx hroot
    have hold : ∀ m₀ : Node, t.node x = .ok m₀ → ∃ q r, m₀.parent = some q ∧ q < x ∧
        (t.grow p spec).node q = .ok r ∧ x ∈ r.children := by
      intro m₀ hm₀
      obtain ⟨q, r, hparent, hlt, hq, hmem⟩ := ht.parent_live x m₀ hm₀ hroot
      obtain ⟨r', hr', -, hsubset⟩ := node_grow_of_node hp spec hq
      exact ⟨q, r', hparent, hlt, hr', hsubset hmem⟩
    rcases node_grow_cases hp hx with ⟨rfl, rfl⟩ | ⟨rfl, rfl⟩ | ⟨-, hx⟩
    · exact ⟨p, _, rfl, lt_size_of_node hp, node_grow_self hp spec, by simp⟩
    · exact hold n hp
    · exact hold m hx
  child_live := by
    intro x m c hx hc
    have hold : ∀ m₀ : Node, t.node x = .ok m₀ → c ∈ m₀.children →
        ∃ r, (t.grow p spec).node c = .ok r ∧ r.parent = some x := by
      intro m₀ hm₀ hc
      obtain ⟨r, hr, hparent⟩ := ht.child_live x m₀ c hm₀ hc
      obtain ⟨r', hr', hparent', -⟩ := node_grow_of_node hp spec hr
      exact ⟨r', hr', hparent'.trans hparent⟩
    rcases node_grow_cases hp hx with ⟨-, rfl⟩ | ⟨rfl, rfl⟩ | ⟨-, hx⟩
    · exact absurd hc List.not_mem_nil
    · rcases List.mem_append.mp hc with hc | hc
      · exact hold n hp hc
      · obtain rfl := List.mem_singleton.mp hc
        exact ⟨_, node_grow_new hp spec, rfl⟩
    · exact hold m hx hc
  children_sorted := by
    intro x m hm
    rw [getElem?_grow hp] at hm
    split at hm
    · obtain rfl := Option.some.inj hm
      exact List.Pairwise.nil
    · split at hm
      · obtain rfl := Option.some.inj hm
        rw [List.pairwise_append]
        refine ⟨ht.children_sorted p n (node_eq_ok_iff.mp hp).1, List.pairwise_singleton _ _, ?_⟩
        intro c hc d hd
        obtain rfl := List.mem_singleton.mp hd
        exact ht.lt_size_of_mem (mem_childrenOf.mpr ⟨n, hp, hc⟩)
      · exact ht.children_sorted x m hm
  cells_rectangular := by
    intro x m g hm hg
    rw [getElem?_grow hp] at hm
    split at hm
    · obtain rfl := Option.some.inj hm
      contradiction
    · split at hm
      · obtain rfl := Option.some.inj hm
        exact ht.cells_rectangular p n g (node_eq_ok_iff.mp hp).1 hg
      · exact ht.cells_rectangular x m g hm hg

/-! ### Several elements -/

theorem node_growAll_self (hp : t.node p = .ok n) (specs : List ElementSpec) :
    ∃ m, (t.growAll p specs).node p = .ok m := by
  induction specs generalizing t n with
  | nil => exact ⟨n, hp⟩
  | cons spec specs ih => exact ih (node_grow_self hp spec)

theorem exists_getElem?_growAll (hp : t.node p = .ok n) (specs : List ElementSpec) {x : Handle}
    {m : Node} (hm : t.nodes[x]? = some m) :
    ∃ children, (t.growAll p specs).nodes[x]? = some { m with children } := by
  induction specs generalizing t n m with
  | nil => exact ⟨m.children, hm⟩
  | cons spec specs ih =>
    obtain ⟨_, hfirst⟩ := exists_getElem?_grow hp spec hm
    obtain ⟨children, hrest⟩ := ih (node_grow_self hp spec) hfirst
    exact ⟨children, hrest⟩

theorem node_growAll_of_ne (hp : t.node p = .ok n) (specs : List ElementSpec) {x : Handle}
    {m : Node} (hx : t.node x = .ok m) (hne : x ≠ p) : (t.growAll p specs).node x = .ok m := by
  induction specs generalizing t n with
  | nil => exact hx
  | cons spec specs ih =>
    refine ih (node_grow_self hp spec) ?_
    have hold : x ≠ t.nodes.size := Nat.ne_of_lt (lt_size_of_node hx)
    rw [node_eq_ok_iff, getElem?_grow hp, if_neg hold, if_neg hne]
    exact node_eq_ok_iff.mp hx

/-- The new elements follow the old ones in the order of their descriptions. -/
theorem node_growAll_new (hp : t.node p = .ok n) {specs : List ElementSpec} {i : Nat}
    {spec : ElementSpec} (hi : specs[i]? = some spec) :
    (t.growAll p specs).node (t.nodes.size + i : Nat) = .ok (.ofSpec (some p) spec) := by
  induction specs generalizing t n i with
  | nil => contradiction
  | cons first specs ih =>
    cases i with
    | zero =>
      obtain rfl := Option.some.inj hi
      have hne : t.nodes.size ≠ p := Nat.ne_of_gt (lt_size_of_node hp)
      exact node_growAll_of_ne (node_grow_self hp first) specs (node_grow_new hp first) hne
    | succ i =>
      have hlater := ih (node_grow_self hp first) hi
      rw [size_grow, Nat.add_assoc, Nat.add_comm 1] at hlater
      exact hlater

theorem WellFormed.growAll (ht : t.WellFormed) (hp : t.node p = .ok n)
    (specs : List ElementSpec) : (t.growAll p specs).WellFormed := by
  induction specs generalizing t n with
  | nil => exact ht
  | cons spec specs ih => exact ih (ht.grow hp spec) (node_grow_self hp spec)

theorem size_growAll (t : Tree) (p : Handle) (specs : List ElementSpec) :
    (t.growAll p specs).nodes.size = t.nodes.size + specs.length := by
  induction specs generalizing t with
  | nil => rfl
  | cons spec specs ih =>
    have hrest := ih (t.grow p spec)
    rw [size_grow, Nat.add_assoc, Nat.add_comm 1] at hrest
    exact hrest

theorem growAll_append (specs others : List ElementSpec) :
    t.growAll p (specs ++ others) = (t.growAll p specs).growAll p others := by
  rw [growAll, List.foldl_append]
  rfl

end Tree

namespace Edit

variable {t : Tree} {p : Handle} {n : Node}

theorem perform_add (hp : t.node p = .ok n) (spec : ElementSpec) :
    (add p spec).perform t = (.ok t.nodes.size, t.grow p spec) := by
  have hpushed : ∃ m,
      ({ t with nodes := t.nodes.push (.ofSpec (some p) spec) } : Tree).node p = .ok m := by
    have hne : p ≠ t.nodes.size := Nat.ne_of_lt (Tree.lt_size_of_node hp)
    refine ⟨n, Tree.node_eq_ok_iff.mpr ?_⟩
    rw [Array.getElem?_push, if_neg hne]
    exact Tree.node_eq_ok_iff.mp hp
  obtain ⟨m, hm⟩ := hpushed
  simp only [add, perform_bind, perform_node, hp, perform_get, perform_modify, perform_update, hm,
    perform_pure, Tree.grow]

theorem perform_addAll (hp : t.node p = .ok n) (specs : List ElementSpec) :
    (addAll p specs).perform t =
      (.ok (List.range' t.nodes.size specs.length), t.growAll p specs) := by
  induction specs generalizing t n with
  | nil => rfl
  | cons spec specs ih =>
    rw [addAll, perform_bind, perform_add hp]
    simp only
    rw [perform_bind, ih (Tree.node_grow_self hp spec), Tree.size_grow]
    rfl

theorem perform_addRows (hp : t.node p = .ok n) (rows : List (List ElementSpec)) :
    ∃ cells : List (List Handle),
      (addRows p rows).perform t = (.ok cells, t.growAll p rows.flatten) ∧
        cells.map List.length = rows.map List.length ∧
        cells.flatten = List.range' t.nodes.size rows.flatten.length := by
  induction rows generalizing t n with
  | nil => exact ⟨[], rfl, rfl, rfl⟩
  | cons row rows ih =>
    obtain ⟨m, hm⟩ := Tree.node_growAll_self hp row
    obtain ⟨cells, hperform, hlength, hflatten⟩ := ih hm
    refine ⟨List.range' t.nodes.size row.length :: cells, ?_, ?_, ?_⟩
    · rw [addRows, perform_bind, perform_addAll hp]
      simp only
      rw [perform_bind, hperform, List.flatten_cons, Tree.growAll_append]
      rfl
    · rw [List.map_cons, List.map_cons, hlength, List.length_range']
    · rw [List.flatten_cons, hflatten, Tree.size_growAll, List.flatten_cons, List.length_append,
        List.range'_append_1]

def cellSpecs (rows columns : Nat) : List (List ElementSpec) :=
  (List.range rows).map fun r => (List.range columns).map fun c => cellSpec r c

theorem map_length_cellSpecs (rows columns : Nat) :
    (cellSpecs rows columns).map List.length = List.replicate rows columns := by
  rw [List.eq_replicate_iff, cellSpecs, List.map_map]
  refine ⟨by simp, ?_⟩
  intro k hk
  obtain ⟨r, -, rfl⟩ := List.mem_map.mp hk
  simp

theorem perform_addGrid (hp : t.node p = .ok n) (rows columns : Nat) :
    ∃ cells : List (List Handle),
      (addGrid p rows columns).perform t =
        (.ok cells, (t.growAll p (cellSpecs rows columns).flatten).modify p
          (Node.mapGrid fun g => { g with cells })) ∧
      cells.map List.length = List.replicate rows columns ∧
      cells.flatten = List.range' t.nodes.size (cellSpecs rows columns).flatten.length := by
  obtain ⟨cells, hperform, hlength, hflatten⟩ := perform_addRows hp (cellSpecs rows columns)
  obtain ⟨m, hm⟩ := Tree.node_growAll_self hp (cellSpecs rows columns).flatten
  refine ⟨cells, ?_, hlength.trans (map_length_cellSpecs rows columns), hflatten⟩
  rw [addGrid, perform_bind, ← cellSpecs, hperform]
  simp only
  rw [perform_bind, perform_update, hm]
  rfl

theorem perform_addTableHeaders (hp : t.node p = .ok n) (rowNames columnNames : List String) :
    (addTableHeaders p rowNames columnNames).perform t =
      (.ok (), (t.growAll p (rowNames.map headerSpec ++ columnNames.map headerSpec)).modify p
        (Node.mapGrid fun g =>
          { g with
            rowHeaders := List.range' t.nodes.size (rowNames.map headerSpec).length
            columnHeaders := List.range' (t.growAll p (rowNames.map headerSpec)).nodes.size
              (columnNames.map headerSpec).length
            isTable := true })) := by
  obtain ⟨m, hm⟩ := Tree.node_growAll_self hp (rowNames.map headerSpec)
  obtain ⟨m', hm'⟩ := Tree.node_growAll_self hm (columnNames.map headerSpec)
  rw [addTableHeaders, perform_bind, perform_addAll hp]
  simp only
  rw [perform_bind, perform_addAll hm]
  simp only
  rw [perform_update, hm', Tree.growAll_append]

/-! ### Elements that are not in the tree -/

theorem perform_add_error {e : Error} (hp : t.node p = .error e) (spec : ElementSpec) :
    (add p spec).perform t = (.error e, t) := by
  rw [add, perform_bind, perform_node, hp]

theorem perform_addAll_error {e : Error} (hp : t.node p = .error e) (specs : List ElementSpec) :
    (addAll p specs).perform t = (.error e, t) ∨ (addAll p specs).perform t = (.ok [], t) := by
  cases specs with
  | nil => exact .inr rfl
  | cons spec specs =>
    left
    rw [addAll, perform_bind, perform_add_error hp]

theorem perform_addRows_error {e : Error} (hp : t.node p = .error e)
    (rows : List (List ElementSpec)) :
    (addRows p rows).perform t = (.error e, t) ∨
      ∃ cells, (addRows p rows).perform t = (.ok cells, t) := by
  induction rows with
  | nil => exact .inr ⟨[], rfl⟩
  | cons row rows ih =>
    rw [addRows, perform_bind]
    rcases perform_addAll_error hp row with hrow | hrow
    · left
      rw [hrow]
    · rw [hrow]
      simp only
      rw [perform_bind]
      rcases ih with hrest | ⟨cells, hrest⟩
      · left
        rw [hrest]
      · right
        rw [hrest]
        exact ⟨_, rfl⟩

theorem perform_addGrid_error {e : Error} (hp : t.node p = .error e) (rows columns : Nat) :
    (addGrid p rows columns).perform t = (.error e, t) := by
  rw [addGrid, perform_bind, ← cellSpecs]
  rcases perform_addRows_error hp (cellSpecs rows columns) with hrows | ⟨cells, hrows⟩
  · rw [hrows]
  · rw [hrows]
    simp only
    rw [perform_bind, perform_update, hp]

theorem perform_addTableHeaders_error {e : Error} (hp : t.node p = .error e)
    (rowNames columnNames : List String) :
    (addTableHeaders p rowNames columnNames).perform t = (.error e, t) := by
  rw [addTableHeaders, perform_bind]
  rcases perform_addAll_error hp (rowNames.map headerSpec) with hrow | hrow
  · rw [hrow]
  · rw [hrow]
    simp only
    rw [perform_bind]
    rcases perform_addAll_error hp (columnNames.map headerSpec) with hcolumn | hcolumn
    · rw [hcolumn]
    · rw [hcolumn]
      simp only
      rw [perform_update, hp]

end Edit

end ElementQuery
