import ElementQuery.Proofs.Tree.WellFormed
import Mathlib.Data.List.Nodup
import Mathlib.Data.List.Perm.Subperm

/-!
# What is below an element, and how it is searched

The descendants of an element as a list, and the searches that go through them.
-/

namespace ElementQuery.Tree

/-! ## What is below an element

The descendants of an element are listed by a recursion that is cut off at some depth. In a
well-formed tree the cut is never felt, so the list obeys the equation of the recursion: the
descendants are, child by child, the child and its descendants. From that equation follow the facts
that every walk through a tree rests on. What is below an element is in the tree, comes after the
element, and has its parent at or below the element; nothing is listed twice, and so no walk is
longer than the tree has elements.
-/

def subtree (t : Tree) (h : Handle) : List Handle :=
  h :: t.descendants h

namespace WellFormed

variable {t : Tree} {h c x : Nat}

private theorem preorder_succ (ht : t.WellFormed) {depth : Nat} (hdepth : t.nodes.size ≤ h + depth) :
    t.preorder (depth + 1) h = t.preorder depth h := by
  induction depth generalizing h with
  | zero =>
    have hnone : t.childrenOf h = [] := by
      rw [List.eq_nil_iff_forall_not_mem]
      intro c hc
      have hlt := ht.lt_of_mem hc
      have hsize := ht.lt_size_of_mem hc
      omega
    simp [preorder, hnone]
  | succ depth ih =>
    rw [preorder, preorder]
    apply List.flatMap_congr
    intro c hc
    have hlt := ht.lt_of_mem hc
    rw [ih (by omega)]

/-- The descendants of an element are, child by child, the child and its descendants. -/
theorem descendants_eq (ht : t.WellFormed) (h : Handle) :
    t.descendants h = (t.childrenOf h).flatMap t.subtree := by
  rw [descendants]
  cases hsize : t.nodes.size with
  | zero =>
    have hnone : t.childrenOf h = [] := by
      rw [List.eq_nil_iff_forall_not_mem]
      intro c hc
      have hlt := ht.lt_size_of_mem hc
      omega
    rw [hnone, preorder, List.flatMap_nil]
  | succ depth =>
    rw [preorder]
    apply List.flatMap_congr
    intro c hc
    have hlt := ht.lt_of_mem hc
    rw [subtree, descendants, hsize, ht.preorder_succ (by omega)]

/-- What a stack stands for when its first element is replaced by the children of that element. -/
theorem flatMap_subtree_cons (ht : t.WellFormed) (h : Handle) (stack : List Handle) :
    (h :: stack).flatMap t.subtree = h :: (t.childrenOf h ++ stack).flatMap t.subtree := by
  rw [List.flatMap_cons, subtree, ht.descendants_eq, List.flatMap_append, List.cons_append]

theorem node_of_mem_childrenOf (ht : t.WellFormed) :
    ∀ x ∈ t.childrenOf h, ∃ n, t.node x = .ok n := by
  intro x hx
  obtain ⟨n, hn, -⟩ := ht.node_of_mem hx
  exact ⟨n, hn⟩

/-- An element may be taken from a stack and its children put there: all on it are in the tree still,
and it stands for the same elements without the first. -/
theorem pop (ht : t.WellFormed) {stack : List Handle} {n : Node}
    (hstack : ∀ x ∈ h :: stack, ∃ n, t.node x = .ok n) (hn : t.node h = .ok n) :
    (∀ x ∈ n.children ++ stack, ∃ m, t.node x = .ok m) ∧
      (h :: stack).flatMap t.subtree = h :: (n.children ++ stack).flatMap t.subtree := by
  rw [← childrenOf_eq hn]
  refine ⟨fun x hx => ?_, ht.flatMap_subtree_cons h stack⟩
  rcases List.mem_append.mp hx with hchild | hlater
  · exact ht.node_of_mem_childrenOf x hchild
  · exact hstack x (List.mem_cons_of_mem _ hlater)

theorem mem_descendants (ht : t.WellFormed) :
    x ∈ t.descendants h ↔ ∃ c ∈ t.childrenOf h, x ∈ t.subtree c := by
  rw [ht.descendants_eq, List.mem_flatMap]

theorem mem_descendants_of_mem_childrenOf (ht : t.WellFormed) (hc : c ∈ t.childrenOf h) :
    c ∈ t.descendants h :=
  ht.mem_descendants.mpr ⟨c, hc, List.mem_cons_self⟩

theorem exists_parent (ht : t.WellFormed) (hx : x ∈ t.descendants h) :
    ∃ p ∈ t.subtree h, x ∈ t.childrenOf p := by
  induction h using ht.induction with
  | step h ih =>
    obtain ⟨c, hc, hsub⟩ := ht.mem_descendants.mp hx
    rcases List.mem_cons.mp hsub with rfl | hbelow
    · exact ⟨h, List.mem_cons_self, hc⟩
    · obtain ⟨p, hp, hxp⟩ := ih c hc hbelow
      exact ⟨p, List.mem_cons_of_mem _ (ht.mem_descendants.mpr ⟨c, hc, hp⟩), hxp⟩

theorem mem_descendants_of_parent (ht : t.WellFormed) {p : Nat} (hp : p ∈ t.subtree h)
    (hx : x ∈ t.childrenOf p) : x ∈ t.descendants h := by
  induction h using ht.induction with
  | step h ih =>
    rcases List.mem_cons.mp hp with rfl | hbelow
    · exact ht.mem_descendants_of_mem_childrenOf hx
    · obtain ⟨c, hc, hsub⟩ := ht.mem_descendants.mp hbelow
      exact ht.mem_descendants.mpr ⟨c, hc, List.mem_cons_of_mem _ (ih c hc hsub)⟩

theorem lt_of_mem_descendants (ht : t.WellFormed) (hx : x ∈ t.descendants h) : h < x := by
  induction h using ht.induction with
  | step h ih =>
    obtain ⟨c, hc, hsub⟩ := ht.mem_descendants.mp hx
    have hlt := ht.lt_of_mem hc
    rcases List.mem_cons.mp hsub with rfl | hbelow
    · exact hlt
    · exact Nat.lt_trans hlt (ih c hc hbelow)

theorem node_of_mem_descendants (ht : t.WellFormed) (hx : x ∈ t.descendants h) :
    ∃ n, t.node x = .ok n := by
  obtain ⟨p, -, hxp⟩ := ht.exists_parent hx
  exact ht.node_of_mem_childrenOf x hxp

theorem node_of_mem_subtree (ht : t.WellFormed) {n : Node} (hn : t.node h = .ok n)
    (hx : x ∈ t.subtree h) : ∃ m, t.node x = .ok m := by
  rcases List.mem_cons.mp hx with rfl | hbelow
  · exact ⟨n, hn⟩
  · exact ht.node_of_mem_descendants hbelow

theorem lt_size_of_mem_descendants (ht : t.WellFormed) (hx : x ∈ t.descendants h) :
    x < t.nodes.size := by
  obtain ⟨n, hn⟩ := ht.node_of_mem_descendants hx
  exact lt_size_of_node hn

/-! ### Nothing is listed twice -/

/-- What is at or below two children of one element shows that the children are the same. -/
theorem child_unique (ht : t.WellFormed) {d : Nat} (hc : c ∈ t.childrenOf h)
    (hd : d ∈ t.childrenOf h) (hxc : x ∈ t.subtree c) (hxd : x ∈ t.subtree d) : c = d := by
  have habove : ∀ {c d : Nat}, c ∈ t.childrenOf h → d ∈ t.childrenOf h →
      c ∉ t.descendants d := by
    intro c d hc hd hbelow
    obtain ⟨p, hp, hcp⟩ := ht.exists_parent hbelow
    obtain rfl := ht.parent_unique hcp hc
    have hlt := ht.lt_of_mem hd
    rcases List.mem_cons.mp hp with rfl | hbelow'
    · exact Nat.lt_irrefl _ hlt
    · exact Nat.lt_asymm hlt (ht.lt_of_mem_descendants hbelow')
  -- Going up from `x` stays at or below both children until it meets one of them.
  induction x using Nat.strongRecOn with
  | _ x ih =>
    rcases List.mem_cons.mp hxc with rfl | hxc
    · rcases List.mem_cons.mp hxd with rfl | hxd
      · rfl
      · exact absurd hxd (habove hc hd)
    · rcases List.mem_cons.mp hxd with rfl | hxd
      · exact absurd hxc (habove hd hc)
      · obtain ⟨p, hp, hxp⟩ := ht.exists_parent hxc
        obtain ⟨q, hq, hxq⟩ := ht.exists_parent hxd
        obtain rfl := ht.parent_unique hxp hxq
        exact ih p (ht.lt_of_mem hxp) hp hq

theorem nodup_subtree (ht : t.WellFormed) (h : Handle) : (t.subtree h).Nodup := by
  induction h using ht.induction with
  | step h ih =>
    rw [subtree, List.nodup_cons]
    refine ⟨fun hself => Nat.lt_irrefl h (ht.lt_of_mem_descendants hself), ?_⟩
    rw [ht.descendants_eq, List.nodup_flatMap]
    refine ⟨ih, ?_⟩
    apply (ht.childrenOf_sorted h).imp_of_mem
    intro c d hc hd hlt
    show List.Disjoint (t.subtree c) (t.subtree d)
    rw [List.disjoint_left]
    intro x hxc hxd
    exact Nat.ne_of_lt hlt (ht.child_unique hc hd hxc hxd)

theorem nodup_descendants (ht : t.WellFormed) (h : Handle) : (t.descendants h).Nodup :=
  (List.nodup_cons.mp (ht.nodup_subtree h)).2

theorem length_descendants_le (ht : t.WellFormed) (h : Handle) :
    (t.descendants h).length ≤ t.nodes.size := by
  have hsubset : t.descendants h ⊆ List.range t.nodes.size := fun x hx =>
    List.mem_range.mpr (ht.lt_size_of_mem_descendants hx)
  have hle := ((ht.nodup_descendants h).subperm hsubset).length_le
  rwa [List.length_range] at hle

theorem length_subtree_le (ht : t.WellFormed) {n : Node} (hn : t.node h = .ok n) :
    (t.subtree h).length ≤ t.nodes.size := by
  have hsubset : t.subtree h ⊆ List.range t.nodes.size := by
    intro x hx
    obtain ⟨m, hm⟩ := ht.node_of_mem_subtree hn hx
    exact List.mem_range.mpr (lt_size_of_node hm)
  have hle := ((ht.nodup_subtree h).subperm hsubset).length_le
  rwa [List.length_range] at hle

end WellFormed

/-- What is below an element depends on the places of the elements only. -/
theorem Agree.descendants {s t : Tree} (hst : Agree Node.place s t) (h : Handle) :
    s.descendants h = t.descendants h := by
  have hpreorder : ∀ depth h, s.preorder depth h = t.preorder depth h := by
    intro depth
    induction depth with
    | zero => exact fun _ => rfl
    | succ depth ih =>
      intro h
      rw [preorder, preorder, hst.childrenOf]
      apply List.flatMap_congr
      intro c _
      rw [ih]
  rw [Tree.descendants, Tree.descendants, hst.size_eq, hpreorder]

/-! ## Searches through a tree

A search looks at the elements of its scope one after the other, in the order in which they are
listed, and takes the first that meets the condition. The stack of a walk stands for the list of what
is at and below its elements, so in a well-formed tree a walk looks at all of them, comes upon no
element that is not in the tree, and ends before its steps run out.
-/

namespace WellFormed

variable {t : Tree} {h x : Nat}

theorem searchFirst_eq (ht : t.WellFormed) (c : Condition) {steps : Nat} {stack : List Handle}
    (hstack : ∀ x ∈ stack, ∃ n, t.node x = .ok n)
    (hsteps : (stack.flatMap t.subtree).length ≤ steps) :
    t.searchFirst c steps stack = .ok ((stack.flatMap t.subtree).find? (t.satisfies c)) := by
  induction steps generalizing stack with
  | zero =>
    cases stack with
    | nil => rfl
    | cons h stack =>
      rw [ht.flatMap_subtree_cons, List.length_cons] at hsteps
      omega
  | succ steps ih =>
    cases stack with
    | nil => rfl
    | cons h stack =>
      obtain ⟨n, hn⟩ := hstack h List.mem_cons_self
      obtain ⟨hrest, hlist⟩ := ht.pop hstack hn
      rw [hlist, List.length_cons] at hsteps
      rw [searchFirst, hlist]
      by_cases hsatisfies : t.satisfies c h
      · rw [if_pos hsatisfies, List.find?_cons_of_pos hsatisfies]
      · rw [if_neg hsatisfies, List.find?_cons_of_neg hsatisfies, hn]
        exact ih hrest (by omega)

theorem findFirst_eq (ht : t.WellFormed) {n : Node} (hn : t.node h = .ok n) (scope : Scope)
    (c : Condition) :
    t.findFirst h scope c = .ok ((t.scopeList h scope).find? (t.satisfies c)) := by
  cases scope with
  | element =>
    rw [findFirst, hn, scopeList, List.find?_singleton]
    rfl
  | children =>
    rw [findFirst, hn, scopeList, childrenOf_eq hn]
    rfl
  | descendants =>
    rw [findFirst, firstDescendant, hn, scopeList]
    simp only [bind, Except.bind]
    rw [← childrenOf_eq hn, ht.searchFirst_eq, ← ht.descendants_eq]
    · exact ht.node_of_mem_childrenOf
    · rw [← ht.descendants_eq]
      exact ht.length_descendants_le h

theorem node_of_mem_scopeList (ht : t.WellFormed) {n : Node} (hn : t.node h = .ok n)
    {scope : Scope} (hx : x ∈ t.scopeList h scope) : ∃ m, t.node x = .ok m := by
  cases scope with
  | element =>
    obtain rfl := List.mem_singleton.mp hx
    exact ⟨n, hn⟩
  | children => exact ht.node_of_mem_childrenOf x hx
  | descendants => exact ht.node_of_mem_descendants hx

end WellFormed

end ElementQuery.Tree
