import ElementQuery.Proofs.Tree.Descendants

/-!
# Removing elements

Removing an element takes it from the list of its parent and then marks what is at and below it, with
a stack of the elements still to be marked. The stack always stands for elements that are neither
marked yet nor listed twice, so the walk never fails and ends with the last of them. What is left is
well formed: no element that stays has a removed parent or lists a removed child.
-/

namespace ElementQuery

def Node.dropChild (h : Handle) (n : Node) : Node :=
  { n with children := n.children.filter fun c => c != h }

namespace Tree

def marked (t : Tree) (removed : List Handle) : Tree :=
  { t with
    nodes := t.nodes.mapIdx fun x n => if x ∈ removed then { n with removed := true } else n }

def unlink (t : Tree) (h : Handle) : Option Handle → Tree
  | some p => t.modify p (Node.dropChild h)
  | none => t

/-- The tree that the removal of an element leaves. -/
def pruned (t : Tree) (h : Handle) (n : Node) : Tree :=
  (t.unlink h n.parent).marked (t.subtree h)

variable {t : Tree} {h x : Nat} {n : Node}

theorem getElem?_marked (t : Tree) (removed : List Handle) (x : Nat) :
    (t.marked removed).nodes[x]? =
      t.nodes[x]?.map fun n => if x ∈ removed then { n with removed := true } else n :=
  Array.getElem?_mapIdx

theorem marked_nil (t : Tree) : t.marked [] = t := by
  refine ext_of_getElem? (fun x => ?_) rfl
  simp [getElem?_marked]

/-- Marking one element first and the others later marks them all, in whatever order. -/
theorem marked_modify (t : Tree) {h : Handle} {removed rest : List Handle}
    (hmem : ∀ x, x ∈ removed ↔ x = h ∨ x ∈ rest) :
    (t.modify h fun n => { n with removed := true }).marked rest = t.marked removed := by
  refine ext_of_getElem? (fun x => ?_) rfl
  rw [getElem?_marked, getElem?_marked, getElem?_modify]
  cases t.nodes[x]? with
  | none => simp
  | some n =>
    by_cases hself : h = x
    · have hx : x ∈ removed := (hmem x).mpr (.inl hself.symm)
      simp [hself, hx]
    · have hx : x ∈ removed ↔ x ∈ rest := by
        rw [hmem, or_iff_right fun heq => hself heq.symm]
      simp [hself, hx]

theorem node_marked (t : Tree) (removed : List Handle) (x : Nat) :
    (t.marked removed).node x = if x ∈ removed then .error (unavailable x) else t.node x := by
  unfold node
  rw [getElem?_marked]
  cases t.nodes[x]? with
  | none => simp
  | some n => by_cases hx : x ∈ removed <;> simp [hx]

theorem node_unlink_of_ne {p : Option Handle} (hne : p ≠ some x) :
    (t.unlink h p).node x = t.node x := by
  cases p with
  | none => rfl
  | some p =>
    rw [unlink, node_modify, if_neg fun heq => hne (congrArg some heq)]
    exact fun _ => rfl

/-- Holds of a stack if what it stands for in a tree is not marked in another one yet, and is not
listed twice. -/
structure Unmarked (t s : Tree) (stack : List Handle) : Prop where
  node : ∀ x ∈ stack.flatMap t.subtree, ∃ m, s.node x = .ok m ∧ m.children = t.childrenOf x
  nodup : (stack.flatMap t.subtree).Nodup

theorem Unmarked.pop {s : Tree} {stack : List Handle} (hstack : Unmarked t s (h :: stack))
    (ht : t.WellFormed) :
    ∃ m, s.node h = .ok m ∧
      Unmarked t (s.modify h fun n => { n with removed := true }) (m.children.reverse ++ stack) ∧
      ((h :: stack).flatMap t.subtree).Perm
        (h :: (m.children.reverse ++ stack).flatMap t.subtree) := by
  have hnode := hstack.node
  have hnodup := hstack.nodup
  rw [ht.flatMap_subtree_cons] at hnode hnodup ⊢
  obtain ⟨m, hm, hchildren⟩ := hnode h List.mem_cons_self
  obtain ⟨hfresh, hrest⟩ := List.nodup_cons.mp hnodup
  have hperm : ((m.children.reverse ++ stack).flatMap t.subtree).Perm
      ((t.childrenOf h ++ stack).flatMap t.subtree) := by
    rw [← hchildren]
    exact ((List.reverse_perm m.children).append_right stack).flatMap_right t.subtree
  refine ⟨m, hm, ⟨fun x hx => ?_, hperm.nodup_iff.mpr hrest⟩, hperm.symm.cons h⟩
  rw [hperm.mem_iff] at hx
  have hne : h ≠ x := fun heq => hfresh (heq ▸ hx)
  obtain ⟨k, hk, hkchildren⟩ := hnode x (List.mem_cons_of_mem _ hx)
  refine ⟨k, ?_, hkchildren⟩
  rw [node_eq_ok_iff, getElem?_modify, if_neg hne]
  exact node_eq_ok_iff.mp hk

theorem WellFormed.unmarked_unlink (ht : t.WellFormed) (hn : t.node h = .ok n) :
    Unmarked t (t.unlink h n.parent) [h] := by
  constructor
  · rw [List.flatMap_singleton]
    intro x hx
    obtain ⟨m, hm⟩ := ht.node_of_mem_subtree hn hx
    refine ⟨m, ?_, (childrenOf_eq hm).symm⟩
    have hne : n.parent ≠ some x := by
      intro hparent
      have hlt := (ht.node_parent hn hparent).1
      rcases List.mem_cons.mp hx with rfl | hbelow
      · exact Nat.lt_irrefl _ hlt
      · exact Nat.lt_asymm hlt (ht.lt_of_mem_descendants hbelow)
    exact (node_unlink_of_ne hne).trans hm
  · rw [List.flatMap_singleton]
    exact ht.nodup_subtree h

end Tree

namespace Edit

variable {t : Tree} {h : Nat} {n : Node}

theorem perform_markRemoved (ht : t.WellFormed) {steps : Nat} {stack : List Handle} {s : Tree}
    (hstack : Tree.Unmarked t s stack) (hsteps : (stack.flatMap t.subtree).length ≤ steps) :
    (markRemoved steps stack).perform s = (.ok (), s.marked (stack.flatMap t.subtree)) := by
  induction steps generalizing stack s with
  | zero =>
    cases stack with
    | nil =>
      rw [List.flatMap_nil, Tree.marked_nil]
      rfl
    | cons h stack =>
      rw [ht.flatMap_subtree_cons, List.length_cons] at hsteps
      omega
  | succ steps ih =>
    cases stack with
    | nil =>
      rw [List.flatMap_nil, Tree.marked_nil]
      rfl
    | cons h stack =>
      obtain ⟨m, hm, hrest, hperm⟩ := hstack.pop ht
      have hlength := hperm.length_eq
      rw [List.length_cons] at hlength
      rw [markRemoved, perform_bind, perform_node, hm]
      simp only
      rw [perform_bind, perform_update, hm]
      simp only
      rw [ih hrest (by omega), Tree.marked_modify]
      intro x
      rw [hperm.mem_iff, List.mem_cons]

theorem perform_remove (ht : t.WellFormed) (hn : t.node h = .ok n) :
    (remove h).perform t = (.ok (), t.pruned h n) := by
  have hsize : (t.unlink h n.parent).nodes.size = t.nodes.size := by
    cases n.parent with
    | none => rfl
    | some p => exact Array.size_modify
  have hmark : (markRemoved (t.unlink h n.parent).nodes.size [h]).perform (t.unlink h n.parent) =
      (.ok (), t.pruned h n) := by
    rw [perform_markRemoved ht (ht.unmarked_unlink hn), List.flatMap_singleton, Tree.pruned]
    rw [List.flatMap_singleton, hsize]
    exact ht.length_subtree_le hn
  rw [remove, perform_bind, perform_node, hn]
  simp only
  cases hparent : n.parent with
  | none =>
    rw [hparent] at hmark
    simp only
    rw [perform_bind, perform_get]
    exact hmark
  | some p =>
    rw [hparent] at hmark
    obtain ⟨m, hm, -⟩ := Tree.mem_childrenOf.mp (ht.node_parent hn hparent).2
    simp only
    rw [perform_bind, perform_update, hm]
    simp only
    rw [perform_bind, perform_get]
    exact hmark

theorem perform_remove_error {e : Error} (hn : t.node h = .error e) :
    (remove h).perform t = (.error e, t) := by
  rw [remove, perform_bind, perform_node, hn]

end Edit

/-! ### What is left -/

namespace Tree

variable {t : Tree} {h x : Nat} {n : Node}

theorem exists_of_getElem?_pruned {m : Node} (hm : (t.pruned h n).nodes[x]? = some m) :
    ∃ m₀, t.nodes[x]? = some m₀ ∧ m.parent = m₀.parent ∧ m.children.Sublist m₀.children ∧
      m.grid = m₀.grid := by
  rw [pruned, getElem?_marked] at hm
  obtain ⟨k, hk, rfl⟩ := Option.map_eq_some_iff.mp hm
  obtain ⟨m₀, hget, hparent, hchildren, hgrid⟩ : ∃ m₀, t.nodes[x]? = some m₀ ∧
      k.parent = m₀.parent ∧ k.children.Sublist m₀.children ∧ k.grid = m₀.grid := by
    cases hn : n.parent with
    | none =>
      rw [hn] at hk
      exact ⟨k, hk, rfl, List.Sublist.refl _, rfl⟩
    | some p =>
      rw [hn, unlink, getElem?_modify] at hk
      split at hk
      · obtain ⟨m₀, hget, rfl⟩ := Option.map_eq_some_iff.mp hk
        exact ⟨m₀, hget, rfl, List.filter_sublist, rfl⟩
      · exact ⟨k, hk, rfl, List.Sublist.refl _, rfl⟩
  refine ⟨m₀, hget, ?_⟩
  split
  · exact ⟨hparent, hchildren, hgrid⟩
  · exact ⟨hparent, hchildren, hgrid⟩

namespace WellFormed

theorem node_unlink (ht : t.WellFormed) (hn : t.node h = .ok n) (x : Nat) :
    (t.unlink h n.parent).node x =
      (t.node x).map (Node.dropChild h) := by
  by_cases hparent : n.parent = some x
  · rw [hparent, unlink, node_modify, if_pos rfl]
    exact fun _ => rfl
  · rw [node_unlink_of_ne hparent]
    cases hm : t.node x with
    | error e => rfl
    | ok m =>
      have hkeep : m.children.filter (fun c => c != h) = m.children := by
        rw [List.filter_eq_self]
        intro c hc
        rw [bne_iff_ne]
        rintro rfl
        obtain ⟨n', hn', hx⟩ := ht.child_live x m c hm hc
        obtain rfl := Except.ok.inj (hn.symm.trans hn')
        exact hparent hx
      simp only [Except.map, Node.dropChild, hkeep]

/-- The elements that stay are those that are not at or below the removed one. They stay as they
are, except that they do not list the removed one any more. -/
theorem node_pruned (ht : t.WellFormed) (hn : t.node h = .ok n) (x : Nat) :
    (t.pruned h n).node x =
      if x ∈ t.subtree h then .error (unavailable x)
      else (t.node x).map (Node.dropChild h) := by
  rw [pruned, node_marked, ht.node_unlink hn]

theorem node_pruned_cases (ht : t.WellFormed) (hn : t.node h = .ok n) {m : Node}
    (hm : (t.pruned h n).node x = .ok m) :
    x ∉ t.subtree h ∧ ∃ m₀, t.node x = .ok m₀ ∧ m = m₀.dropChild h := by
  rw [ht.node_pruned hn] at hm
  split at hm
  · contradiction
  · next hx =>
    cases hm₀ : t.node x with
    | error e =>
      rw [hm₀] at hm
      contradiction
    | ok m₀ =>
      rw [hm₀] at hm
      exact ⟨hx, m₀, rfl, (Except.ok.inj hm).symm⟩

theorem node_pruned_of_not_mem (ht : t.WellFormed) (hn : t.node h = .ok n) {m : Node}
    (hx : x ∉ t.subtree h) (hm : t.node x = .ok m) :
    (t.pruned h n).node x = .ok (m.dropChild h) := by
  rw [ht.node_pruned hn, if_neg hx, hm]
  rfl

theorem pruned (ht : t.WellFormed) (hn : t.node h = .ok n) : (t.pruned h n).WellFormed where
  root_parent := by
    intro m hm
    obtain ⟨m₀, hget, hparent, -, -⟩ := exists_of_getElem?_pruned hm
    exact hparent.trans (ht.root_parent m₀ hget)
  parent_live := by
    intro x m hm hroot
    obtain ⟨hx, m₀, hm₀, rfl⟩ := ht.node_pruned_cases hn hm
    obtain ⟨p, q, hparent, hlt, hq, hmem⟩ := ht.parent_live x m₀ hm₀ hroot
    have hp : p ∉ t.subtree h := fun hp => hx (List.mem_cons_of_mem _
      (ht.mem_descendants_of_parent hp (mem_childrenOf.mpr ⟨q, hq, hmem⟩)))
    refine ⟨p, _, hparent, hlt, ht.node_pruned_of_not_mem hn hp hq, ?_⟩
    rw [Node.dropChild, List.mem_filter, bne_iff_ne]
    exact ⟨hmem, fun heq => hx (heq ▸ List.mem_cons_self)⟩
  child_live := by
    intro x m c hm hc
    obtain ⟨hx, m₀, hm₀, rfl⟩ := ht.node_pruned_cases hn hm
    obtain ⟨hmem, hne⟩ := List.mem_filter.mp hc
    rw [bne_iff_ne] at hne
    obtain ⟨r, hr, hparent⟩ := ht.child_live x m₀ c hm₀ hmem
    have hxc : c ∈ t.childrenOf x := mem_childrenOf.mpr ⟨m₀, hm₀, hmem⟩
    have hc : c ∉ t.subtree h := by
      intro hc
      rcases List.mem_cons.mp hc with heq | hbelow
      · exact hne heq
      · obtain ⟨p, hp, hpc⟩ := ht.exists_parent hbelow
        exact hx (ht.parent_unique hxc hpc ▸ hp)
    exact ⟨_, ht.node_pruned_of_not_mem hn hc hr, hparent⟩
  children_sorted := by
    intro x m hm
    obtain ⟨m₀, hget, -, hsublist, -⟩ := exists_of_getElem?_pruned hm
    exact (ht.children_sorted x m₀ hget).sublist hsublist
  cells_rectangular := by
    intro x m g hm hg
    obtain ⟨m₀, hget, -, -, hgrid⟩ := exists_of_getElem?_pruned hm
    exact ht.cells_rectangular x m₀ g hget (hgrid.symm.trans hg)

end WellFormed

end Tree

end ElementQuery
