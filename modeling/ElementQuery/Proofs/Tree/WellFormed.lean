import ElementQuery.Tree.Operation

/-!
# Well-formed trees

What holds of every tree that can occur. An element that is in the tree has its place there: its
parent is in the tree too and lists it, whatever it lists is in the tree and names it as its parent,
and a child comes after its parent and after the children that were added before it. The last is
what makes a tree acyclic: going down, handles only grow, and they cannot grow beyond the number of
elements. The cells of a grid form a rectangle.

Apart from the cells, all this is about the places of the elements in the tree. A change that keeps
the places, or the places and the grids, keeps a tree well formed whatever else it changes.
-/

namespace ElementQuery

/-- The place of an element in a tree, and whether it was removed from there. -/
structure Place where
  parent : Option Handle
  children : List Handle
  removed : Bool

def Node.place (n : Node) : Place :=
  ⟨n.parent, n.children, n.removed⟩

/-- What an element is apart from its description and the texts typed into it. -/
def Node.shape (n : Node) : Place × Option Grid :=
  (n.place, n.grid)

def Grid.Rectangular (g : Grid) : Prop :=
  ∀ row ∈ g.cells, ∀ other ∈ g.cells, row.length = other.length

namespace Tree

structure WellFormed (t : Tree) : Prop where
  root_parent : ∀ n : Node, t.nodes[root]? = some n → n.parent = none
  parent_live : ∀ (h : Handle) (n : Node), t.node h = .ok n → h ≠ root →
    ∃ p m, n.parent = some p ∧ p < h ∧ t.node p = .ok m ∧ h ∈ m.children
  child_live : ∀ (h : Handle) (n : Node) (c : Handle), t.node h = .ok n →
    c ∈ n.children → ∃ m, t.node c = .ok m ∧ m.parent = some h
  children_sorted : ∀ (h : Handle) (n : Node), t.nodes[h]? = some n → n.children.Pairwise (· < ·)
  cells_rectangular : ∀ (h : Handle) (n : Node) (g : Grid), t.nodes[h]? = some n →
    n.grid = some g → g.Rectangular

theorem node_eq_error {t : Tree} {h : Handle} (hdead : t.isLive h = false) :
    t.node h = .error (unavailable h) := by
  unfold isLive at hdead
  unfold node
  cases hget : t.nodes[h]? with
  | none => rfl
  | some n =>
    have hremoved : n.removed = true := by simpa [hget] using hdead
    simp [hremoved]

theorem lt_size_of_node {t : Tree} {h : Handle} {n : Node} (hn : t.node h = .ok n) :
    h < t.nodes.size := by
  have hget := (node_eq_ok_iff.mp hn).1
  exact (Array.getElem?_eq_some_iff.mp hget).1

theorem node_map_eq_ok_iff {α : Type} {t : Tree} {h : Handle} {f : Node → α} {a : α} :
    (t.node h).map f = .ok a ↔ ∃ n, t.node h = .ok n ∧ f n = a := by
  cases t.node h <;> simp [Except.map]

theorem node_modify (t : Tree) (h x : Handle) {f : Node → Node}
    (hf : ∀ n, (f n).removed = n.removed) :
    (t.modify h f).node x = if h = x then (t.node x).map f else t.node x := by
  unfold node
  rw [getElem?_modify]
  by_cases hself : h = x
  · rw [if_pos hself, if_pos hself]
    cases t.nodes[x]? with
    | none => rfl
    | some n =>
      simp only [Option.map_some, hf]
      cases n.removed <;> rfl
  · rw [if_neg hself, if_neg hself]

theorem ext_of_getElem? {s t : Tree} (hnodes : ∀ x : Handle, s.nodes[x]? = t.nodes[x]?)
    (hfocused : s.focused = t.focused) : s = t := by
  cases s
  cases t
  rw [Tree.mk.injEq]
  exact ⟨Array.ext_getElem? hnodes, hfocused⟩

theorem mem_childrenOf {t : Tree} {h c : Handle} :
    c ∈ t.childrenOf h ↔ ∃ n, t.node h = .ok n ∧ c ∈ n.children := by
  unfold childrenOf
  cases t.node h <;> simp

theorem childrenOf_eq {t : Tree} {h : Handle} {n : Node} (hn : t.node h = .ok n) :
    t.childrenOf h = n.children := by
  rw [childrenOf, hn]

/-! ### Trees that agree -/

/-- Holds of two trees with the same handles whose elements agree in some respect. -/
def Agree {α : Type} (aspect : Node → α) (s t : Tree) : Prop :=
  ∀ h : Handle, s.nodes[h]?.map aspect = t.nodes[h]?.map aspect

namespace Agree

section Aspect

variable {α β : Type} {aspect : Node → α} {s t u : Tree}

protected theorem refl (t : Tree) : Agree aspect t t := fun _ => rfl

protected theorem symm (hst : Agree aspect s t) : Agree aspect t s := fun h => (hst h).symm

protected theorem trans (hst : Agree aspect s t) (htu : Agree aspect t u) : Agree aspect s u :=
  fun h => (hst h).trans (htu h)

theorem map (hst : Agree aspect s t) (f : α → β) : Agree (fun n => f (aspect n)) s t := by
  intro h
  simpa [Option.map_map, Function.comp_def] using congrArg (Option.map f) (hst h)

theorem getElem? (hst : Agree aspect s t) {h : Handle} {n : Node} (hn : s.nodes[h]? = some n) :
    ∃ m, t.nodes[h]? = some m ∧ aspect m = aspect n := by
  have heq := hst h
  rw [hn, Option.map_some] at heq
  exact Option.map_eq_some_iff.mp heq.symm

theorem modify (t : Tree) (h : Handle) {f : Node → Node} (hf : ∀ n, aspect (f n) = aspect n) :
    Agree aspect (t.modify h f) t := by
  intro i
  rw [getElem?_modify]
  split
  · cases t.nodes[i]? with
    | none => rfl
    | some n => exact congrArg some (hf n)
  · rfl

theorem size_eq (hst : Agree aspect s t) : s.nodes.size = t.nodes.size := by
  have hle : ∀ {s t : Tree}, Agree aspect s t → s.nodes.size ≤ t.nodes.size := by
    intro s t hst
    have hnone := hst t.nodes.size
    rwa [Array.getElem?_eq_none (Nat.le_refl _), Option.map_none, Option.map_eq_none_iff,
      Array.getElem?_eq_none_iff] at hnone
  exact Nat.le_antisymm (hle hst) (hle hst.symm)

end Aspect

variable {s t : Tree}

theorem node_ok (hst : Agree Node.place s t) {h : Handle} {n : Node} (hn : s.node h = .ok n) :
    ∃ m, t.node h = .ok m ∧ m.place = n.place := by
  rw [node_eq_ok_iff] at hn
  obtain ⟨m, hm, hplace⟩ := hst.getElem? hn.1
  have hremoved : m.removed = n.removed := congrArg Place.removed hplace
  exact ⟨m, node_eq_ok_iff.mpr ⟨hm, hremoved.trans hn.2⟩, hplace⟩

theorem isLive (hst : Agree Node.place s t) (h : Handle) : s.isLive h = t.isLive h := by
  have hone : ∀ {s t : Tree}, Agree Node.place s t → s.isLive h = true → t.isLive h = true := by
    intro s t hst hlive
    obtain ⟨n, hn⟩ := isLive_iff.mp hlive
    obtain ⟨m, hm, -⟩ := hst.node_ok hn
    exact isLive_iff.mpr ⟨m, hm⟩
  exact Bool.eq_iff_iff.mpr ⟨hone hst, hone hst.symm⟩

theorem childrenOf (hst : Agree Node.place s t) (h : Handle) :
    s.childrenOf h = t.childrenOf h := by
  by_cases hlive : t.isLive h = true
  · obtain ⟨n, hn⟩ := isLive_iff.mp hlive
    obtain ⟨m, hm, hplace⟩ := hst.symm.node_ok hn
    rw [childrenOf_eq hn, childrenOf_eq hm]
    exact congrArg Place.children hplace
  · rw [Bool.not_eq_true] at hlive
    rw [Tree.childrenOf, Tree.childrenOf, node_eq_error hlive,
      node_eq_error ((hst.isLive h).trans hlive)]

/-- A tree with the places of a well-formed one is well formed if its cells form rectangles. -/
theorem wellFormed_of_cells (hst : Agree Node.place s t) (ht : t.WellFormed)
    (hcells : ∀ (h : Handle) (n : Node) (g : Grid), s.nodes[h]? = some n → n.grid = some g →
      g.Rectangular) : s.WellFormed where
  root_parent := by
    intro n hn
    obtain ⟨m, hm, hplace⟩ := hst.getElem? hn
    exact (congrArg Place.parent hplace).symm.trans (ht.root_parent m hm)
  parent_live := by
    intro h n hn hroot
    obtain ⟨m, hm, hplace⟩ := hst.node_ok hn
    obtain ⟨p, q, hparent, hlt, hq, hmem⟩ := ht.parent_live h m hm hroot
    obtain ⟨q', hq', hplace'⟩ := hst.symm.node_ok hq
    refine ⟨p, q', (congrArg Place.parent hplace).symm.trans hparent, hlt, hq', ?_⟩
    rw [show q'.children = q.children from congrArg Place.children hplace']
    exact hmem
  child_live := by
    intro h n c hn hc
    obtain ⟨m, hm, hplace⟩ := hst.node_ok hn
    rw [← show m.children = n.children from congrArg Place.children hplace] at hc
    obtain ⟨q, hq, hparent⟩ := ht.child_live h m c hm hc
    obtain ⟨q', hq', hplace'⟩ := hst.symm.node_ok hq
    exact ⟨q', hq', (congrArg Place.parent hplace').trans hparent⟩
  children_sorted := by
    intro h n hn
    obtain ⟨m, hm, hplace⟩ := hst.getElem? hn
    rw [← show m.children = n.children from congrArg Place.children hplace]
    exact ht.children_sorted h m hm
  cells_rectangular := hcells

theorem wellFormed (hst : Agree Node.shape s t) (ht : t.WellFormed) : s.WellFormed := by
  apply (hst.map Prod.fst).wellFormed_of_cells ht
  intro h n g hn hg
  obtain ⟨m, hm, hshape⟩ := hst.getElem? hn
  exact ht.cells_rectangular h m g hm ((congrArg Prod.snd hshape).trans hg)

end Agree

theorem WellFormed.modify_grid {t : Tree} (ht : t.WellFormed) (h : Handle) {f : Grid → Grid}
    (hf : ∀ g : Grid, g.Rectangular → (f g).Rectangular) :
    (t.modify h (Node.mapGrid f)).WellFormed := by
  have hplace : Agree Node.place (t.modify h (Node.mapGrid f)) t := Agree.modify t h fun _ => rfl
  apply hplace.wellFormed_of_cells ht
  intro x n g hn hg
  rw [getElem?_modify] at hn
  split at hn
  · obtain ⟨m, hm, rfl⟩ := Option.map_eq_some_iff.mp hn
    obtain rfl := Option.some.inj hg
    apply hf
    cases hgrid : m.grid with
    | none =>
      intro row hrow
      exact absurd hrow List.not_mem_nil
    | some g => exact ht.cells_rectangular x m g hm hgrid
  · exact ht.cells_rectangular x n g hn hg

/-! ### Going down a well-formed tree -/

namespace WellFormed

-- Handles are compared as numbers here.
variable {t : Tree} {h c : Nat}

theorem node_of_mem (ht : t.WellFormed) (hc : c ∈ t.childrenOf h) :
    ∃ n, t.node c = .ok n ∧ n.parent = some h := by
  obtain ⟨n, hn, hmem⟩ := mem_childrenOf.mp hc
  exact ht.child_live h n c hn hmem

theorem node_parent (ht : t.WellFormed) {n : Node} {p : Nat} (hn : t.node h = .ok n)
    (hp : n.parent = some p) : p < h ∧ h ∈ t.childrenOf p := by
  have hroot : h ≠ root := by
    rintro rfl
    rw [ht.root_parent n (node_eq_ok_iff.mp hn).1] at hp
    contradiction
  obtain ⟨q, m, hq, hlt, hm, hmem⟩ := ht.parent_live h n hn hroot
  obtain rfl := Option.some.inj (hp.symm.trans hq)
  exact ⟨hlt, mem_childrenOf.mpr ⟨m, hm, hmem⟩⟩

theorem lt_of_mem (ht : t.WellFormed) (hc : c ∈ t.childrenOf h) : h < c := by
  obtain ⟨n, hn, hparent⟩ := ht.node_of_mem hc
  exact (ht.node_parent hn hparent).1

theorem lt_size_of_mem (ht : t.WellFormed) (hc : c ∈ t.childrenOf h) : c < t.nodes.size := by
  obtain ⟨n, hn, -⟩ := ht.node_of_mem hc
  exact lt_size_of_node hn

theorem parent_unique (ht : t.WellFormed) {p q : Handle} (hp : c ∈ t.childrenOf p)
    (hq : c ∈ t.childrenOf q) : p = q := by
  obtain ⟨n, hn, hparent⟩ := ht.node_of_mem hp
  obtain ⟨m, hm, hparent'⟩ := ht.node_of_mem hq
  obtain rfl : n = m := Except.ok.inj (hn.symm.trans hm)
  exact Option.some.inj (hparent.symm.trans hparent')

theorem childrenOf_sorted (ht : t.WellFormed) (h : Handle) :
    (t.childrenOf h).Pairwise (· < ·) := by
  unfold childrenOf
  split
  · next n hn => exact ht.children_sorted h n (node_eq_ok_iff.mp hn).1
  · exact List.Pairwise.nil

/-- What holds of an element if it holds of its children holds of every element. -/
theorem induction (ht : t.WellFormed) {motive : Handle → Prop}
    (step : ∀ h, (∀ c ∈ t.childrenOf h, motive c) → motive h) (h : Handle) : motive h := by
  -- The distance to the number of elements shrinks on the way down.
  have hbound : ∀ k h : Nat, t.nodes.size - h ≤ k → motive h := by
    intro k
    induction k with
    | zero =>
      intro h hk
      apply step
      intro c hc
      have hlt := ht.lt_of_mem hc
      have hsize := ht.lt_size_of_mem hc
      omega
    | succ k ih =>
      intro h hk
      apply step
      intro c hc
      have hlt := ht.lt_of_mem hc
      exact ih c (by omega)
  exact hbound _ h (Nat.le_refl _)

end WellFormed

end Tree

end ElementQuery
