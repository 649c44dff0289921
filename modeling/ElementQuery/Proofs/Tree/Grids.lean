import ElementQuery.Proofs.Tree.Reachable

/-!
# What grids keep

A grid keeps the handles of its cells and headers apart from its list of children. They are given to
it when the cells and headers are added, and each of them is then a child of the grid. Removing a
cell or a header takes it from the children, but the grid goes on keeping its handle. So what a grid
keeps was added below it, and is in the tree exactly if the grid still lists it.
-/

namespace ElementQuery

def Grid.handles (g : Grid) : List Handle :=
  g.cells.flatten ++ g.rowHeaders ++ g.columnHeaders

/-- The parent of an element and the handles that it keeps as a grid. -/
def Node.keeping (n : Node) : Option Handle × Option Grid :=
  (n.parent, n.grid)

namespace Tree

/-- Holds of a tree whose grids keep only what was added below them. -/
def GridsBelow (t : Tree) : Prop :=
  ∀ (h : Handle) (n : Node) (g : Grid), t.nodes[h]? = some n → n.grid = some g →
    ∀ x ∈ g.handles, ∃ m, t.nodes[x]? = some m ∧ m.parent = some h

variable {s t : Tree} {h p : Handle} {n : Node}

theorem Agree.gridsBelow (hst : Agree Node.keeping s t) (ht : t.GridsBelow) : s.GridsBelow := by
  intro h n g hn hg x hx
  obtain ⟨m, hm, hkeeping⟩ := hst.getElem? hn
  have hgrid : m.grid = some g := (congrArg Prod.snd hkeeping).trans hg
  obtain ⟨k, hk, hparent⟩ := ht h m g hm hgrid x hx
  obtain ⟨k', hk', hkeeping'⟩ := hst.symm.getElem? hk
  exact ⟨k', hk', (congrArg Prod.fst hkeeping').trans hparent⟩

/-- A grid that is given new handles keeps what was added below it if the handles were. -/
theorem GridsBelow.modify_grid (ht : t.GridsBelow) (h : Handle) {f : Grid → Grid}
    (hf : ∀ g : Grid, ∀ x ∈ (f g).handles,
      x ∈ g.handles ∨ ∃ m, t.nodes[x]? = some m ∧ m.parent = some h) :
    (t.modify h (Node.mapGrid f)).GridsBelow := by
  have hparents : Agree Node.parent (t.modify h (Node.mapGrid f)) t := Agree.modify t h fun _ => rfl
  have hkeep : ∀ {x q : Handle}, (∃ m, t.nodes[x]? = some m ∧ m.parent = some q) →
      ∃ m, (t.modify h (Node.mapGrid f)).nodes[x]? = some m ∧ m.parent = some q := by
    rintro x q ⟨m, hm, hparent⟩
    obtain ⟨m', hm', hsame⟩ := hparents.symm.getElem? hm
    exact ⟨m', hm', hsame.trans hparent⟩
  intro x n g hn hg y hy
  apply hkeep
  rw [getElem?_modify] at hn
  split at hn
  · next hself =>
    subst hself
    obtain ⟨m, hm, rfl⟩ := Option.map_eq_some_iff.mp hn
    obtain rfl := Option.some.inj hg
    rcases hf _ y hy with hold | hnew
    · cases hgrid : m.grid with
      | none =>
        rw [hgrid] at hold
        contradiction
      | some g =>
        rw [hgrid] at hold
        exact ht h m g hm hgrid y hold
    · exact hnew
  · exact ht x n g hn hg y hy

/-! ### Adding -/

theorem GridsBelow.grow (ht : t.GridsBelow) (hp : t.node p = .ok n) (spec : ElementSpec) :
    (t.grow p spec).GridsBelow := by
  have hold : ∀ {h : Handle} {m : Node} {g : Grid}, t.nodes[h]? = some m → m.grid = some g →
      ∀ x ∈ g.handles, ∃ k, (t.grow p spec).nodes[x]? = some k ∧ k.parent = some h := by
    intro h m g hm hg x hx
    obtain ⟨k, hk, hparent⟩ := ht h m g hm hg x hx
    obtain ⟨children, hk'⟩ := exists_getElem?_grow hp spec hk
    exact ⟨_, hk', hparent⟩
  intro h m g hm hg
  rw [getElem?_grow hp] at hm
  split at hm
  · obtain rfl := Option.some.inj hm
    contradiction
  · split at hm
    · next hself =>
      obtain rfl := Option.some.inj hm
      exact hself ▸ hold (node_eq_ok_iff.mp hp).1 hg
    · exact hold hm hg

theorem GridsBelow.growAll (ht : t.GridsBelow) (hp : t.node p = .ok n) (specs : List ElementSpec) :
    (t.growAll p specs).GridsBelow := by
  induction specs generalizing t n with
  | nil => exact ht
  | cons spec specs ih => exact ih (ht.grow hp spec) (node_grow_self hp spec)

theorem exists_parent_growAll (hp : t.node p = .ok n) (specs : List ElementSpec) {x : Nat}
    (hx : x ∈ List.range' t.nodes.size specs.length) :
    ∃ m, (t.growAll p specs).nodes[x]? = some m ∧ m.parent = some p := by
  induction specs generalizing t n with
  | nil => contradiction
  | cons spec specs ih =>
    rw [List.length_cons, List.range'_succ, List.mem_cons] at hx
    rcases hx with rfl | hx
    · obtain ⟨children, hm⟩ := exists_getElem?_growAll (node_grow_self hp spec) specs
        (node_eq_ok_iff.mp (node_grow_new hp spec)).1
      exact ⟨_, hm, rfl⟩
    · rw [← size_grow t p spec] at hx
      exact ih (node_grow_self hp spec) hx

/-! ### The trees that can occur -/

theorem agree_pruned (t : Tree) (h : Handle) (n : Node) :
    Agree Node.keeping (t.pruned h n) t := by
  intro x
  rw [pruned, getElem?_marked, Option.map_map]
  have hunlink : Agree Node.keeping (t.unlink h n.parent) t := by
    cases n.parent with
    | none => exact Agree.refl t
    | some p => exact Agree.modify t p fun _ => rfl
  rw [← hunlink x]
  congr 1
  funext m
  rw [Function.comp_apply]
  split
  · rfl
  · rfl

theorem GridsBelow.apply (hgrids : t.GridsBelow) (ht : t.WellFormed) (o : Operation) :
    (o.apply t).GridsBelow := by
  have heffect := o.effect ht
  generalize o.apply t = s at heffect ⊢
  cases heffect with
  | failed => exact hgrids
  | add hp => exact hgrids.grow hp _
  | remove hn => exact (agree_pruned t _ _).gridsBelow hgrids
  | setProperty hshape | request hshape =>
    exact (hshape.map fun shape => (shape.1.parent, shape.2)).gridsBelow hgrids
  | addGrid hn _ _ hflatten =>
    refine (hgrids.growAll hn _).modify_grid _ fun g x hx => ?_
    rw [Grid.handles, hflatten, List.append_assoc, List.mem_append] at hx
    rcases hx with hcell | hheader
    · exact .inr (exists_parent_growAll hn _ hcell)
    · left
      rw [Grid.handles, List.append_assoc]
      exact List.mem_append_right _ hheader
  | @addTableHeaders h rowNames columnNames n hn =>
    refine (hgrids.growAll hn _).modify_grid _ fun g x hx => ?_
    rw [Grid.handles, List.append_assoc, List.range'_append_1, List.mem_append] at hx
    rcases hx with hcell | hheader
    · exact .inl (List.mem_append_left _ (List.mem_append_left _ hcell))
    · exact .inr (exists_parent_growAll hn _ (by simpa using hheader))

theorem gridsBelow_initial : initial.GridsBelow := by
  intro h n g hn hg
  cases h with
  | zero =>
    obtain rfl := Option.some.inj hn
    contradiction
  | succ h => contradiction

theorem Reachable.gridsBelow (ht : t.Reachable) : t.GridsBelow := by
  have hall : ∀ (os : List Operation) (s : Tree), s.WellFormed → s.GridsBelow →
      (s.applyAll os).GridsBelow := by
    intro os
    induction os with
    | nil => exact fun _ _ hgrids => hgrids
    | cons o os ih => exact fun s hs hgrids => ih (o.apply s) (hs.apply o) (hgrids.apply hs o)
  obtain ⟨os, rfl⟩ := ht
  exact hall os initial wellFormed_initial gridsBelow_initial

/-- What a grid keeps is in the tree exactly if it is among the children of the grid. -/
theorem Reachable.isLive_iff_of_mem_handles (ht : t.Reachable) (hn : t.node h = .ok n) {g : Grid}
    (hg : n.grid = some g) {x : Handle} (hx : x ∈ g.handles) :
    t.isLive x = true ↔ x ∈ t.childrenOf h := by
  obtain ⟨m, hm, hparent⟩ := ht.gridsBelow h n g (node_eq_ok_iff.mp hn).1 hg x hx
  constructor
  · intro hlive
    obtain ⟨k, hk⟩ := isLive_iff.mp hlive
    obtain rfl := Option.some.inj (hm.symm.trans (node_eq_ok_iff.mp hk).1)
    exact (ht.wellFormed.node_parent hk hparent).2
  · intro hchild
    obtain ⟨k, hk, -⟩ := ht.wellFormed.node_of_mem hchild
    exact isLive_iff.mpr ⟨k, hk⟩

end Tree

end ElementQuery
