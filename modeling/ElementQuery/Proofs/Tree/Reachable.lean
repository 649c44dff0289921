import ElementQuery.Proofs.Tree.Growth
import ElementQuery.Proofs.Tree.Removal
import ElementQuery.Proofs.Tree.Requests

/-!
# The trees that can occur

Whatever is done to a tree, and whether it succeeds or fails, a well-formed tree stays well formed.
The initial tree is well formed, and so are all trees that can occur.
-/

namespace ElementQuery

theorem Grid.rectangular_of_replicate {g : Grid} {rows columns : Nat}
    (hcells : g.cells.map List.length = List.replicate rows columns) : g.Rectangular := by
  have hlength : ∀ row ∈ g.cells, row.length = columns := by
    intro row hrow
    have hmem := List.mem_map_of_mem (f := List.length) hrow
    rw [hcells] at hmem
    exact List.eq_of_mem_replicate hmem
  intro row hrow other hother
  rw [hlength row hrow, hlength other hother]

namespace Tree

variable {t : Tree}

theorem wellFormed_initial : initial.WellFormed := by
  have hget : ∀ {h : Handle} {n : Node}, initial.nodes[h]? = some n →
      h = root ∧ n.parent = none ∧ n.children = [] ∧ n.grid = none := by
    intro h n hn
    cases h with
    | zero =>
      obtain rfl := Option.some.inj hn
      exact ⟨rfl, rfl, rfl, rfl⟩
    | succ h => contradiction
  constructor
  case root_parent => exact fun n hn => (hget hn).2.1
  case parent_live => exact fun h n hn hroot => absurd (hget (node_eq_ok_iff.mp hn).1).1 hroot
  case child_live =>
    intro h n c hn hc
    rw [(hget (node_eq_ok_iff.mp hn).1).2.2.1] at hc
    contradiction
  case children_sorted =>
    intro h n hn
    rw [(hget hn).2.2.1]
    exact List.Pairwise.nil
  case cells_rectangular =>
    intro h n g hn hg
    rw [(hget hn).2.2.2] at hg
    contradiction

/-! ### What an operation does -/

/-- The trees that an operation can leave, as far as the places of elements and the grids go. One
that fails leaves the tree as it was. -/
inductive Operation.Effect (t : Tree) : Operation → Tree → Prop where
  | failed {o : Operation} {e : Error} (hresult : o.result t = .error e) : Effect t o t
  | add {p : Handle} {spec : ElementSpec} {n : Node} (hp : t.node p = .ok n)
      (hresult : (Operation.add p spec).result t = .ok t.nodes.size) :
      Effect t (.add p spec) (t.grow p spec)
  | remove {h : Handle} {n : Node} (hn : t.node h = .ok n)
      (hresult : (Operation.remove h).result t = .ok ()) : Effect t (.remove h) (t.pruned h n)
  | setProperty {h : Handle} {p : Property} {v : PropertyValue} {s : Tree}
      (hshape : Agree Node.shape s t) : Effect t (.setProperty h p v) s
  | addGrid {h : Handle} {rows columns : Nat} {n : Node} {cells : List (List Handle)}
      (hn : t.node h = .ok n) (hresult : (Operation.addGrid h rows columns).result t = .ok cells)
      (hlength : cells.map List.length = List.replicate rows columns)
      (hflatten : cells.flatten =
        List.range' t.nodes.size (Edit.cellSpecs rows columns).flatten.length) :
      Effect t (.addGrid h rows columns)
        ((t.growAll h (Edit.cellSpecs rows columns).flatten).modify h
          (Node.mapGrid fun g => { g with cells }))
  | addTableHeaders {h : Handle} {rowNames columnNames : List String} {n : Node}
      (hn : t.node h = .ok n)
      (hresult : (Operation.addTableHeaders h rowNames columnNames).result t = .ok ()) :
      Effect t (.addTableHeaders h rowNames columnNames)
        ((t.growAll h (rowNames.map Edit.headerSpec ++ columnNames.map Edit.headerSpec)).modify h
          (Node.mapGrid fun g =>
            { g with
              rowHeaders := List.range' t.nodes.size rowNames.length
              columnHeaders := List.range' (t.nodes.size + rowNames.length) columnNames.length
              isTable := true }))
  | request {r : Request} {s : Tree} (hshape : Agree Node.shape s t) : Effect t (.request r) s

theorem Operation.effect (ht : t.WellFormed) (o : Operation) : o.Effect t (o.apply t) := by
  have hfailed : ∀ {e : Error}, o.edit.perform t = (.error e, t) → o.Effect t (o.apply t) := by
    intro e hperform
    rw [apply, hperform]
    exact .failed (congrArg Prod.fst hperform)
  cases o with
  | add p spec =>
    cases hp : t.node p with
    | error e => exact hfailed (Edit.perform_add_error hp spec)
    | ok n =>
      have hperform := Edit.perform_add hp spec
      rw [apply, edit, hperform]
      exact .add hp (congrArg Prod.fst hperform)
  | remove h =>
    cases hn : t.node h with
    | error e => exact hfailed (Edit.perform_remove_error hn)
    | ok n =>
      have hperform := Edit.perform_remove ht hn
      rw [apply, edit, hperform]
      exact .remove hn (congrArg Prod.fst hperform)
  | setProperty h p v =>
    have hkeeps : Edit.Keeps Node.shape (Edit.setProperty h p v) :=
      Edit.keeps_update h fun _ => rfl
    exact .setProperty (hkeeps t)
  | addGrid h rows columns =>
    cases hn : t.node h with
    | error e => exact hfailed (Edit.perform_addGrid_error hn rows columns)
    | ok n =>
      obtain ⟨cells, hperform, hlength, hflatten⟩ := Edit.perform_addGrid hn rows columns
      rw [apply, edit, hperform]
      exact .addGrid hn (congrArg Prod.fst hperform) hlength hflatten
  | addTableHeaders h rowNames columnNames =>
    cases hn : t.node h with
    | error e => exact hfailed (Edit.perform_addTableHeaders_error hn rowNames columnNames)
    | ok n =>
      have hperform := Edit.perform_addTableHeaders hn rowNames columnNames
      rw [size_growAll, List.length_map, List.length_map] at hperform
      rw [apply, edit, hperform]
      exact .addTableHeaders hn (congrArg Prod.fst hperform)
  | request r => exact .request (Edit.keeps_ofRequest r t)

theorem WellFormed.apply (ht : t.WellFormed) (o : Operation) : (o.apply t).WellFormed := by
  have heffect := o.effect ht
  generalize o.apply t = s at heffect ⊢
  cases heffect with
  | failed => exact ht
  | add hp => exact ht.grow hp _
  | remove hn => exact ht.pruned hn
  | setProperty hshape | request hshape => exact hshape.wellFormed ht
  | addGrid hn _ hlength =>
    exact (ht.growAll hn _).modify_grid _ fun _ _ => Grid.rectangular_of_replicate hlength
  | addTableHeaders hn =>
    exact (ht.growAll hn _).modify_grid _ fun _ hrectangular => hrectangular

/-! ### Runs -/

theorem applyAll_append (t : Tree) (before after : List Operation) :
    t.applyAll (before ++ after) = (t.applyAll before).applyAll after :=
  List.foldl_append

theorem WellFormed.applyAll (ht : t.WellFormed) (os : List Operation) :
    (t.applyAll os).WellFormed := by
  induction os generalizing t with
  | nil => exact ht
  | cons o os ih => exact ih (ht.apply o)

theorem Reachable.wellFormed (ht : t.Reachable) : t.WellFormed := by
  obtain ⟨os, rfl⟩ := ht
  exact wellFormed_initial.applyAll os

/-- In every tree that can occur, parents and children agree, parents come before their children
and stay as long as they do, and the cells of every grid form a rectangle. -/
theorem places_applyAll (os : List Operation) :
    let t := initial.applyAll os
    (∀ (h : Handle) (n : Node), t.node h = .ok n → h ≠ root →
      ∃ p m, n.parent = some p ∧ p < h ∧ t.node p = .ok m ∧ m.children.count h = 1) ∧
    (∀ (h : Handle) (n : Node), t.node h = .ok n → ∀ c ∈ n.children,
      ∃ m, t.node c = .ok m ∧ m.parent = some h) ∧
    (∀ (h : Handle) (n : Node), t.nodes[h]? = some n → n.children.Pairwise (· < ·)) ∧
    (∀ (h p : Handle) (n m : Node), t.nodes[h]? = some n → n.parent = some p →
      t.nodes[p]? = some m → m.removed = true → n.removed = true) ∧
    (∀ (h : Handle) (n : Node) (g : Grid), t.nodes[h]? = some n → n.grid = some g →
      ∀ row ∈ g.cells, ∀ other ∈ g.cells, row.length = other.length) := by
  intro t
  have ht : t.WellFormed := wellFormed_initial.applyAll os
  refine ⟨?_, fun h n hn c hc => ht.child_live h n c hn hc, ht.children_sorted, ?_,
    ht.cells_rectangular⟩
  · intro h n hn hroot
    obtain ⟨p, m, hparent, hlt, hm, hmem⟩ := ht.parent_live h n hn hroot
    have hnodup : m.children.Nodup :=
      (ht.children_sorted p m (node_eq_ok_iff.mp hm).1).imp Nat.ne_of_lt
    exact ⟨p, m, hparent, hlt, hm, List.count_eq_one_of_mem hnodup hmem⟩
  · intro h p n m hn hparent hm hremoved
    by_contra hstays
    rw [Bool.not_eq_true] at hstays
    have hmem := (ht.node_parent (node_eq_ok_iff.mpr ⟨hn, hstays⟩) hparent).2
    obtain ⟨m', hm', -⟩ := mem_childrenOf.mp hmem
    obtain ⟨hget, hlive⟩ := node_eq_ok_iff.mp hm'
    obtain rfl := Option.some.inj (hm.symm.trans hget)
    rw [hlive] at hremoved
    contradiction

end Tree

end ElementQuery
