import ElementQuery.Proofs.Tree.Grids

/-!
# The history of a grid

What an element keeps as a grid comes from the operations that gave it cells and headers, and from no
others. An element that was never given any keeps nothing, which is what the empty grid keeps too, so
every handle can be said to have a grid. One operation either leaves the grid of a handle alone, or it
has given the element new cells, or new headers; the cells do not depend on the headers, nor the
headers on the cells. So over a whole run the cells are those that the last operation of that kind
gave, and the same holds of the headers, whatever happened to the elements in them meanwhile.
-/

namespace ElementQuery.Tree

variable {t : Tree} {h p : Handle} {n : Node}

def gridAt (t : Tree) (h : Handle) : Grid :=
  (t.nodes[h]?.bind Node.grid).getD .empty

theorem gridAt_eq (hn : t.node h = .ok n) : t.gridAt h = n.grid.getD .empty := by
  rw [gridAt, (node_eq_ok_iff.mp hn).1, Option.bind_some]

theorem Agree.gridAt {s : Tree} (hst : Agree Node.keeping s t) (h : Handle) :
    s.gridAt h = t.gridAt h := by
  have hgrid := (hst.map Prod.snd) h
  unfold Tree.gridAt
  cases hs : s.nodes[h]? with
  | none =>
    rw [hs, Option.map_none, eq_comm, Option.map_eq_none_iff] at hgrid
    rw [hgrid]
  | some n =>
    rw [hs, Option.map_some] at hgrid
    obtain ⟨m, hm, hsame⟩ := Option.map_eq_some_iff.mp hgrid.symm
    rw [hm, Option.bind_some, Option.bind_some]
    exact congrArg (fun g => g.getD Grid.empty) hsame.symm

theorem gridAt_grow (hp : t.node p = .ok n) (spec : ElementSpec) (h : Handle) :
    (t.grow p spec).gridAt h = t.gridAt h := by
  rw [gridAt, getElem?_grow hp]
  split
  · next hnew =>
    rw [gridAt, hnew, Array.getElem?_eq_none (Nat.le_refl _)]
    rfl
  · split
    · next hself => rw [hself, gridAt_eq hp, Option.bind_some]
    · rfl

theorem gridAt_growAll (hp : t.node p = .ok n) (specs : List ElementSpec) (h : Handle) :
    (t.growAll p specs).gridAt h = t.gridAt h := by
  induction specs generalizing t n with
  | nil => rfl
  | cons spec specs ih => exact (ih (node_grow_self hp spec)).trans (gridAt_grow hp spec h)

theorem gridAt_modify_grid (hn : t.node p = .ok n) (f : Grid → Grid) (h : Handle) :
    (t.modify p (Node.mapGrid f)).gridAt h = if p = h then f (t.gridAt h) else t.gridAt h := by
  rw [gridAt, getElem?_modify]
  split
  · next hself =>
    subst hself
    rw [gridAt_eq hn, (node_eq_ok_iff.mp hn).1]
    rfl
  · rfl

/-! ### One operation -/

theorem gridAt_addGrid (hn : t.node p = .ok n) (rows columns : Nat) (h : Handle) :
    ∃ cells, (Operation.addGrid p rows columns).result t = .ok cells ∧
      cells.map List.length = List.replicate rows columns ∧
      ((Operation.addGrid p rows columns).apply t).gridAt h =
        if p = h then { t.gridAt h with cells } else t.gridAt h := by
  obtain ⟨cells, hperform, hcells, -⟩ := Edit.perform_addGrid hn rows columns
  obtain ⟨m, hm⟩ := node_growAll_self hn (Edit.cellSpecs rows columns).flatten
  refine ⟨cells, ?_, hcells, ?_⟩
  · rw [Operation.result, Operation.edit, hperform]
  · rw [Operation.apply, Operation.edit, hperform, gridAt_modify_grid hm, gridAt_growAll hn]

theorem gridAt_addTableHeaders (hn : t.node p = .ok n) (rowNames columnNames : List String)
    (h : Handle) :
    (Operation.addTableHeaders p rowNames columnNames).result t = .ok () ∧
      ((Operation.addTableHeaders p rowNames columnNames).apply t).gridAt h =
        if p = h then
          { t.gridAt h with
            rowHeaders := List.range' t.nodes.size rowNames.length
            columnHeaders := List.range' (t.nodes.size + rowNames.length) columnNames.length
            isTable := true }
        else t.gridAt h := by
  have hperform := Edit.perform_addTableHeaders hn rowNames columnNames
  obtain ⟨m, hm⟩ := node_growAll_self hn
    (rowNames.map Edit.headerSpec ++ columnNames.map Edit.headerSpec)
  constructor
  · rw [Operation.result, Operation.edit, hperform]
  · rw [Operation.apply, Operation.edit, hperform, gridAt_modify_grid hm, gridAt_growAll hn,
      size_growAll]
    simp only [List.length_map]

/-- An operation leaves the grid of a handle alone unless it gives the element cells or headers. -/
theorem gridAt_apply_cases (ht : t.WellFormed) (o : Operation) (h : Handle) :
    (o.apply t).gridAt h = t.gridAt h ∨
      (∃ rows columns cells, o = .addGrid h rows columns ∧
        (Operation.addGrid h rows columns).result t = .ok cells ∧
        (o.apply t).gridAt h = { t.gridAt h with cells }) ∨
      ∃ rowNames columnNames rowHeaders columnHeaders,
        o = .addTableHeaders h rowNames columnNames ∧
        (Operation.addTableHeaders h rowNames columnNames).result t = .ok () ∧
        (o.apply t).gridAt h =
          { t.gridAt h with rowHeaders, columnHeaders, isTable := true } := by
  have heffect := o.effect ht
  generalize o.apply t = s at heffect ⊢
  cases heffect with
  | failed => exact .inl rfl
  | add hp => exact .inl (gridAt_grow hp _ h)
  | remove => exact .inl ((agree_pruned t _ _).gridAt h)
  | setProperty hshape | request hshape =>
    exact .inl (Agree.gridAt (hshape.map fun shape => (shape.1.parent, shape.2)) h)
  | @addGrid x rows columns n cells hn hresult =>
    obtain ⟨m, hm⟩ := node_growAll_self hn (Edit.cellSpecs rows columns).flatten
    rw [gridAt_modify_grid hm, gridAt_growAll hn]
    split
    · next hself =>
      subst hself
      exact .inr (.inl ⟨rows, columns, cells, rfl, hresult, rfl⟩)
    · exact .inl rfl
  | @addTableHeaders x rowNames columnNames n hn hresult =>
    obtain ⟨m, hm⟩ := node_growAll_self hn
      (rowNames.map Edit.headerSpec ++ columnNames.map Edit.headerSpec)
    rw [gridAt_modify_grid hm, gridAt_growAll hn]
    split
    · next hself =>
      subst hself
      exact .inr (.inr ⟨rowNames, columnNames, _, _, rfl, hresult, rfl⟩)
    · exact .inl rfl

/-! ### Runs -/

/-- Holds of a run in which no operation of some kind succeeds. -/
def NoneSucceeds (kind : Operation → Prop) (t : Tree) (os : List Operation) : Prop :=
  ∀ before o after, os = before ++ o :: after → kind o → ∀ a, o.result (t.applyAll before) ≠ .ok a

/-- The operations that would give an element new cells. -/
def Operation.GivesCells (h : Handle) (o : Operation) : Prop :=
  ∃ rows columns, o = .addGrid h rows columns

def Operation.GivesHeaders (h : Handle) (o : Operation) : Prop :=
  ∃ rowNames columnNames, o = .addTableHeaders h rowNames columnNames

section Runs

variable {kind : Operation → Prop} {o : Operation} {os : List Operation}

theorem noneSucceeds_of_forall (hnone : ∀ o ∈ os, ¬ kind o) : NoneSucceeds kind t os := by
  rintro before o after rfl hkind
  exact absurd hkind (hnone o (List.mem_append_right _ List.mem_cons_self))

theorem NoneSucceeds.head (hnone : NoneSucceeds kind t (o :: os)) (hkind : kind o)
    (a : o.Answer) : o.result t ≠ .ok a :=
  hnone [] o os rfl hkind a

theorem NoneSucceeds.cons (hnone : NoneSucceeds kind (o.apply t) os)
    (hfails : kind o → ∀ a, o.result t ≠ .ok a) : NoneSucceeds kind t (o :: os) := by
  intro before o' after hsplit hkind
  rcases List.cons_eq_append_iff.mp hsplit with ⟨rfl, hhead⟩ | ⟨rest, rfl, hrest⟩
  · obtain ⟨rfl, -⟩ := List.cons.inj hhead
    exact hfails hkind
  · exact hnone rest o' after hrest hkind

theorem NoneSucceeds.tail (hnone : NoneSucceeds kind t (o :: os)) :
    NoneSucceeds kind (o.apply t) os := by
  rintro before o' after rfl
  exact hnone (o :: before) o' after rfl

/-- A part of a grid that some operations do not touch is the same after a run in which the others do
not succeed. -/
theorem gridAt_applyAll {α : Type} (part : Grid → α) (ht : t.WellFormed)
    (hcells : (∀ rows columns, kind (.addGrid h rows columns)) ∨
      ∀ g : Grid, ∀ cells, part { g with cells } = part g)
    (hheaders : (∀ rowNames columnNames, kind (.addTableHeaders h rowNames columnNames)) ∨
      ∀ g : Grid, ∀ rowHeaders columnHeaders,
        part { g with rowHeaders, columnHeaders, isTable := true } = part g)
    (hnone : NoneSucceeds kind t os) :
    part ((t.applyAll os).gridAt h) = part (t.gridAt h) := by
  induction os generalizing t with
  | nil => rfl
  | cons o os ih =>
    refine (ih (ht.apply o) hnone.tail).trans ?_
    rcases gridAt_apply_cases ht o h with hsame | ⟨rows, columns, cells, rfl, hresult, hgrid⟩ |
      ⟨rowNames, columnNames, rowHeaders, columnHeaders, rfl, hresult, hgrid⟩
    · rw [hsame]
    · rcases hcells with hkind | hpart
      · exact absurd hresult (hnone.head (hkind rows columns) cells)
      · rw [hgrid, hpart]
    · rcases hheaders with hkind | hpart
      · exact absurd hresult (hnone.head (hkind rowNames columnNames) ())
      · rw [hgrid, hpart]

theorem cells_applyAll (ht : t.WellFormed) (hnone : NoneSucceeds (Operation.GivesCells h) t os) :
    ((t.applyAll os).gridAt h).cells = (t.gridAt h).cells :=
  gridAt_applyAll Grid.cells ht (.inl fun rows columns => ⟨rows, columns, rfl⟩)
    (.inr fun _ _ _ => rfl) hnone

theorem headers_applyAll (ht : t.WellFormed)
    (hnone : NoneSucceeds (Operation.GivesHeaders h) t os) :
    ((t.applyAll os).gridAt h).isTable = (t.gridAt h).isTable ∧
      ((t.applyAll os).gridAt h).rowHeaders = (t.gridAt h).rowHeaders ∧
      ((t.applyAll os).gridAt h).columnHeaders = (t.gridAt h).columnHeaders := by
  have hpart := gridAt_applyAll (fun g => (g.isTable, g.rowHeaders, g.columnHeaders)) ht
    (.inr fun _ _ => rfl)
    (.inl fun rowNames columnNames => ⟨rowNames, columnNames, rfl⟩) hnone
  obtain ⟨htable, hheaders⟩ := Prod.mk.inj hpart
  obtain ⟨hrows, hcolumns⟩ := Prod.mk.inj hheaders
  exact ⟨htable, hrows, hcolumns⟩

end Runs

end ElementQuery.Tree
