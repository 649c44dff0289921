import ElementQuery.Proofs.Search
import ElementQuery.Proofs.Tree.GridHistory

/-!
# Where a grid address leads over a run

An address is followed through what the element keeps as a grid at that moment. Rows and columns are
counted from one in an address and from zero in a grid, so a number of zero and a number beyond the
last row or column lead nowhere, and so does every address in an element that was never given cells
or headers. Otherwise the address leads to the cell, or to the header, that the last operation of its
kind created, whatever was done to the tree since then.
-/

namespace ElementQuery.Search

open Dialogue

variable {t : Tree} {h : Handle} {n : Node} {g : Grid}

theorem run_resolve_gridAt (hn : t.node h = .ok n) (address : GridAddress) :
    (resolve h address).run Tree.provider t = (.ok (addressed? (t.gridAt h) address), t) := by
  rw [run_resolve_eq hn, Tree.gridAt_eq hn]
  cases n.grid with
  | some g => rfl
  | none =>
    have hempty : addressed? .empty address = none := by
      cases address with
      | cell row column => cases row <;> cases column <;> rfl
      | row number => rfl
      | column number => rfl
    rw [Option.bind_none, Option.getD_none, hempty]

theorem result_resolve (hlive : t.isLive h = true) (address : GridAddress) :
    (resolve h address).result Tree.provider t = .ok (addressed? (t.gridAt h) address) := by
  obtain ⟨n, hn⟩ := Tree.isLive_iff.mp hlive
  rw [result, run_resolve_gridAt hn]

/-! ### Cells -/

section Cells

variable {rows columns row column : Nat}

theorem columnCount_eq (hcells : g.cells.map List.length = List.replicate rows columns)
    (hrows : 0 < rows) : g.columnCount = columns := by
  cases hlines : g.cells with
  | nil =>
    rw [hlines, List.map_nil, eq_comm, List.replicate_eq_nil_iff] at hcells
    omega
  | cons first others =>
    have hmem : first.length ∈ List.replicate rows columns := by
      rw [← hcells, hlines]
      exact List.mem_cons_self
    rw [Grid.columnCount, hlines]
    exact List.eq_of_mem_replicate hmem

theorem addressed?_cell_inside (hcells : g.cells.map List.length = List.replicate rows columns)
    (hrow : 1 ≤ row ∧ row ≤ rows) (hcolumn : 1 ≤ column ∧ column ≤ columns) :
    ∃ rowCells x, g.cells[row - 1]? = some rowCells ∧ rowCells[column - 1]? = some x ∧
      addressed? g (.cell row column) = some x := by
  have hlength : g.cells.length = rows := by
    rw [← List.length_map List.length, hcells, List.length_replicate]
  obtain ⟨rowCells, hrowCells⟩ : ∃ rowCells, g.cells[row - 1]? = some rowCells :=
    ⟨_, List.getElem?_eq_getElem (by omega)⟩
  have hmem : rowCells.length ∈ List.replicate rows columns := by
    rw [← hcells]
    exact List.mem_map_of_mem (List.mem_of_getElem? hrowCells)
  have hwidth := List.eq_of_mem_replicate hmem
  obtain ⟨x, hx⟩ : ∃ x, rowCells[column - 1]? = some x :=
    ⟨_, List.getElem?_eq_getElem (by omega)⟩
  refine ⟨rowCells, x, hrowCells, hx, ?_⟩
  have hcount := columnCount_eq hcells (by omega)
  rw [addressed?, if_neg (by simp; omega), if_neg (by omega), if_neg (by omega), Grid.item?,
    hrowCells]
  exact hx

theorem addressed?_cell_outside (hcells : g.cells.map List.length = List.replicate rows columns)
    (houtside : ¬ ((1 ≤ row ∧ row ≤ rows) ∧ 1 ≤ column ∧ column ≤ columns)) :
    addressed? g (.cell row column) = none := by
  have hlength : g.cells.length = rows := by
    rw [← List.length_map List.length, hcells, List.length_replicate]
  rw [addressed?]
  split
  · rfl
  · next hzero =>
    have hpositive : 1 ≤ row ∧ 1 ≤ column := by
      simp at hzero
      omega
    split
    · rfl
    · next hrow =>
      have hcount := columnCount_eq hcells (by omega)
      rw [if_pos (by omega)]

/-- Holds of an element in which the address of a cell leads to the cell of that row and column if
there are so many rows and columns, and nowhere otherwise. -/
def LeadsToCells (t : Tree) (h : Handle) (rows columns : Nat) (cells : List (List Handle)) : Prop :=
  ∀ row column,
    ((1 ≤ row ∧ row ≤ rows) ∧ 1 ≤ column ∧ column ≤ columns →
      ∃ rowCells x, cells[row - 1]? = some rowCells ∧ rowCells[column - 1]? = some x ∧
        (resolve h (.cell row column)).result Tree.provider t = .ok (some x)) ∧
    (¬ ((1 ≤ row ∧ row ≤ rows) ∧ 1 ≤ column ∧ column ≤ columns) →
      (resolve h (.cell row column)).result Tree.provider t = .ok none)

theorem leadsToCells_of_gridAt (hlive : t.isLive h = true)
    (hcells : (t.gridAt h).cells.map List.length = List.replicate rows columns) :
    LeadsToCells t h rows columns (t.gridAt h).cells := by
  intro row column
  rw [result_resolve hlive]
  constructor
  · rintro ⟨hrow, hcolumn⟩
    obtain ⟨rowCells, x, hrowCells, hx, haddressed⟩ := addressed?_cell_inside hcells hrow hcolumn
    exact ⟨rowCells, x, hrowCells, hx, congrArg Except.ok haddressed⟩
  · exact fun houtside => congrArg Except.ok (addressed?_cell_outside hcells houtside)

end Cells

/-! ### Headers -/

/-- Holds of an element in which the number of a row or a column leads to the header of that number,
and nowhere if there is none. -/
def LeadsToHeaders (t : Tree) (h : Handle) (rows columns : List Handle) : Prop :=
  ∀ number,
    (resolve h (.row number)).result Tree.provider t =
      .ok (if number = 0 then none else rows[number - 1]?) ∧
    (resolve h (.column number)).result Tree.provider t =
      .ok (if number = 0 then none else columns[number - 1]?)

theorem header?_eq (headers : List Handle) (number : Nat) :
    header? headers number = if number = 0 then none else headers[number - 1]? := by
  cases number <;> rfl

theorem leadsToHeaders_of_gridAt (hlive : t.isLive h = true) (htable : (t.gridAt h).isTable = true) :
    LeadsToHeaders t h (t.gridAt h).rowHeaders (t.gridAt h).columnHeaders := by
  intro number
  rw [result_resolve hlive, result_resolve hlive, addressed?, addressed?, htable, if_pos rfl,
    if_pos rfl, header?_eq, header?_eq]
  exact ⟨rfl, rfl⟩

theorem leadsToHeaders_nil (hlive : t.isLive h = true) (htable : (t.gridAt h).isTable = false) :
    LeadsToHeaders t h [] [] := by
  intro number
  rw [result_resolve hlive, result_resolve hlive, addressed?, addressed?, htable]
  simp

/-- The headers that an element is given are new elements below it, those of the rows first. -/
theorem node_addTableHeaders (hn : t.node h = .ok n) (rowNames columnNames : List String) :
    let s := (Tree.Operation.addTableHeaders h rowNames columnNames).apply t
    (∀ i name, rowNames[i]? = some name →
      s.node (t.nodes.size + i : Nat) = .ok (.ofSpec (some h) (Edit.headerSpec name))) ∧
    ∀ i name, columnNames[i]? = some name →
      s.node (t.nodes.size + rowNames.length + i : Nat) =
        .ok (.ofSpec (some h) (Edit.headerSpec name)) := by
  have hnew : ∀ {i : Nat} {spec : ElementSpec},
      (rowNames.map Edit.headerSpec ++ columnNames.map Edit.headerSpec)[i]? = some spec →
      ((Tree.Operation.addTableHeaders h rowNames columnNames).apply t).node
        (t.nodes.size + i : Nat) = .ok (.ofSpec (some h) spec) := by
    intro i spec hspec
    have hne : h ≠ t.nodes.size + i := by
      have hlt := Tree.lt_size_of_node hn
      exact Nat.ne_of_lt (Nat.lt_of_lt_of_le hlt (Nat.le_add_right _ _))
    rw [Tree.Operation.apply, Tree.Operation.edit, Edit.perform_addTableHeaders hn, Tree.node_modify,
      if_neg hne]
    · exact Tree.node_growAll_new hn hspec
    · exact fun _ => rfl
  constructor
  · intro i name hname
    apply hnew
    have hlt : i < (rowNames.map Edit.headerSpec).length := by
      rw [List.length_map]
      exact (List.getElem?_eq_some_iff.mp hname).1
    rw [List.getElem?_append_left hlt, List.getElem?_map, hname, Option.map_some]
  · intro i name hname
    rw [Nat.add_assoc]
    apply hnew
    rw [List.getElem?_append_right (by simp), List.length_map, Nat.add_sub_cancel_left,
      List.getElem?_map, hname, Option.map_some]

/-! ### Runs -/

section Runs

open ElementQuery.Tree

variable {after : List Operation}

theorem leadsToCells_applyAll (ht : t.WellFormed) {rows columns : Nat} {cells : List (List Handle)}
    (hresult : (Operation.addGrid h rows columns).result t = .ok cells)
    (hnone : NoneSucceeds (Operation.GivesCells h) ((Operation.addGrid h rows columns).apply t) after)
    (hlive : (((Operation.addGrid h rows columns).apply t).applyAll after).isLive h = true) :
    LeadsToCells (((Operation.addGrid h rows columns).apply t).applyAll after) h rows columns
      cells := by
  cases hn : t.node h with
  | error e =>
    rw [Operation.result, Operation.edit, Edit.perform_addGrid_error hn] at hresult
    contradiction
  | ok n =>
    obtain ⟨given, hgiven, hlength, hgrid⟩ := gridAt_addGrid hn rows columns h
    obtain rfl : given = cells := Except.ok.inj (hgiven.symm.trans hresult)
    have hcells : ((((Operation.addGrid h rows columns).apply t).applyAll after).gridAt h).cells =
        given := by
      rw [cells_applyAll (ht.apply _) hnone, hgrid, if_pos rfl]
    rw [← hcells] at hlength ⊢
    exact leadsToCells_of_gridAt hlive hlength

theorem leadsToHeaders_applyAll (ht : t.WellFormed) {rowNames columnNames : List String}
    (hn : t.node h = .ok n)
    (hnone : NoneSucceeds (Operation.GivesHeaders h)
      ((Operation.addTableHeaders h rowNames columnNames).apply t) after)
    (hlive : (((Operation.addTableHeaders h rowNames columnNames).apply t).applyAll after).isLive h =
      true) :
    LeadsToHeaders (((Operation.addTableHeaders h rowNames columnNames).apply t).applyAll after) h
      (List.range' t.nodes.size rowNames.length)
      (List.range' (t.nodes.size + rowNames.length) columnNames.length) := by
  obtain ⟨-, hgrid⟩ := gridAt_addTableHeaders hn rowNames columnNames h
  obtain ⟨htable, hrows, hcolumns⟩ := headers_applyAll (ht.apply _) hnone
  rw [hgrid, if_pos rfl] at htable hrows hcolumns
  have hleads := leadsToHeaders_of_gridAt hlive htable
  rwa [hrows, hcolumns] at hleads

theorem gridAt_initial (h : Handle) : initial.gridAt h = .empty := by
  cases h <;> rfl

/-- Over a run, the address of a cell leads to the cell of that row and column among those that the
last operation of the kind created, and the number of a header to the header of that number among
those last created; every other address leads nowhere, and none is an error. -/
theorem resolve_applyAll (before after : List Operation) (h : Handle) :
    let t := initial.applyAll before
    (∀ rows columns cells,
      let gridded := (Operation.addGrid h rows columns).apply t
      (Operation.addGrid h rows columns).result t = .ok cells →
      NoneSucceeds (Operation.GivesCells h) gridded after →
      (gridded.applyAll after).isLive h = true →
        LeadsToCells (gridded.applyAll after) h rows columns cells) ∧
    (∀ rowNames columnNames,
      let tabled := (Operation.addTableHeaders h rowNames columnNames).apply t
      (Operation.addTableHeaders h rowNames columnNames).result t = .ok () →
      NoneSucceeds (Operation.GivesHeaders h) tabled after →
      (tabled.applyAll after).isLive h = true →
        LeadsToHeaders (tabled.applyAll after) h (List.range' t.nodes.size rowNames.length)
          (List.range' (t.nodes.size + rowNames.length) columnNames.length) ∧
        (∀ i name, rowNames[i]? = some name →
          tabled.node (t.nodes.size + i : Nat) = .ok (.ofSpec (some h) (Edit.headerSpec name))) ∧
        ∀ i name, columnNames[i]? = some name →
          tabled.node (t.nodes.size + rowNames.length + i : Nat) =
            .ok (.ofSpec (some h) (Edit.headerSpec name))) ∧
    (t.isLive h = true →
      (NoneSucceeds (Operation.GivesCells h) initial before → LeadsToCells t h 0 0 []) ∧
      (NoneSucceeds (Operation.GivesHeaders h) initial before → LeadsToHeaders t h [] [])) := by
  intro t
  have ht : t.WellFormed := wellFormed_initial.applyAll before
  refine ⟨?_, ?_, ?_⟩
  · intro rows columns cells gridded hresult hnone hlive
    exact leadsToCells_applyAll ht hresult hnone hlive
  · intro rowNames columnNames tabled hresult hnone hlive
    cases hn : t.node h with
    | error e =>
      rw [Operation.result, Operation.edit, Edit.perform_addTableHeaders_error hn] at hresult
      contradiction
    | ok n =>
      exact ⟨leadsToHeaders_applyAll ht hn hnone hlive, node_addTableHeaders hn rowNames columnNames⟩
  · intro hlive
    constructor
    · intro hnone
      have hcells : (t.gridAt h).cells = [] := by
        rw [cells_applyAll wellFormed_initial hnone, gridAt_initial]
        rfl
      rw [← hcells]
      apply leadsToCells_of_gridAt hlive
      rw [hcells]
      rfl
    · intro hnone
      apply leadsToHeaders_nil hlive
      rw [(headers_applyAll wellFormed_initial hnone).1, gridAt_initial]
      rfl

/-- A table whose first cell was removed after it had been given headers. -/
theorem resolve_applyAll_table :
    let t := initial.applyAll [.add root (ElementSpec.ofControlType .table)]
    let later : List Operation := [.addTableHeaders 1 ["First"] ["Host", "User"], .remove 2]
    let s := ((Operation.addGrid 1 1 2).apply t).applyAll later
    (Operation.addGrid 1 1 2).result t = .ok [[2, 3]] ∧ s.isLive 1 = true ∧
      LeadsToCells s 1 1 2 [[2, 3]] ∧ LeadsToCells t 1 0 0 [] := by
  intro t later s
  have hnone : NoneSucceeds (Operation.GivesCells 1) ((Operation.addGrid 1 1 2).apply t) later := by
    apply noneSucceeds_of_forall
    rintro o ho ⟨rows, columns, rfl⟩
    simp [later] at ho
  have hnever : NoneSucceeds (Operation.GivesCells 1) initial
      [.add root (ElementSpec.ofControlType .table)] := by
    apply noneSucceeds_of_forall
    rintro o ho ⟨rows, columns, rfl⟩
    simp at ho
  have hresult : (Operation.addGrid 1 1 2).result t = .ok [[2, 3]] := by decide +kernel
  have hlive : s.isLive 1 = true := by decide +kernel
  have hpresent : t.isLive 1 = true := by decide +kernel
  obtain ⟨hcells, -, hnothing⟩ :=
    resolve_applyAll [.add root (ElementSpec.ofControlType .table)] later 1
  exact ⟨hresult, hlive, hcells 1 2 [[2, 3]] hresult hnone hlive, (hnothing hpresent).1 hnever⟩

end Runs

end ElementQuery.Search
