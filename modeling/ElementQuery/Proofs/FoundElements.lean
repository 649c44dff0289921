import ElementQuery.Proofs.Search
import ElementQuery.Proofs.Tree.Grids

/-!
# Whether what is found is in the tree

A search starts from an element that is in the tree and looks at the tree only, so the element that
it finds there, and the one that it reports as the anchor, are in the tree. A grid address is
followed through the handles that the grid keeps, and these are not looked up: a cell or a header
that was removed is found all the same, as long as it was not replaced by a new one.
-/

namespace ElementQuery.Search

open Dialogue

variable {t : Tree} {n : Node}

theorem mem_of_header? {headers : List Handle} {number : Nat} {x : Handle}
    (hx : header? headers number = some x) : x ∈ headers := by
  cases number with
  | zero => contradiction
  | succ k => exact List.mem_of_getElem? hx

theorem mem_handles_of_addressed? {g : Grid} {address : GridAddress} {x : Handle}
    (hx : addressed? g address = some x) : x ∈ g.handles := by
  rw [Grid.handles, List.mem_append, List.mem_append]
  cases address with
  | cell row column =>
    rw [addressed?] at hx
    split at hx
    · contradiction
    split at hx
    · contradiction
    split at hx
    · contradiction
    obtain ⟨cells, hcells, hcell⟩ := Option.bind_eq_some_iff.mp hx
    left; left
    exact List.mem_flatten.mpr ⟨cells, List.mem_of_getElem? hcells, List.mem_of_getElem? hcell⟩
  | row number =>
    rw [addressed?] at hx
    split at hx
    · exact .inl (.inr (mem_of_header? hx))
    · contradiction
  | column number =>
    rw [addressed?] at hx
    split at hx
    · exact .inr (mem_of_header? hx)
    · contradiction

/-- A search that succeeds has followed the address of the query from an element of the tree. -/
theorem exists_follow_of_run (ht : t.WellFormed) {parent : Handle} (hn : t.node parent = .ok n)
    {scope : Scope} {q : Query} {m : SearchMatch} {s : Tree}
    (hrun : (findMatch parent scope q).run Tree.provider t = (.ok (some m), s)) :
    ∃ address base, q.gridAddress = .ok address ∧ t.isLive base = true ∧
      (follow base parent address).run Tree.provider t = (.ok (some m), s) := by
  by_cases hmistake : ∃ e, q.Mistake e
  · obtain ⟨e, he⟩ := hmistake
    rw [findMatch_eq_fail he, run] at hrun
    cases hrun
  obtain ⟨⟨address, hgrid⟩, hcondition⟩ := Query.ok_of_not_mistake (not_exists.mp hmistake)
  cases hmain : q.isMainWindow with
  | true =>
    rw [findMatch_eq_follow hgrid hmain] at hrun
    exact ⟨address, parent, hgrid, Tree.isLive_iff.mpr ⟨n, hn⟩, hrun⟩
  | false =>
    obtain ⟨c, hc⟩ := hcondition.resolve_left (by simp [hmain])
    rw [run_findMatch_request hgrid hmain hc, ht.findFirst_eq hn scope c] at hrun
    cases hfound : (t.scopeList parent scope).find? (t.satisfies c) with
    | none =>
      rw [hfound] at hrun
      cases hrun
    | some base =>
      rw [hfound] at hrun
      have hbase := ht.node_of_mem_scopeList hn (List.mem_of_find?_eq_some hfound)
      exact ⟨address, base, hgrid, Tree.isLive_iff.mpr hbase, hrun⟩

/-- A search hands out an anchor that is in the tree. It hands out an element that is in the tree
unless the element was found through a grid address and the grid does not list it any more. -/
theorem isLive_of_run_findMatch (ht : t.Reachable) {parent : Handle} (hparent : t.isLive parent = true)
    {scope : Scope} {q : Query} {m : SearchMatch} {s : Tree}
    (hrun : (findMatch parent scope q).run Tree.provider t = (.ok (some m), s)) :
    s = t ∧ t.isLive m.anchor = true ∧
      (t.isLive m.element = true ↔
        q.gridAddress = .ok none ∨ m.element ∈ t.childrenOf m.anchor) := by
  obtain ⟨n, hn⟩ := Tree.isLive_iff.mp hparent
  obtain ⟨address, base, hgrid, hbase, hfollow⟩ := exists_follow_of_run ht.wellFormed hn hrun
  obtain ⟨k, hk⟩ := Tree.isLive_iff.mp hbase
  rw [hgrid]
  cases address with
  | none =>
    obtain ⟨hresult, rfl⟩ := Prod.mk.inj hfollow
    obtain rfl := Option.some.inj (Except.ok.inj hresult)
    exact ⟨rfl, hparent, fun _ => .inl rfl, fun _ => hbase⟩
  | some address =>
    rw [follow, run_bind, run_resolve_eq hk] at hfollow
    obtain ⟨hresult, rfl⟩ := Prod.mk.inj hfollow
    obtain ⟨x, hx, rfl⟩ := Option.map_eq_some_iff.mp (Except.ok.inj hresult)
    obtain ⟨g, hg, haddressed⟩ := Option.bind_eq_some_iff.mp hx
    have hlive := ht.isLive_iff_of_mem_handles hk hg (mem_handles_of_addressed? haddressed)
    refine ⟨rfl, hbase, hlive.trans ?_⟩
    simp

theorem isLive_of_run_findMatch_cell :
    let t := Tree.initial.applyAll
      [.add Tree.root ((ElementSpec.ofControlType .table).withName "Prices"), .addGrid 1 2 2,
        .remove 2]
    t.Reachable ∧ t.isLive Tree.root = true ∧
      (findMatch Tree.root .descendants (Query.parse "Name:Prices[2,1]" "")).run Tree.provider t =
        (.ok (some ⟨4, 1⟩), t) ∧
      t.isLive 4 = true := by
  intro t
  have ht : t.Reachable := ⟨_, rfl⟩
  have hroot : t.isLive Tree.root = true := rfl
  have hrun : (findMatch Tree.root .descendants (Query.parse "Name:Prices[2,1]" "")).run
      Tree.provider t = (.ok (some ⟨4, 1⟩), t) := rfl
  have hcell : 4 ∈ t.childrenOf 1 := by decide
  exact ⟨ht, hroot, hrun, (isLive_of_run_findMatch ht hroot hrun).2.2.mpr (.inr hcell)⟩

/-- A cell that was removed is found. -/
theorem run_findMatch_removed_cell :
    let t := Tree.initial.applyAll
      [.add Tree.root ((ElementSpec.ofControlType .table).withName "Prices"), .addGrid 1 1 1,
        .remove 2]
    t.Reachable ∧ t.isLive Tree.root = true ∧
      (findMatch Tree.root .descendants (Query.parse "Name:Prices[1,1]" "Name")).run Tree.provider t =
        (.ok (some ⟨2, 1⟩), t) ∧
      t.isLive 2 = false := by
  intro t
  exact ⟨⟨_, rfl⟩, rfl, rfl, rfl⟩

end ElementQuery.Search
