import ElementQuery.Proofs.Query.Condition
import ElementQuery.Proofs.Tree.Descendants
import ElementQuery.Proofs.Tree.Reachable
import ElementQuery.Search

/-!
# What a search finds

A search for a query without a mistake, below an element that is in the tree, asks the tree only for
what it can answer: whatever the scope is, the element found is in the tree, and it is asked for rows,
columns and headers only if it is a grid. So the search succeeds, and its result can be told from the
tree without running it.
-/

namespace ElementQuery.Search

open Dialogue

variable {t : Tree} {h : Handle} {n : Node}

/-! ### The three ways in which a search begins -/

section Begin

variable {parent : Handle} {scope : Scope} {q : Query} {a : Option GridAddress}

theorem findMatch_eq_fail {e : Error} (hq : q.Mistake e) : findMatch parent scope q = .fail e := by
  rw [findMatch]
  rcases hq with hgrid | ⟨⟨a, hgrid⟩, hmain, hcondition⟩
  · rw [hgrid]
    rfl
  · rw [hgrid, hmain, hcondition]
    rfl

theorem findMatch_eq_follow (hgrid : q.gridAddress = .ok a) (hmain : q.isMainWindow = true) :
    findMatch parent scope q = follow parent parent a := by
  rw [findMatch, hgrid, hmain]
  rfl

theorem findMatch_eq_request (hgrid : q.gridAddress = .ok a) (hmain : q.isMainWindow = false)
    {c : Condition} (hcondition : q.condition = .ok c) :
    findMatch parent scope q = request (.findFirst parent scope c) >>= fun
      | none => return none
      | some found => follow found parent a := by
  rw [findMatch, hgrid, hmain, hcondition]
  rfl

theorem run_findMatch_request (hgrid : q.gridAddress = .ok a) (hmain : q.isMainWindow = false)
    {c : Condition} (hcondition : q.condition = .ok c) :
    (findMatch parent scope q).run Tree.provider t =
      match t.findFirst parent scope c with
      | .ok none => (.ok none, t)
      | .ok (some found) => (follow found parent a).run Tree.provider t
      | .error e => (.error e, t) := by
  rw [findMatch_eq_request hgrid hmain hcondition, run_findFirst_bind]
  rcases t.findFirst parent scope c with e | _ | found <;> rfl

end Begin

/-! ### Where an address leads -/

/-- What an address points to in a grid. -/
def addressed? (g : Grid) : GridAddress → Option Handle
  | .cell row column =>
    if row == 0 || column == 0 then none
    else if g.cells.length < row then none
    else if g.columnCount < column then none
    else g.item? (row - 1) (column - 1)
  | .row number => if g.isTable then header? g.rowHeaders number else none
  | .column number => if g.isTable then header? g.columnHeaders number else none

/-- Following an address into an element that is in the tree leads to what the address points to in
its grid, and changes nothing. -/
theorem run_resolve_eq (hn : t.node h = .ok n) (address : GridAddress) :
    (resolve h address).run Tree.provider t =
      (.ok (n.grid.bind fun g => addressed? g address), t) := by
  cases address with
  | cell row column =>
    simp only [resolve, request, ask_bind, done_bind, pure_eq, run, answer_provider,
      Edit.ofRequest, Edit.perform_read, hn, Except.map]
    cases hgrid : n.grid with
    | none => simp [Node.supports, hgrid, run]
    | some g =>
      simp only [Node.supports, hgrid, Option.isSome_some, Bool.not_true, Bool.false_eq_true,
        if_false, Option.bind_some, addressed?]
      split
      · rfl
      · simp only [run, answer_provider, Edit.ofRequest, Edit.perform_readGrid hn hgrid]
        split
        · rfl
        · simp only [run, answer_provider, Edit.ofRequest, Edit.perform_readGrid hn hgrid]
          split
          · rfl
          · simp only [run, answer_provider, Edit.ofRequest, Edit.perform_readGrid hn hgrid]
  | row number | column number =>
    simp only [resolve, request, ask_bind, done_bind, pure_eq, run, answer_provider,
      Edit.ofRequest, Edit.perform_read, hn, Except.map]
    cases hgrid : n.grid with
    | none => simp [Node.supports, hgrid, run]
    | some g =>
      simp only [Node.supports, hgrid, Option.any_some, Option.bind_some, addressed?]
      cases g.isTable with
      | false => rfl
      | true =>
        simp only [Bool.not_true, Bool.false_eq_true, if_false, if_true, run, answer_provider,
          Edit.ofRequest, Edit.perform_readGrid hn hgrid]

theorem run_resolve (hn : t.node h = .ok n) (address : GridAddress) :
    ∃ target, (resolve h address).run Tree.provider t = (.ok target, t) :=
  ⟨_, run_resolve_eq hn address⟩

/-- Holds of the result of a search that started from an element: nothing if there is no element to
follow the address from, that element if there is no address, and otherwise what the address points
to in it, if anything. -/
def Follows (t : Tree) (start : Handle) :
    (base : Option Handle) → (address : Option GridAddress) → (result : Option SearchMatch) → Prop
  | none, _, result => result = none
  | some base, none, result => result = some ⟨base, start⟩
  | some base, some a, result => ∃ target,
      (resolve base a).run Tree.provider t = (.ok target, t) ∧
        result = target.map fun e => ⟨e, base⟩

theorem run_follow (hn : t.node h = .ok n) (start : Handle) (address : Option GridAddress) :
    ∃ result, (follow h start address).run Tree.provider t = (.ok result, t) ∧
      Follows t start (some h) address result := by
  cases address with
  | none => exact ⟨_, rfl, rfl⟩
  | some a =>
    obtain ⟨target, hrun⟩ := run_resolve hn a
    refine ⟨target.map fun e => ⟨e, h⟩, ?_, target, hrun, rfl⟩
    rw [follow, run_bind, hrun]
    rfl

/-! ### What a query finds -/

/-- Holds of a query and the grid address that it carries, the one of its first locator with a grid. -/
inductive Carries (q : Query) : Option GridAddress → Prop where
  | nothing (hnone : ∀ l ∈ q.locators, l.grid = "") : Carries q none
  | first {before after : List Locator} {l : Locator} {a : GridAddress}
      (hlocators : q.locators = before ++ l :: after) (hbefore : ∀ m ∈ before, m.grid = "")
      (hgrid : l.grid ≠ "") (hread : GridAddress.parse l.grid = .ok a) : Carries q (some a)

theorem hasGrid_iff {l : Locator} : l.hasGrid = true ↔ l.grid ≠ "" := by
  simp [Locator.hasGrid]

theorem carries_iff {q : Query} {address : Option GridAddress} :
    Carries q address ↔ q.gridAddress = .ok address := by
  rw [Query.gridAddress]
  constructor
  · rintro (hnone | @⟨_, _, l, _, hlocators, hbefore, hgrid, hread⟩)
    · have hfind : q.locators.find? Locator.hasGrid = none := by
        rw [List.find?_eq_none]
        exact fun l hl hhas => hasGrid_iff.mp hhas (hnone l hl)
      rw [hfind]
    · have hfind : q.locators.find? Locator.hasGrid = some l := by
        refine List.find?_eq_some_iff_append.mpr ⟨hasGrid_iff.mpr hgrid, _, _, hlocators, ?_⟩
        simpa [Locator.hasGrid] using hbefore
      rw [hfind]
      simp only [Locator.gridAddress, hasGrid_iff.mpr hgrid, if_true, hread, Except.map]
  · intro haddress
    cases hfind : q.locators.find? Locator.hasGrid with
    | none =>
      rw [hfind] at haddress
      obtain rfl := Except.ok.inj haddress
      refine .nothing fun l hl => ?_
      simpa [Locator.hasGrid] using List.find?_eq_none.mp hfind l hl
    | some l =>
      rw [hfind] at haddress
      obtain ⟨hhas, before, after, hlocators, hbefore⟩ := List.find?_eq_some_iff_append.mp hfind
      simp only [Locator.gridAddress, hhas, if_true] at haddress
      cases hread : GridAddress.parse l.grid with
      | error e => rw [hread] at haddress; contradiction
      | ok a =>
        rw [hread] at haddress
        obtain rfl := Except.ok.inj haddress
        exact .first hlocators (by simpa [Locator.hasGrid] using hbefore) (hasGrid_iff.mp hhas) hread

/-- The element that a query finds before its grid address is followed: the element that the search
starts from if the query asks for the main window, and otherwise the first one in scope that the
query admits. -/
def base? (t : Tree) (parent : Handle) (scope : Scope) (q : Query) : Option Handle :=
  if q.isMainWindow then some parent
  else (t.scopeList parent scope).find? fun h =>
    match t.node h with
    | .ok n => q.admits n.spec.properties
    | .error _ => false

theorem node_of_base? (ht : t.WellFormed) {parent base : Handle} {scope : Scope} {q : Query}
    (hn : t.node parent = .ok n) (hbase : base? t parent scope q = some base) :
    ∃ m, t.node base = .ok m := by
  rw [base?] at hbase
  split at hbase
  · obtain rfl := Option.some.inj hbase
    exact ⟨n, hn⟩
  · exact ht.node_of_mem_scopeList hn (List.mem_of_find?_eq_some hbase)

theorem findFirst_condition (ht : t.WellFormed) {parent : Handle} (hn : t.node parent = .ok n)
    (scope : Scope) {q : Query} {c : Condition} (hq : q.isMainWindow = false)
    (hc : q.condition = .ok c) : t.findFirst parent scope c = .ok (base? t parent scope q) := by
  have hsatisfies : t.satisfies c = fun h =>
      match t.node h with
      | .ok n => q.admits n.spec.properties
      | .error _ => false := by
    funext h
    rw [Tree.satisfies]
    cases t.node h with
    | error e => rfl
    | ok n => exact Query.holds_of_condition hc n.spec.properties
  rw [ht.findFirst_eq hn, base?, hq, if_neg Bool.false_ne_true, hsatisfies]

/-- A search for a query without a mistake below an element of a tree that can occur succeeds. It
finds the first element that the query asks for, or what the grid address points to in it. -/
theorem run_findMatch (ht : t.Reachable) {parent : Handle} {scope : Scope} {q : Query}
    {address : Option GridAddress} (hlive : t.isLive parent = true) (hgrid : Carries q address)
    (hq : q.isMainWindow = true ∨ ∃ c, q.condition = .ok c) :
    ∃ result, (findMatch parent scope q).run Tree.provider t = (.ok result, t) ∧
      Follows t parent (base? t parent scope q) address result := by
  obtain ⟨n, hn⟩ := Tree.isLive_iff.mp hlive
  rw [findMatch, run_bind, run_ofExcept, carries_iff.mp hgrid]
  simp only
  cases hmain : q.isMainWindow with
  | true =>
    rw [if_pos rfl, base?, hmain, if_pos rfl]
    exact run_follow hn parent address
  | false =>
    obtain ⟨c, hc⟩ := hq.resolve_left (by simp [hmain])
    rw [if_neg Bool.false_ne_true, run_bind, run_ofExcept, hc]
    have hfind := findFirst_condition ht.wellFormed hn scope hmain hc
    simp only [request, ask_bind, done_bind, run, answer_provider, Edit.ofRequest,
      Edit.perform_bind, Edit.perform_get, Edit.perform_ofExcept, hfind]
    cases hbase : base? t parent scope q with
    | none => exact ⟨none, rfl, rfl⟩
    | some base =>
      obtain ⟨m, hm⟩ := node_of_base? ht.wellFormed hn hbase
      exact run_follow hm parent address

/-- Of two addresses the first counts, and it leads to a cell of the table that both locators admit. -/
theorem run_findMatch_cell :
    let t := Tree.initial.applyAll
      [.add Tree.root ((ElementSpec.ofControlType .table).withName "Prices"), .addGrid 1 2 2]
    let q := Query.parse "Name:Prices[2,1] && ControlType:Table[1,2]" ""
    t.Reachable ∧ q.locators.map Locator.grid = ["2,1", "1,2"] ∧
      Carries q (some (.cell 2 1)) ∧
      (findMatch Tree.root .descendants q).run Tree.provider t = (.ok (some ⟨4, 1⟩), t) := by
  intro t q
  have hreachable : t.Reachable := ⟨_, rfl⟩
  have hgrid : Carries q (some (.cell 2 1)) := carries_iff.mpr (by decide)
  have hcondition : q.condition =
      .ok (.all [.property .name (.text "Prices"), .property .controlType (.controlType .table)]) :=
    rfl
  obtain ⟨result, hrun, hfollows⟩ := run_findMatch hreachable
    (show t.isLive Tree.root = true from rfl) hgrid (.inr ⟨_, hcondition⟩)
  have hbase : base? t Tree.root .descendants q = some 1 := rfl
  have hcell : (resolve 1 (.cell 2 1)).run Tree.provider t = (.ok (some 4), t) := rfl
  rw [hbase] at hfollows
  obtain ⟨target, htarget, rfl⟩ := hfollows
  rw [hcell] at htarget
  obtain rfl := Except.ok.inj (Prod.mk.inj htarget).1
  exact ⟨hreachable, by decide, hgrid, hrun⟩

end ElementQuery.Search
