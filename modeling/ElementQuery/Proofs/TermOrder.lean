import ElementQuery.Proofs.Mistakes
import ElementQuery.Proofs.Query.Condition

/-!
# The order of the terms of a query

The locators of a query are satisfied together, so their order says nothing about the element that is
meant. What could depend on it is which mistake is reported if there are several, and which grid address
counts if there are several. All the rest is alike for two queries with the same locators in another
order: whether there is a mistake at all, what is special about a query of no or one locator, and
which elements meet the condition. A search of a tree depends on the condition through these elements
only, so it finds the same.
-/

namespace ElementQuery

theorem find?_perm {α : Type} {p : α → Bool} {l l' : List α} (hperm : l.Perm l')
    (hone : l.countP p ≤ 1) : l.find? p = l'.find? p := by
  rw [← List.head?_filter, ← List.head?_filter]
  have hfilter : (l.filter p).Perm (l'.filter p) := hperm.filter p
  rw [List.countP_eq_length_filter] at hone
  rcases hleft : l.filter p with _ | ⟨x, _ | ⟨y, rest⟩⟩ <;> rw [hleft] at hfilter hone
  · rw [List.nil_perm.mp hfilter]
  · rw [List.singleton_perm.mp hfilter]
  · simp at hone

namespace Query

variable {q q' : Query}

theorem gridAddress_perm (hperm : q.locators.Perm q'.locators)
    (hone : q.locators.countP Locator.hasGrid ≤ 1) : q.gridAddress = q'.gridAddress := by
  rw [gridAddress, gridAddress, find?_perm hperm hone]

/-- Only the order of several locators can change. -/
theorem eq_or_several (hperm : q.locators.Perm q'.locators) : q = q' ∨ 2 ≤ q.locators.length := by
  rcases q with ⟨_ | ⟨x, _ | ⟨y, rest⟩⟩⟩
  · exact .inl (congrArg Query.mk (List.nil_perm.mp hperm).symm)
  · exact .inl (congrArg Query.mk (List.singleton_perm.mp hperm))
  · exact .inr (by simp)

theorem isMainWindow_of_several (hseveral : 2 ≤ q.locators.length) : q.isMainWindow = false := by
  rcases q with ⟨_ | ⟨x, _ | ⟨y, rest⟩⟩⟩
  · simp at hseveral
  · simp at hseveral
  · rfl

theorem isAnything_of_several (hseveral : 2 ≤ q.locators.length) : q.isAnything = false := by
  rcases q with ⟨_ | ⟨x, _ | ⟨y, rest⟩⟩⟩
  · simp at hseveral
  · simp at hseveral
  · rfl

theorem isMainWindow_perm (hperm : q.locators.Perm q'.locators) :
    q.isMainWindow = q'.isMainWindow := by
  rcases eq_or_several hperm with rfl | hseveral
  · rfl
  · rw [isMainWindow_of_several hseveral, isMainWindow_of_several (hperm.length_eq ▸ hseveral)]

theorem admits_perm (hperm : q.locators.Perm q'.locators) (ps : Properties) :
    q.admits ps = q'.admits ps := by
  rcases eq_or_several hperm with rfl | hseveral
  · rfl
  · rw [admits_eq_all (isAnything_of_several hseveral),
      admits_eq_all (isAnything_of_several (hperm.length_eq ▸ hseveral)), Bool.eq_iff_iff,
      List.all_eq_true, List.all_eq_true]
    exact forall_congr' fun l => imp_congr_left hperm.mem_iff

theorem isAnything_perm (hperm : q.locators.Perm q'.locators) : q.isAnything = q'.isAnything := by
  rcases eq_or_several hperm with rfl | hseveral
  · rfl
  · rw [isAnything_of_several hseveral, isAnything_of_several (hperm.length_eq ▸ hseveral)]

theorem exists_mistake_perm (hperm : q.locators.Perm q'.locators)
    (hone : q.locators.countP Locator.hasGrid ≤ 1) (hq : ∃ e, q.Mistake e) :
    ∃ e, q'.Mistake e := by
  obtain ⟨e, hgrid | ⟨⟨a, hgrid⟩, hmain, hcondition⟩⟩ := hq
  · exact ⟨e, .inl ((gridAddress_perm hperm hone).symm.trans hgrid)⟩
  · obtain ⟨hanything, hconditions⟩ := condition_eq_error_iff.mp hcondition
    obtain ⟨l, hl, hmistaken⟩ := exists_conditions_eq_error_iff.mp ⟨e, hconditions⟩
    obtain ⟨e', he'⟩ := exists_conditions_eq_error_iff.mpr ⟨l, hperm.mem_iff.mp hl, hmistaken⟩
    refine ⟨e', .inr ⟨⟨a, (gridAddress_perm hperm hone).symm.trans hgrid⟩, ?_, ?_⟩⟩
    · exact (isMainWindow_perm hperm).symm.trans hmain
    · exact condition_eq_error_iff.mpr ⟨(isAnything_perm hperm).symm.trans hanything, he'⟩

end Query

/-! ### Searching -/

namespace Tree

variable {t : Tree} {c c' : Condition}

theorem satisfies_congr (hc : ∀ ps : Properties, c.holds ps.get? = c'.holds ps.get?) :
    t.satisfies c = t.satisfies c' := by
  funext h
  rw [satisfies, satisfies]
  cases t.node h with
  | error e => rfl
  | ok n => exact hc n.spec.properties

theorem searchFirst_congr (hc : t.satisfies c = t.satisfies c') (steps : Nat)
    (stack : List Handle) : t.searchFirst c steps stack = t.searchFirst c' steps stack := by
  induction steps generalizing stack with
  | zero => cases stack <;> rfl
  | succ steps ih =>
    cases stack with
    | nil => rfl
    | cons h stack =>
      rw [searchFirst, searchFirst, hc]
      simp only [ih]

theorem findFirst_congr (hc : t.satisfies c = t.satisfies c') (start : Handle) (scope : Scope) :
    t.findFirst start scope c = t.findFirst start scope c' := by
  cases scope with
  | element | children => rw [findFirst, findFirst, hc]
  | descendants => simp only [findFirst, firstDescendant, searchFirst_congr hc]

end Tree

namespace Search

open Dialogue

variable {q q' : Query}

theorem run_findMatch_perm (hperm : q.locators.Perm q'.locators)
    (hone : q.locators.countP Locator.hasGrid ≤ 1) (hq : ∀ e, ¬ q.Mistake e)
    (hq' : ∀ e, ¬ q'.Mistake e) (t : Tree) (parent : Handle) (scope : Scope) :
    (findMatch parent scope q).run Tree.provider t =
      (findMatch parent scope q').run Tree.provider t := by
  obtain ⟨⟨a, hgrid⟩, hcondition⟩ := Query.ok_of_not_mistake hq
  obtain ⟨-, hcondition'⟩ := Query.ok_of_not_mistake hq'
  have hgrid' := (Query.gridAddress_perm hperm hone).symm.trans hgrid
  have hsame := Query.isMainWindow_perm hperm
  cases hmain : q.isMainWindow with
  | true =>
    rw [findMatch_eq_follow hgrid hmain, findMatch_eq_follow hgrid' (hsame.symm.trans hmain)]
  | false =>
    have hmain' := hsame.symm.trans hmain
    obtain ⟨c, hc⟩ := hcondition.resolve_left (by simp [hmain])
    obtain ⟨c', hc'⟩ := hcondition'.resolve_left (by simp [hmain'])
    have hsatisfies : t.satisfies c = t.satisfies c' := Tree.satisfies_congr fun ps => by
      rw [Query.holds_of_condition hc, Query.holds_of_condition hc', Query.admits_perm hperm]
    rw [run_findMatch_request hgrid hmain hc, run_findMatch_request hgrid' hmain' hc',
      Tree.findFirst_congr hsatisfies]

/-- Two queries with the same locators in another order, of which at most one has a grid address, are
both refused with a usage error, or find the same, in every tree and below every handle. -/
theorem run_find_perm (hperm : q.locators.Perm q'.locators)
    (hone : q.locators.countP Locator.hasGrid ≤ 1) (t : Tree) (parent : Handle) (scope : Scope) :
    (∃ e e', e.isUsage = true ∧ e'.isUsage = true ∧
      (find parent scope q).run Tree.provider t = (.error e, t) ∧
      (find parent scope q').run Tree.provider t = (.error e', t)) ∨
    (find parent scope q).run Tree.provider t = (find parent scope q').run Tree.provider t := by
  by_cases hq : ∃ e, q.Mistake e
  · obtain ⟨e', he'⟩ := Query.exists_mistake_perm hperm hone hq
    obtain ⟨e, he⟩ := hq
    refine .inl ⟨e, e', he.isUsage, he'.isUsage, ?_, ?_⟩
    · rw [find_eq_fail he, run]
    · rw [find_eq_fail he', run]
  · have hq' : ¬ ∃ e, q'.Mistake e := fun hq' =>
      hq (Query.exists_mistake_perm hperm.symm (hperm.countP_eq _ ▸ hone) hq')
    right
    rw [find, find, run_bind, run_bind,
      run_findMatch_perm hperm hone (not_exists.mp hq) (not_exists.mp hq') t parent scope]

/-- The cell of a table, asked for in two orders. -/
theorem run_find_perm_cell :
    let t := Tree.initial.applyAll
      [.add Tree.root ((ElementSpec.ofControlType .table).withName "Prices"), .addGrid 1 2 2]
    let q := Query.parse "Name:Prices[2,1] && ControlType:Table" "Name"
    let q' := Query.parse "ControlType:Table && Name:Prices[2,1]" "Name"
    q.locators.Perm q'.locators ∧ q.locators.countP Locator.hasGrid ≤ 1 ∧
      (find Tree.root .descendants q).run Tree.provider t = (.ok (some 4), t) ∧
      (find Tree.root .descendants q').run Tree.provider t = (.ok (some 4), t) := by
  intro t q q'
  have hperm : q.locators.Perm q'.locators := by decide +kernel
  have hone : q.locators.countP Locator.hasGrid ≤ 1 := by decide +kernel
  have hfound : (find Tree.root .descendants q).run Tree.provider t = (.ok (some 4), t) := rfl
  refine ⟨hperm, hone, hfound, ?_⟩
  rcases run_find_perm hperm hone t Tree.root .descendants with ⟨e, e', -, -, he, -⟩ | hsame
  · exact nomatch hfound.symm.trans he
  · exact hsame.symm.trans hfound

end Search

end ElementQuery
