import ElementQuery.Proofs.Blame
import ElementQuery.Proofs.Search
import ElementQuery.Proofs.Wait

/-!
# Searching with a mistake in the query

A search makes out the grid address and the condition of its query first. So a query with a mistake
is refused with the error of that mistake by every kind of search, before anything is asked, and a
wait is over after its first attempt. A usage error has no other source: a search for a query without
a mistake may fail, but then because of what it finds in the tree, or because it finds nothing.
-/

namespace ElementQuery

/-- Holds of a dialogue that ends with an error before it has asked anything. -/
def Dialogue.Refused {α : Type} (d : Dialogue α) (e : Error) : Prop :=
  ∀ (σ : Type) (p : Provider σ) (s : σ), d.run p s = (.error e, s) ∧ d.calls p s = []

namespace Search

open Dialogue

variable {parent : Handle} {scope : Scope} {q : Query} {e : Error}

/-! ### Queries with a mistake -/

theorem find_eq_fail (hq : q.Mistake e) : find parent scope q = .fail e := by
  rw [find, findMatch_eq_fail hq]
  rfl

theorem findRequired_eq_fail (hq : q.Mistake e) : findRequired parent scope q = .fail e := by
  rw [findRequired, find_eq_fail hq]
  rfl

theorem refused_fail {α : Type} (e : Error) : (.fail e : Dialogue α).Refused e :=
  fun _ _ _ => ⟨rfl, rfl⟩

/-- Holds of a query that is refused with an error by every kind of search, and by a wait after its
only attempt. -/
structure Refuses (parent : Handle) (scope : Scope) (q : Query) (e : Error) : Prop where
  findMatch : (findMatch parent scope q).Refused e
  find : (find parent scope q).Refused e
  findRequired : (findRequired parent scope q).Refused e
  waitFor : ∀ (σ : Type) (p : Provider σ) (clock : Clock σ) (s : Settings) (limit : Nat) (w : σ),
    ∃ r, waitFor p clock s parent scope q (limit + 1) w = some r ∧ r.attempts = 1 ∧ r.pauses = [] ∧
      r.world = w ∧ r.result = .error e ∧ required s parent q r.result = .error e

theorem refuses_of_mistake (hq : q.Mistake e) : Refuses parent scope q e where
  findMatch := findMatch_eq_fail hq ▸ refused_fail e
  find := find_eq_fail hq ▸ refused_fail e
  findRequired := findRequired_eq_fail hq ▸ refused_fail e
  waitFor := by
    intro σ p clock s limit w
    have hattempt : (Search.find parent scope q).run p w = (.error e, w) := by
      rw [find_eq_fail hq]
      rfl
    refine ⟨_, waitForSome_of_error clock s.timeout s.pollInterval limit hattempt, ?_⟩
    exact ⟨rfl, rfl, rfl, rfl, rfl⟩

/-! ### Queries without a mistake -/

theorem blameless_findMatch (hq : ∀ e, ¬ q.Mistake e) : (findMatch parent scope q).Blameless := by
  obtain ⟨⟨a, hgrid⟩, hcondition⟩ := Query.ok_of_not_mistake hq
  cases hmain : q.isMainWindow with
  | true =>
    rw [findMatch_eq_follow hgrid hmain]
    exact blameless_follow parent parent a
  | false =>
    obtain ⟨c, hc⟩ := hcondition.resolve_left (by simp [hmain])
    rw [findMatch_eq_request hgrid hmain hc]
    apply (blameless_request _).bind
    rintro (_ | found)
    · trivial
    · exact blameless_follow found parent a

theorem blameless_find (hq : ∀ e, ¬ q.Mistake e) : (find parent scope q).Blameless :=
  (blameless_findMatch hq).bind fun _ => trivial

theorem blameless_findRequired (hq : ∀ e, ¬ q.Mistake e) :
    (findRequired parent scope q).Blameless := by
  apply (blameless_find hq).bind
  rintro (_ | h)
  · exact rfl
  · trivial

/-- Holds of a query for which no kind of search ends with a usage error. -/
structure NeverBlames {σ : Type} (p : Provider σ) (parent : Handle) (scope : Scope) (q : Query)
    (w : σ) : Prop where
  findMatch : ∀ e, (findMatch parent scope q).result p w = .error e → e.isUsage = false
  find : ∀ e, (find parent scope q).result p w = .error e → e.isUsage = false
  findRequired : ∀ e, (findRequired parent scope q).result p w = .error e → e.isUsage = false
  waitFor : ∀ (clock : Clock σ) (s : Settings) (limit : Nat) (r : WaitRun σ Error Handle),
    waitFor p clock s parent scope q limit w = some r → ∀ e,
      (r.result = .error e → e.isUsage = false) ∧
      (required s parent q r.result = .error e → e.isUsage = false)

theorem neverBlames_of_not_mistake {σ : Type} {p : Provider σ} (hp : p.Blameless)
    (hq : ∀ e, ¬ q.Mistake e) (w : σ) : NeverBlames p parent scope q w where
  findMatch := fun _ => (blameless_findMatch hq).isUsage_of_result hp
  find := fun _ => (blameless_find hq).isUsage_of_result hp
  findRequired := fun _ => (blameless_findRequired hq).isUsage_of_result hp
  waitFor := by
    intro clock s limit r hrun e
    have hwait : ∀ {e}, r.result = .error e → e.isUsage = false := by
      intro e he
      obtain ⟨w, hattempt⟩ := exists_attempt_of_error hrun he
      exact (blameless_find hq).isUsage_of_result hp hattempt
    refine ⟨hwait, ?_⟩
    intro he
    rcases hresult : r.result with e' | _ | h <;> rw [hresult] at he
    · obtain rfl := Except.error.inj he
      exact hwait hresult
    · obtain rfl := Except.error.inj he
      rfl
    · nomatch he

/-- A query with a mistake, in its grid address or else in one of its locators, is refused with the
error of the first one by every search, and nothing is asked. For every other query no search of a
tree ends with a usage error, whatever its parent is and whatever happens to the tree meanwhile. -/
theorem refuses_or_neverBlames (parent : Handle) (scope : Scope) (q : Query) :
    (∀ e, q.Mistake e →
      e.isUsage = true ∧
      (q.gridAddress = .error e ∨ ∃ before l after, q.locators = before ++ l :: after ∧
        (∀ k ∈ before, ∃ c, k.condition = .ok c) ∧ l.condition = .error e) ∧
      Refuses parent scope q e) ∧
    ((∀ e, ¬ q.Mistake e) → ∀ (τ : Type) (get : τ → Tree) (set : Tree → τ → τ) (w : τ),
      NeverBlames (Tree.provider.within get set) parent scope q w) := by
  constructor
  · intro e hq
    refine ⟨hq.isUsage, ?_, refuses_of_mistake hq⟩
    rcases hq with hgrid | ⟨-, -, hcondition⟩
    · exact .inl hgrid
    · exact .inr (Query.conditions_eq_error_iff.mp (Query.condition_eq_error_iff.mp hcondition).2)
  · intro hq τ get set w
    exact neverBlames_of_not_mistake (Tree.blameless_provider.within get set) hq w

/-- A query with a mistake in each of three places, and a search below an element that was removed. -/
theorem refuses_or_neverBlames_login :
    let mistaken := Query.parse "ProcessId:x[row 0] && Colour:red" "Name"
    let sound := Query.parse "Name:Login" "Name"
    let t := Tree.initial.applyAll [.add Tree.root (ElementSpec.ofControlType .window), .remove 1]
    mistaken.Mistake (.invalidGridAddress "row 0") ∧
      Refuses 1 .descendants mistaken (.invalidGridAddress "row 0") ∧
      (∀ e, ¬ sound.Mistake e) ∧
      (findMatch 1 .descendants sound).result (Tree.provider.within id fun s _ => s) t =
        .error (Tree.unavailable 1) ∧
      (Tree.unavailable 1).isUsage = false := by
  intro mistaken sound t
  have hmistaken : mistaken.Mistake (.invalidGridAddress "row 0") := .inl rfl
  have hgrid : sound.gridAddress = .ok none := rfl
  have hcondition : sound.condition = .ok (.property .name (.text "Login")) := rfl
  have hsound : ∀ e, ¬ sound.Mistake e := by
    rintro e (he | ⟨-, -, he⟩)
    · exact nomatch hgrid.symm.trans he
    · exact nomatch hcondition.symm.trans he
  have hstale : (findMatch 1 .descendants sound).result (Tree.provider.within id fun s _ => s) t =
      .error (Tree.unavailable 1) := rfl
  refine ⟨hmistaken, ((refuses_or_neverBlames 1 .descendants mistaken).1 _ hmistaken).2.2, hsound,
    hstale, ?_⟩
  exact ((refuses_or_neverBlames 1 .descendants sound).2 hsound _ _ _ t).findMatch _ hstale

end Search

end ElementQuery
