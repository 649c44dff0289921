import ElementQuery.Proofs.ValueAccess
import Mathlib.Data.Nat.Find
import Mathlib.Logic.Function.Iterate

/-!
# Writing a toggle

A toggle can only be advanced, so a state is written by advancing the toggle until it is in that
state. No way round has more than three states, and whatever state a toggle comes to, it comes to
within two steps. So the three steps that a write takes are enough: it succeeds for every state that
the toggle is in or comes to, and it stops there.

A toggle of two states does not come to the indeterminate state. The write that asks for it cannot
know that, and it takes all its three steps before it fails. These would lead once round a way of
three states, but they leave a toggle of two states in the other one. So a write that fails changes
the tree whenever the text names a state; only a text that names none is refused without a step.
-/

namespace ElementQuery

open Dialogue

/-- The state that comes after another on the way round, on which there may be a third state. -/
def ToggleState.next (threeState : Bool) : ToggleState → ToggleState
  | .off => .on
  | .on => if threeState then .indeterminate else .off
  | .indeterminate => .off

/-- The state that a toggle is in after so many steps. -/
def ElementSpec.stateAfter (s : ElementSpec) (steps : Nat) : ToggleState :=
  (ToggleState.next s.threeState)^[steps] s.toggleState

namespace Tree

def withToggle (t : Tree) (h : Handle) (state : ToggleState) : Tree :=
  t.modify h (Node.mapSpec fun s => { s with toggle := some state })

def advanced (t : Tree) (h : Handle) (steps : Nat) : Tree :=
  (fun t => (provider.answer (.toggle h) t).2)^[steps] t

/-- Holds of the state that a toggle is in and of those that it comes to when it is advanced. -/
def ComesTo (t : Tree) (h : Handle) (state : ToggleState) : Prop :=
  ∃ steps, (provider.answer (.toggleState h) (t.advanced h steps)).1 = .ok state

end Tree

variable {t u : Tree} {h : Handle} {n : Node} {state : ToggleState} {steps : Nat} {v : String}

/-! ### The way round -/

namespace ElementSpec

theorem advanceToggle_eq (s : ElementSpec) :
    s.advanceToggle = { s with toggle := some (s.toggleState.next s.threeState) } := by
  rw [advanceToggle]
  cases s.toggleState <;> rfl

theorem stateAfter_succ (s : ElementSpec) (steps : Nat) :
    s.stateAfter (steps + 1) = (s.stateAfter steps).next s.threeState :=
  Function.iterate_succ_apply' _ _ _

theorem stateAfter_next (s : ElementSpec) (steps : Nat) :
    { s with toggle := some (s.toggleState.next s.threeState) : ElementSpec }.stateAfter steps =
      s.stateAfter (steps + 1) :=
  (Function.iterate_succ_apply _ _ _).symm

theorem stateAfter_three (s : ElementSpec) :
    s.stateAfter 3 = s.stateAfter 0 ∨ s.stateAfter 3 = s.stateAfter 1 := by
  have hround : ∀ (threeState : Bool) (state : ToggleState),
      let next := ToggleState.next threeState
      next (next (next state)) = state ∨ next (next (next state)) = next state := by
    intro threeState state
    cases threeState <;> cases state <;> decide
  exact hround s.threeState s.toggleState

theorem exists_stateAfter_le_two (s : ElementSpec) (steps : Nat) :
    ∃ k, k ≤ 2 ∧ s.stateAfter k = s.stateAfter steps := by
  induction steps with
  | zero => exact ⟨0, by decide, rfl⟩
  | succ steps ih =>
    obtain ⟨k, hk, hstate⟩ := ih
    rw [stateAfter_succ, ← hstate, ← stateAfter_succ]
    by_cases hlast : k = 2
    · subst hlast
      rcases s.stateAfter_three with hzero | hone
      · exact ⟨0, by decide, hzero.symm⟩
      · exact ⟨1, by decide, hone.symm⟩
    · exact ⟨k + 1, by omega, rfl⟩

theorem exists_first_stateAfter {s : ElementSpec} (hstate : s.stateAfter steps = state) :
    ∃ k, k ≤ 2 ∧ s.stateAfter k = state ∧ ∀ j < k, s.stateAfter j ≠ state := by
  obtain ⟨k, hk, hreached⟩ := s.exists_stateAfter_le_two steps
  have hfound : ∃ k, s.stateAfter k = state := ⟨steps, hstate⟩
  have hfirst : Nat.find hfound ≤ k := Nat.find_min' hfound (hreached.trans hstate)
  exact ⟨Nat.find hfound, by omega, Nat.find_spec hfound, fun j hj => Nat.find_min hfound hj⟩

/-- If there is a state that a toggle does not come to, then three steps lead to where one does, and
that is not where the toggle was. -/
theorem stateAfter_of_missed {s : ElementSpec} (hmissed : ∀ k, s.stateAfter k ≠ state) :
    s.stateAfter 3 = s.stateAfter 1 ∧ s.stateAfter 1 ≠ s.stateAfter 0 := by
  have hround : ∀ (threeState : Bool) (current state : ToggleState),
      let next := ToggleState.next threeState
      current ≠ state → next current ≠ state → next (next current) ≠ state →
        next (next (next current)) = next current ∧ next current ≠ current := by
    intro threeState current state
    cases threeState <;> cases current <;> cases state <;> decide
  exact hround s.threeState s.toggleState state (hmissed 0) (hmissed 1) (hmissed 2)

end ElementSpec

/-! ### Advancing a toggle of the tree -/

namespace Tree

theorem answer_toggleState (hn : t.node h = .ok n) :
    provider.answer (.toggleState h) t = (.ok n.spec.toggleState, t) := by
  rw [answer_provider, Edit.ofRequest, Edit.perform_read, hn]
  rfl

theorem answer_toggle (hn : t.node h = .ok n) :
    provider.answer (.toggle h) t =
      (.ok (), t.withToggle h (n.spec.toggleState.next n.spec.threeState)) := by
  rw [answer_provider, Edit.ofRequest, Edit.perform_update, hn, withToggle]
  refine Prod.ext rfl (ext_of_getElem? (fun x => ?_) rfl)
  rw [getElem?_modify, getElem?_modify]
  split
  · next hx =>
    rw [← hx, (node_eq_ok_iff.mp hn).1, Option.map_some, Option.map_some, Node.mapSpec,
      ElementSpec.advanceToggle_eq, Node.mapSpec]
  · rfl

theorem node_withToggle (hn : t.node h = .ok n) (state : ToggleState) :
    (t.withToggle h state).node h = .ok (n.mapSpec fun s => { s with toggle := some state }) := by
  rw [withToggle, node_modify, if_pos rfl, hn]
  · rfl
  · exact fun _ => rfl

theorem withToggle_withToggle (t : Tree) (h : Handle) (first second : ToggleState) :
    (t.withToggle h first).withToggle h second = t.withToggle h second := by
  refine ext_of_getElem? (fun x => ?_) rfl
  simp only [withToggle, getElem?_modify]
  split
  · rw [Option.map_map]
    rfl
  · rfl

theorem advanced_succ (t : Tree) (h : Handle) (steps : Nat) :
    t.advanced h (steps + 1) = (t.advanced h 1).advanced h steps :=
  Function.iterate_succ_apply _ _ _

theorem advanced_one (hn : t.node h = .ok n) :
    t.advanced h 1 = t.withToggle h (n.spec.stateAfter 1) :=
  congrArg Prod.snd (answer_toggle hn)

theorem node_advanced_one (hn : t.node h = .ok n) :
    (t.advanced h 1).node h =
      .ok (n.mapSpec fun s => { s with toggle := some (s.toggleState.next s.threeState) }) := by
  rw [advanced_one hn, node_withToggle hn]
  rfl

theorem advanced_eq_withToggle (hn : t.node h = .ok n) (steps : Nat) :
    t.advanced h (steps + 1) = t.withToggle h (n.spec.stateAfter (steps + 1)) := by
  induction steps generalizing t n with
  | zero => exact advanced_one hn
  | succ steps ih =>
    rw [advanced_succ, ih (node_advanced_one hn), advanced_one hn, withToggle_withToggle]
    exact congrArg (t.withToggle h) (n.spec.stateAfter_next (steps + 1))

theorem toggleState_advanced (hn : t.node h = .ok n) (steps : Nat) :
    (provider.answer (.toggleState h) (t.advanced h steps)).1 = .ok (n.spec.stateAfter steps) := by
  cases steps with
  | zero => exact congrArg Prod.fst (answer_toggleState hn)
  | succ steps =>
    rw [advanced_eq_withToggle hn, answer_toggleState (node_withToggle hn _)]
    rfl

theorem comesTo_iff (hn : t.node h = .ok n) :
    t.ComesTo h state ↔ ∃ steps, n.spec.stateAfter steps = state := by
  simp only [ComesTo, toggleState_advanced hn, Except.ok.injEq]

theorem not_comesTo_iff (hn : t.node h = .ok n) :
    ¬ t.ComesTo h state ↔ ∀ steps, n.spec.stateAfter steps ≠ state := by
  rw [comesTo_iff hn, not_exists]

end Tree

namespace Capability

/-! ### Advancing until a state is there -/

theorem run_advanceTo_succ (hn : t.node h = .ok n) (state : ToggleState) (steps : Nat) :
    (advanceTo h state (steps + 1)).run Tree.provider t =
      if n.spec.toggleState = state then (.ok .success, t)
      else (advanceTo h state steps).run Tree.provider (t.advanced h 1) := by
  rw [advanceTo]
  simp only [request, ask_bind, done_bind, pure_eq, run, Tree.answer_toggleState hn]
  split
  · rfl
  · rw [run, Tree.answer_toggle hn, Tree.advanced_one hn]
    rfl

theorem run_advanceTo_zero (hn : t.node h = .ok n) (state : ToggleState) :
    (advanceTo h state 0).run Tree.provider t =
      (.ok (if n.spec.toggleState = state then .success else .failure), t) := by
  rw [advanceTo]
  simp only [request, ask_bind, done_bind, pure_eq, run, Tree.answer_toggleState hn]

theorem run_advanceTo_reached (hn : t.node h = .ok n) {k : Nat} (hk : k ≤ steps)
    (hreached : n.spec.stateAfter k = state) (hbefore : ∀ j < k, n.spec.stateAfter j ≠ state) :
    (advanceTo h state steps).run Tree.provider t = (.ok .success, t.advanced h k) := by
  induction k generalizing t n steps with
  | zero =>
    have hthere : n.spec.toggleState = state := hreached
    cases steps with
    | zero =>
      rw [run_advanceTo_zero hn, if_pos hthere]
      rfl
    | succ steps =>
      rw [run_advanceTo_succ hn, if_pos hthere]
      rfl
  | succ k ih =>
    obtain ⟨steps, rfl⟩ : ∃ m, steps = m + 1 := ⟨steps - 1, by omega⟩
    have hnot : n.spec.toggleState ≠ state := hbefore 0 (Nat.succ_pos k)
    rw [run_advanceTo_succ hn, if_neg hnot, Tree.advanced_succ]
    refine ih (Tree.node_advanced_one hn) (by omega) ?_ fun j hj => ?_
    · exact (n.spec.stateAfter_next k).trans hreached
    · exact fun heq => hbefore (j + 1) (by omega) ((n.spec.stateAfter_next j).symm.trans heq)

theorem run_advanceTo_missed (hn : t.node h = .ok n)
    (hmissed : ∀ k ≤ steps, n.spec.stateAfter k ≠ state) :
    (advanceTo h state steps).run Tree.provider t = (.ok .failure, t.advanced h steps) := by
  have hnot : n.spec.toggleState ≠ state := hmissed 0 (Nat.zero_le _)
  induction steps generalizing t n with
  | zero =>
    rw [run_advanceTo_zero hn, if_neg hnot]
    rfl
  | succ steps ih =>
    rw [run_advanceTo_succ hn, if_neg hnot, Tree.advanced_succ]
    have hlater : ∀ k ≤ steps, (n.mapSpec fun s =>
        { s with toggle := some (s.toggleState.next s.threeState) }).spec.stateAfter k ≠ state :=
      fun k hk heq => hmissed (k + 1) (by omega) ((n.spec.stateAfter_next k).symm.trans heq)
    exact ih (Tree.node_advanced_one hn) hlater (hlater 0 (Nat.zero_le _))

/-! ### Writing a state -/

theorem run_writeToggle (hread : ToggleState.read? v = some state) :
    (writeToggle h v).run Tree.provider t = (advanceTo h state 3).run Tree.provider t := by
  rw [writeToggle, hread]

/-- A state that the toggle comes to is found within the three steps. -/
theorem run_writeToggle_comesTo (hn : t.node h = .ok n)
    (hread : ToggleState.read? v = some state) (hcomes : t.ComesTo h state) :
    (writeToggle h v).run Tree.provider t =
      (.ok .success, if n.spec.toggleState = state then t else t.withToggle h state) := by
  obtain ⟨steps, hstate⟩ := (Tree.comesTo_iff hn).mp hcomes
  obtain ⟨k, hk, hreached, hbefore⟩ := ElementSpec.exists_first_stateAfter hstate
  rw [run_writeToggle hread, run_advanceTo_reached hn (by omega) hreached hbefore]
  refine Prod.ext rfl ?_
  cases k with
  | zero =>
    have hthere : n.spec.toggleState = state := hreached
    rw [if_pos hthere]
    rfl
  | succ k =>
    have hnot : n.spec.toggleState ≠ state := hbefore 0 (Nat.succ_pos k)
    rw [if_neg hnot, Tree.advanced_eq_withToggle hn, hreached]

/-- A state that the toggle does not come to is looked for in vain, and the toggle is left where one
step leads. -/
theorem run_writeToggle_of_not_comesTo (hn : t.node h = .ok n)
    (hread : ToggleState.read? v = some state) (hnot : ¬ t.ComesTo h state) :
    (writeToggle h v).run Tree.provider t = (.ok .failure, t.advanced h 1) := by
  have hmissed := (Tree.not_comesTo_iff hn).mp hnot
  rw [run_writeToggle hread, run_advanceTo_missed hn fun k _ => hmissed k,
    Tree.advanced_eq_withToggle hn, Tree.advanced_one hn,
    (ElementSpec.stateAfter_of_missed hmissed).1]

theorem advanced_one_ne (hn : t.node h = .ok n) (hnot : ¬ t.ComesTo h state) :
    t.advanced h 1 ≠ t := by
  intro heq
  have hmissed := (Tree.not_comesTo_iff hn).mp hnot
  have hstate := Tree.toggleState_advanced hn 1
  rw [heq, Tree.answer_toggleState hn] at hstate
  exact (ElementSpec.stateAfter_of_missed hmissed).2 (Except.ok.inj hstate).symm

theorem answer_toggleState_found (hn : t.node h = .ok n)
    (hu : u = if n.spec.toggleState = state then t else t.withToggle h state) :
    Tree.provider.answer (.toggleState h) u = (.ok state, u) := by
  rw [hu]
  split
  · next hthere => rw [Tree.answer_toggleState hn, hthere]
  · rw [Tree.answer_toggleState (Tree.node_withToggle hn state)]
    rfl

/-- A toggle is written successfully exactly if the text names a state that the toggle is in or comes
to, and nothing but the state of the toggle changes then. The write fails otherwise. If the text names
no state then the tree stays as it was, but if it names one that the toggle does not come to then the
toggle is left one step further on. -/
theorem toggles_write (hn : t.node h = .ok n) (htoggle : n.supports .toggle = true) (v : String) :
    let result := (toggle.write h v).result Tree.provider t
    let u := (toggle.write h v).after Tree.provider t
    (result = .ok .success ↔ ∃ state, ToggleState.read? v = some state ∧ t.ComesTo h state) ∧
    (result ≠ .ok .success → result = .ok .failure) ∧
    (∀ state, ToggleState.read? v = some state → t.ComesTo h state →
      Tree.provider.answer (.toggleState h) u = (.ok state, u) ∧
        (u = t ∨ u = t.withToggle h state)) ∧
    (∀ state, ToggleState.read? v = some state → ¬ t.ComesTo h state →
      u = t.advanced h 1 ∧ u ≠ t) ∧
    (ToggleState.read? v = none → u = t) := by
  intro result u
  have hrun : (result, u) = (writeToggle h v).run Tree.provider t :=
    ValueAccess.run_write_applied (c := toggle) hn htoggle v
  cases hread : ToggleState.read? v with
  | none =>
    rw [writeToggle, hread] at hrun
    obtain ⟨hresult, hu⟩ := Prod.mk.inj hrun
    simp [hresult, hu]
  | some state =>
    simp only [Option.some.injEq, exists_eq_left', forall_eq', reduceCtorEq, false_implies, and_true]
    by_cases hcomes : t.ComesTo h state
    · rw [run_writeToggle_comesTo hn hread hcomes] at hrun
      obtain ⟨hresult, hu⟩ := Prod.mk.inj hrun
      refine ⟨iff_of_true hresult hcomes, fun hnot => absurd hresult hnot, fun _ => ?_,
        fun hnot => absurd hcomes hnot⟩
      refine ⟨answer_toggleState_found hn hu, ?_⟩
      rw [hu]
      exact ite_eq_or_eq _ _ _
    · rw [run_writeToggle_of_not_comesTo hn hread hcomes] at hrun
      obtain ⟨hresult, hu⟩ := Prod.mk.inj hrun
      exact ⟨iff_of_false (by simp [hresult]) hcomes, fun _ => hresult,
        fun hyes => absurd hyes hcomes, fun _ => ⟨hu, hu ▸ advanced_one_ne hn hcomes⟩⟩

/-- A box that can be mixed is brought from checked to mixed in one step. -/
theorem toggles_write_mixed :
    let t := Tree.initial.applyAll
      [.add Tree.root ((ElementSpec.ofControlType .checkBox).withToggle .on).asThreeState]
    let u := (toggle.write 1 " Mixed ").after Tree.provider t
    t.Reachable ∧ t.supports 1 .toggle = true ∧ ToggleState.read? " Mixed " = some .indeterminate ∧
      t.ComesTo 1 .indeterminate ∧
      (toggle.write 1 " Mixed ").result Tree.provider t = .ok .success ∧
      Tree.provider.answer (.toggleState 1) u = (.ok .indeterminate, u) := by
  intro t u
  have htoggle : t.supports 1 .toggle = true := by decide +kernel
  have hread : ToggleState.read? " Mixed " = some .indeterminate := by decide +kernel
  have hcomes : t.ComesTo 1 .indeterminate := ⟨1, by decide +kernel⟩
  obtain ⟨n, hn, hsupports⟩ := Tree.supports_iff.mp htoggle
  obtain ⟨hsuccess, -, hfound, -⟩ := toggles_write hn hsupports " Mixed "
  exact ⟨⟨_, rfl⟩, htoggle, hread, hcomes, hsuccess.mpr ⟨_, hread, hcomes⟩,
    (hfound _ hread hcomes).1⟩

/-- A box that cannot be mixed is asked to be. The write fails, and the box is checked afterwards. -/
theorem toggles_write_two_states :
    let t := Tree.initial.applyAll
      [.add Tree.root ((ElementSpec.ofControlType .checkBox).withToggle .off)]
    let u := (toggle.write 1 "Indeterminate").after Tree.provider t
    t.Reachable ∧ t.supports 1 .toggle = true ∧
      (toggle.write 1 "Indeterminate").result Tree.provider t = .ok .failure ∧
      (Tree.provider.answer (.toggleState 1) t).1 = .ok .off ∧
      (Tree.provider.answer (.toggleState 1) u).1 = .ok .on ∧ u ≠ t := by
  intro t u
  have hbefore : (Tree.provider.answer (.toggleState 1) t).1 = .ok .off := by decide +kernel
  have hafter : (Tree.provider.answer (.toggleState 1) u).1 = .ok .on := by decide +kernel
  refine ⟨⟨_, rfl⟩, by decide +kernel, by decide +kernel, hbefore, hafter, fun heq => ?_⟩
  rw [heq, hbefore] at hafter
  contradiction

end Capability

end ElementQuery
