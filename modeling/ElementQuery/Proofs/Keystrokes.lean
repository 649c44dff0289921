import ElementQuery.Proofs.Effect
import ElementQuery.Proofs.Tree.Keystrokes

/-!
# Keystrokes of operations and writes

While a tree is operated on, texts are written to its elements. A write is a dialogue, and what it
does to the tree is what its requests do, one after the other; so a run of operations and writes is a
run of operations as well, in which each write stands for the requests that it makes. What is typed in
such a run is typed by requests, whether they were made directly or by a write. A write types its text
once, into the element that is written, if it succeeds and the element has no other capability that
can be written; and if not, it types nothing.
-/

namespace ElementQuery

namespace Dialogue

variable {α : Type}

/-- The requests that a dialogue makes of a tree, as operations on the tree. -/
def operations (d : Dialogue α) (t : Tree) : List Tree.Operation :=
  (d.calls Tree.provider t).map fun call => .request call.request

theorem applyAll_operations (d : Dialogue α) (t : Tree) :
    t.applyAll (d.operations t) = d.after Tree.provider t := by
  rw [operations, after]
  induction d generalizing t with
  | done a => rfl
  | fail e => rfl
  | ask r next ih =>
    rw [calls, run]
    have happly : (Tree.Operation.request r).apply t = (Tree.provider.answer r t).2 := rfl
    revert happly
    rcases Tree.provider.answer r t with ⟨e | answer, s⟩
    · exact id
    · intro happly
      rw [List.map_cons, Tree.applyAll, List.foldl_cons, happly]
      exact ih answer s

end Dialogue

/-! ### What a write types -/

theorem Capability.Effect.sameKeyboard {c : Capability} {t u : Tree} {h : Handle} {v : String}
    (heffect : c.Effect t h v u) (hc : c ≠ .structural) : Tree.SameKeyboard u t := by
  cases c with
  | value | legacyAccessible =>
    rw [show u = _ from heffect]
    exact Tree.sameKeyboard_modify t h fun _ => rfl
  | rangeValue =>
    obtain ⟨number, -, rfl⟩ := heffect
    exact Tree.sameKeyboard_modify t h fun _ => rfl
  | selection | selectionItem =>
    have honly : t.SelectionOnly u := heffect
    exact (honly.agree.map Node.typed).sameKeyboard honly.focused
  | text | toggle => exact heffect.elim
  | structural => exact absurd rfl hc

namespace ValueAccess

open Dialogue

variable {t : Tree} {h : Handle} {n : Node}

/-- Whether a write succeeds by typing. -/
def types (t : Tree) (h : Handle) (v : String) : Bool :=
  match t.node h with
  | .ok n => writer n = .structural && (write h v).result Tree.provider t = .ok .success
  | .error _ => false

/-- A write that succeeds by typing adds its text to those of the element, and no other write adds to
the texts of any element. -/
theorem typedAt_write (ht : t.WellFormed) (h : Handle) (v : String) (x : Handle) :
    ((write h v).after Tree.provider t).typedAt x =
      t.typedAt x ++ if types t h v = true ∧ h = x then [v] else [] := by
  cases hn : t.node h with
  | error e =>
    rw [after, run_write_error hn, types, hn, if_neg (fun htypes => Bool.false_ne_true htypes.1),
      List.append_nil]
  | ok n =>
    obtain ⟨htext, htoggle⟩ := writer_writable n
    rw [types, hn, result, after, run_write_eq ht hn]
    rcases Capability.settles_writeApplied ht hn htext htoggle v with ⟨u, hsuccess⟩ | hfailure
    · have heffect := effect_writeApplied ht hn (writer_applies n) htext htoggle hsuccess
      rw [hsuccess]
      by_cases hwriter : writer n = .structural
      · rw [hwriter] at heffect
        have hfocused : ({ t with focused := some h } : Tree).node h = .ok n := hn
        rw [show u = _ from heffect, Tree.typedAt_modify_typed hfocused]
        simp only [hwriter, decide_true, Bool.and_self, true_and]
        rfl
      · rw [(heffect.sameKeyboard hwriter).typed]
        simp [hwriter]
    · rw [hfailure]
      simp

theorem keystrokesAll_write (ht : t.WellFormed) (h : Handle) (v : String) (x : Handle) :
    t.keystrokesAll x ((write h v).operations t) =
      if types t h v = true ∧ h = x then [v] else [] := by
  have hrun := Tree.typedAt_applyAll ht ((write h v).operations t) x
  rw [applyAll_operations, typedAt_write ht] at hrun
  exact (List.append_cancel_left hrun).symm

end ValueAccess

/-! ### Runs of operations and writes -/

/-- An operation on a tree, or the writing of a text to one of its elements. -/
inductive Step where
  | operation (o : Tree.Operation)
  | write (h : Handle) (v : String)

namespace Step

def apply (t : Tree) : Step → Tree
  | .operation o => o.apply t
  | .write h v => (ValueAccess.write h v).after Tree.provider t

def applyAll (t : Tree) (steps : List Step) : Tree :=
  steps.foldl apply t

def operations (t : Tree) : Step → List Tree.Operation
  | .operation o => [o]
  | .write h v => (ValueAccess.write h v).operations t

def operationsAll (t : Tree) : List Step → List Tree.Operation
  | [] => []
  | step :: steps => step.operations t ++ operationsAll (step.apply t) steps

theorem applyAll_operations (t : Tree) (step : Step) :
    t.applyAll (step.operations t) = step.apply t := by
  cases step with
  | operation o => rfl
  | write h v => exact Dialogue.applyAll_operations _ t

/-- What a run does to a tree is what the operations do that it stands for. -/
theorem applyAll_operationsAll (t : Tree) (steps : List Step) :
    t.applyAll (operationsAll t steps) = applyAll t steps := by
  induction steps generalizing t with
  | nil => rfl
  | cons step steps ih =>
    rw [operationsAll, Tree.applyAll_append, applyAll_operations]
    exact ih (step.apply t)

end Step

/--
Operations and writes are made on the initial tree in any order. Whatever is in the tree then has the
texts that were sent to it with success, in their order, counted from the beginning of the run or from
the operation that added the element. Each of them was sent while the element was in the tree and was
the last that had been given the focus. A write sends its text once, if it succeeds by typing.
-/
theorem typed_of_steps (steps : List Step) :
    let t := Step.applyAll .initial steps
    let os := Step.operationsAll .initial steps
    Tree.initial.applyAll os = t ∧
    (∀ e n, t.node e = .ok n → n.typed = Tree.initial.keystrokesAll e os) ∧
    (∀ before o after e n, os = before ++ o :: after → e ∈ o.added (Tree.initial.applyAll before) →
      t.node e = .ok n →
      n.typed = (Tree.initial.applyAll (before ++ [o])).keystrokesAll e after) ∧
    (∀ before e text after, os = before ++ .request (.sendKeys e text) :: after →
      (Tree.Operation.request (.sendKeys e text)).result (Tree.initial.applyAll before) = .ok () →
      (Tree.initial.applyAll before).isLive e = true ∧ Tree.initial.LastFocused e before) ∧
    ∀ before h v after e, steps = before ++ .write h v :: after →
      let u := Step.applyAll .initial before
      u.keystrokesAll e ((Step.write h v).operations u) =
        if ValueAccess.types u h v = true ∧ h = e then [v] else [] := by
  intro t os
  have hrun : Tree.initial.applyAll os = t := Step.applyAll_operationsAll _ steps
  have hwf := Tree.wellFormed_initial
  refine ⟨hrun, fun e n hn => ?_, ?_, ?_, ?_⟩
  · rw [← Tree.typedAt_eq hn, ← hrun, Tree.typedAt_applyAll hwf, Tree.typedAt_initial,
      List.nil_append]
  · intro before o after e n hos hadded hn
    rw [← Tree.typedAt_eq hn, ← hrun, hos]
    exact Tree.typedAt_of_added hwf hadded
  · intro before e text after _ hresult
    exact Tree.lastFocused_of_sendKeys hresult
  · intro before h v after e _ u
    have hu : u.WellFormed := by
      rw [show u = _ from (Step.applyAll_operationsAll _ before).symm]
      exact hwf.applyAll _
    exact ValueAccess.keystrokesAll_write hu h v e

/-- A name is written to a plain field, a text is sent to another field that does not have the focus,
and that field, which has a value, is written too. The focus is still with the first field then. -/
theorem typed_of_steps_form :
    let name := Step.write 1 "Ann"
    let form : List Step :=
      [.operation (.add Tree.root (.ofControlType .edit)),
        .operation (.add Tree.root ((ElementSpec.ofControlType .edit).withValue ""))]
    let steps := form ++ name ::
      [.operation (.request (.sendKeys 2 "lost")), .write 2 "Bob",
        .operation (.request (.sendKeys 1 "!"))]
    let t := Step.applyAll .initial steps
    let u := Step.applyAll .initial form
    (t.node 1).map Node.typed = .ok ["Ann", "!"] ∧ (t.node 2).map Node.typed = .ok [] ∧
      Tree.initial.keystrokesAll 1 (Step.operationsAll .initial steps) = ["Ann", "!"] ∧
      Tree.initial.keystrokesAll 2 (Step.operationsAll .initial steps) = [] ∧
      u.keystrokesAll 1 (name.operations u) = ["Ann"] := by
  intro name form steps t u
  obtain ⟨-, htyped, -, -, hwrite⟩ := typed_of_steps steps
  have hfirst : (t.node 1).map Node.typed = .ok ["Ann", "!"] := by decide +kernel
  have hsecond : (t.node 2).map Node.typed = .ok [] := by decide +kernel
  obtain ⟨n, hn, hn'⟩ := Tree.node_map_eq_ok_iff.mp hfirst
  obtain ⟨m, hm, hm'⟩ := Tree.node_map_eq_ok_iff.mp hsecond
  have htypes : ValueAccess.types u 1 "Ann" = true := by decide +kernel
  refine ⟨hfirst, hsecond, (htyped 1 n hn).symm.trans hn', (htyped 2 m hm).symm.trans hm', ?_⟩
  rw [hwrite form 1 "Ann" _ 1 rfl, if_pos ⟨htypes, rfl⟩]

end ElementQuery
