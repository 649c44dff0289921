import ElementQuery.Proofs.Tree.Descendants
import ElementQuery.Proofs.Tree.Exclusive
import ElementQuery.Proofs.Tree.Reachable

/-!
# Walks that end

A walk is given as many steps as the tree has elements. Without that bound it is a loop, which takes
one element after the other from a stack and puts the children of the element there, and whether such
a loop ends depends on the tree: where an element is below itself it goes round for ever, and a bound
only hides that. In a well-formed tree every step takes away the first element of the list that the
stack stands for, so the loops end without a bound, with the results of the bounded walks.

So a search takes the first element of its scope that meets the condition, and the selected items of
an element are those of its descendants in the order in which they are listed.
-/

namespace ElementQuery

/-- Holds of a loop that comes, step by step, from a state to a result. -/
inductive Ends {σ ρ : Type} (step : σ → ρ ⊕ σ) : σ → ρ → Prop where
  | last {s : σ} {r : ρ} (hstep : step s = .inl r) : Ends step s r
  | next {s s' : σ} {r : ρ} (hstep : step s = .inr s') (hends : Ends step s' r) : Ends step s r

namespace Ends

variable {σ ρ : Type} {step : σ → ρ ⊕ σ} {s : σ} {r : ρ}

theorem exists_of_measure {inv : σ → Prop} (measure : σ → Nat)
    (hstep : ∀ s s', inv s → step s = .inr s' → inv s' ∧ measure s' < measure s) (hs : inv s) :
    ∃ r, Ends step s r := by
  induction hbound : measure s using Nat.strongRecOn generalizing s with
  | _ bound ih =>
    cases hnext : step s with
    | inl r => exact ⟨r, .last hnext⟩
    | inr s' =>
      obtain ⟨hs', hlt⟩ := hstep s s' hs hnext
      obtain ⟨r, hends⟩ := ih (measure s') (by omega) hs' rfl
      exact ⟨r, .next hnext hends⟩

theorem exists_run_eq {run : Nat → σ → ρ}
    (hrun : ∀ steps s, run (steps + 1) s = (step s).elim id (run steps)) (hends : Ends step s r) :
    ∃ bound, ∀ steps, bound ≤ steps → run steps s = r := by
  induction hends with
  | last hstep =>
    refine ⟨1, fun steps hsteps => ?_⟩
    obtain ⟨steps, rfl⟩ : ∃ k, steps = k + 1 := ⟨steps - 1, by omega⟩
    rw [hrun, hstep]
    rfl
  | next hstep _ ih =>
    obtain ⟨bound, hbound⟩ := ih
    refine ⟨bound + 1, fun steps hsteps => ?_⟩
    obtain ⟨steps, rfl⟩ : ∃ k, steps = k + 1 := ⟨steps - 1, by omega⟩
    rw [hrun, hstep]
    exact hbound steps (by omega)

/-- A loop whose steps shrink something ends with the result that its bounded runs have from some
bound on. -/
theorem of_run (run : Nat → σ → ρ) (inv : σ → Prop) (measure : σ → Nat)
    (hrun : ∀ steps s, run (steps + 1) s = (step s).elim id (run steps))
    (hstep : ∀ s s', inv s → step s = .inr s' → inv s' ∧ measure s' < measure s) (hs : inv s)
    {bound : Nat} (hresult : ∀ steps, bound ≤ steps → run steps s = r) : Ends step s r := by
  obtain ⟨r', hends⟩ := exists_of_measure measure hstep hs
  obtain ⟨bound', hbound'⟩ := exists_run_eq hrun hends
  have heq : r' = r := by
    rw [← hbound' (max bound bound') (Nat.le_max_right _ _)]
    exact hresult _ (Nat.le_max_left _ _)
  exact heq ▸ hends

end Ends

namespace Tree

/-- The step of a search: it ends at an element that meets the condition, and else goes on with the
children of the element before what is still on the stack. -/
def searchStep (t : Tree) (c : Condition) :
    List Handle → Except Error (Option Handle) ⊕ List Handle
  | [] => .inl (.ok none)
  | h :: stack =>
    if t.satisfies c h then .inl (.ok (some h))
    else
      match t.node h with
      | .ok n => .inr (n.children ++ stack)
      | .error e => .inl (.error e)

def collectStep (t : Tree) : List Handle × List Handle → List Handle ⊕ List Handle × List Handle
  | (items, []) => .inl items
  | (items, h :: stack) =>
    match t.node h with
    | .ok n =>
      .inr (if n.spec.patterns.contains .selectionItem then items ++ [h] else items,
        n.children ++ stack)
    | .error _ => .inr (items, stack)

variable {t : Tree} {h start : Handle} {n : Node} {stack : List Handle}

theorem searchFirst_succ (c : Condition) (steps : Nat) (stack : List Handle) :
    t.searchFirst c (steps + 1) stack = (t.searchStep c stack).elim id (t.searchFirst c steps) := by
  cases stack with
  | nil => rfl
  | cons h stack =>
    rw [searchFirst, searchStep]
    split
    · rfl
    · cases t.node h <;> rfl

theorem collectItems_succ (steps : Nat) (s : List Handle × List Handle) :
    s.1 ++ t.collectItems (steps + 1) s.2 =
      (t.collectStep s).elim id fun s => s.1 ++ t.collectItems steps s.2 := by
  obtain ⟨items, stack⟩ := s
  cases stack with
  | nil => exact List.append_nil items
  | cons h stack =>
    rw [collectItems, collectStep]
    cases t.node h with
    | error e => rfl
    | ok n =>
      simp only
      split
      · exact List.append_cons items h _
      · rfl

namespace WellFormed

theorem ends_search (ht : t.WellFormed) (c : Condition)
    (hstack : ∀ x ∈ stack, ∃ n, t.node x = .ok n) :
    Ends (t.searchStep c) stack (.ok ((stack.flatMap t.subtree).find? (t.satisfies c))) := by
  refine Ends.of_run (t.searchFirst c) (fun stack => ∀ x ∈ stack, ∃ n, t.node x = .ok n)
    (fun stack => (stack.flatMap t.subtree).length) (searchFirst_succ c) ?_ hstack
    fun steps hsteps => ht.searchFirst_eq c hstack hsteps
  intro s s' hs hnext
  cases s with
  | nil => contradiction
  | cons h stack =>
    obtain ⟨n, hn⟩ := hs h List.mem_cons_self
    rw [searchStep, hn] at hnext
    split at hnext
    · contradiction
    · obtain rfl := Sum.inr.inj hnext
      obtain ⟨hrest, hlist⟩ := ht.pop hs hn
      exact ⟨hrest, by simp [hlist]⟩

theorem ends_collect (ht : t.WellFormed) (hstack : ∀ x ∈ stack, ∃ n, t.node x = .ok n) :
    Ends t.collectStep ([], stack)
      ((stack.flatMap t.subtree).filter fun x => t.supports x .selectionItem) := by
  refine Ends.of_run (fun steps s => s.1 ++ t.collectItems steps s.2)
    (fun s => ∀ x ∈ s.2, ∃ n, t.node x = .ok n) (fun s => (s.2.flatMap t.subtree).length)
    collectItems_succ ?_ hstack
    fun steps hsteps => ht.collectItems_eq hstack hsteps
  rintro ⟨items, stack⟩ s' hs hnext
  cases stack with
  | nil => contradiction
  | cons h stack =>
    obtain ⟨n, hn⟩ := hs h List.mem_cons_self
    rw [collectStep, hn] at hnext
    obtain rfl := Sum.inr.inj hnext
    obtain ⟨hrest, hlist⟩ := ht.pop hs hn
    exact ⟨hrest, by simp [hlist]⟩

theorem mem_childrenOf_iff (ht : t.WellFormed) {c : Handle} :
    c ∈ t.childrenOf h ↔ ∃ n, t.node c = .ok n ∧ n.parent = some h := by
  refine ⟨ht.node_of_mem, ?_⟩
  rintro ⟨n, hn, hparent⟩
  exact (ht.node_parent hn hparent).2

theorem selectedItems_eq (ht : t.WellFormed) (hn : t.node h = .ok n) :
    t.selectedItems h =
      .ok ((t.descendants h).filter fun x => t.isSelected x && t.supports x .selectionItem) := by
  rw [selectedItems, hn]
  show Except.ok ((t.selectionItems h).filter t.isSelected) = _
  rw [ht.selectionItems_eq, List.filter_filter]

end WellFormed

/--
Searches take the first element of their scope that meets the condition, and the selected items of an
element are listed in the order of its descendants. The children of an element are all elements that
have it as parent, in the order of addition, and the descendants are listed child by child, each child
before its own descendants. The walks behind the answers end without a bound on their steps.
-/
theorem answers_in_preorder (ht : t.Reachable) (hlive : t.isLive start = true) :
    (∀ scope c, provider.answer (.findFirst start scope c) t =
      (.ok ((t.scopeList start scope).find? (t.satisfies c)), t)) ∧
    provider.answer (.selectedItems start) t =
      (.ok ((t.descendants start).filter fun x =>
        t.isSelected x && t.supports x .selectionItem), t) ∧
    (∀ h, (∀ c, c ∈ t.childrenOf h ↔ ∃ n, t.node c = .ok n ∧ n.parent = some h) ∧
      (t.childrenOf h).Pairwise (· < ·) ∧ (t.descendants h).Nodup ∧
      t.descendants h = (t.childrenOf h).flatMap fun c => c :: t.descendants c) ∧
    (∀ c, Ends (t.searchStep c) (t.childrenOf start)
      (.ok ((t.descendants start).find? (t.satisfies c)))) ∧
    Ends t.collectStep ([], t.childrenOf start)
      ((t.descendants start).filter fun x => t.supports x .selectionItem) := by
  have hwf := ht.wellFormed
  obtain ⟨n, hn⟩ := isLive_iff.mp hlive
  have hchildren := hwf.node_of_mem_childrenOf (h := start)
  refine ⟨fun scope c => ?_, ?_, fun h => ?_, fun c => ?_, ?_⟩
  · rw [Dialogue.answer_findFirst, hwf.findFirst_eq hn]
  · rw [Dialogue.answer_selectedItems, hwf.selectedItems_eq hn]
  · exact ⟨fun c => hwf.mem_childrenOf_iff, hwf.childrenOf_sorted h, hwf.nodup_descendants h,
      hwf.descendants_eq h⟩
  · rw [hwf.descendants_eq]
    exact hwf.ends_search c hchildren
  · rw [hwf.descendants_eq]
    exact hwf.ends_collect hchildren

/-- A list inside a list: of two elements of one name the one that comes first in the walk is found,
though it was added later. -/
theorem answers_in_preorder_nested :
    let item := fun name => ((ElementSpec.ofControlType .listItem).withName name).withSelectionItem true
    let t := initial.applyAll
      [.add root (.ofControlType .list), .add 1 (.ofControlType .group), .add 1 (item "Red"),
        .add 2 (item "Blue"), .add 2 (item "Red"), .remove 4]
    let red : Condition :=
      .all [.property .name (.text "Red"), .all [.property .isEnabled (.boolean true), .always]]
    t.Reachable ∧ t.isLive 1 = true ∧
      (provider.answer (.findFirst 1 .descendants red) t).1 = .ok (some 5) ∧
      (provider.answer (.findFirst 1 .children red) t).1 = .ok (some 3) ∧
      (provider.answer (.selectedItems 1) t).1 = .ok [5, 3] := by
  intro item t red
  have hreachable : t.Reachable := ⟨_, rfl⟩
  have hlive : t.isLive 1 = true := by decide +kernel
  obtain ⟨hfind, hselected, -⟩ := answers_in_preorder hreachable hlive
  refine ⟨hreachable, hlive, ?_, ?_, ?_⟩
  · rw [hfind]
    decide +kernel
  · rw [hfind]
    decide +kernel
  · rw [hselected]
    decide +kernel

end Tree

end ElementQuery
