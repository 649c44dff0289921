import ElementQuery.Proofs.Tree.Traversal
import Mathlib.Data.List.Find

/-!
# What a removal leaves

Removing an element takes it from the list of its parent and marks what is at and below it. The walk
that marks is a loop like the others, and it would stop halfway at an element that is marked already;
since nothing is listed twice it meets none, and it ends without a bound on its steps.

All other elements stay as they are. What is below them is listed as before with the removed elements
left out, wherever in the listing those were, and so a search that starts at an element that stays
finds the first match among what is left of the old listing.
-/

namespace ElementQuery.Tree

/-- The step of the walk that marks: it fails at an element that is not in the tree. -/
def markStep : Tree × List Handle → (Except Error Unit × Tree) ⊕ Tree × List Handle
  | (t, []) => .inl (.ok (), t)
  | (t, h :: stack) =>
    match t.node h with
    | .ok n => .inr (t.modify h fun n => { n with removed := true }, n.children.reverse ++ stack)
    | .error e => .inl (.error e, t)

variable {t s : Tree} {h x : Handle} {n m : Node}

theorem perform_markRemoved_succ (steps : Nat) (s : Tree × List Handle) :
    (Edit.markRemoved (steps + 1) s.2).perform s.1 =
      (markStep s).elim id fun s => (Edit.markRemoved steps s.2).perform s.1 := by
  obtain ⟨t, stack⟩ := s
  cases stack with
  | nil => rfl
  | cons h stack =>
    rw [Edit.markRemoved, Edit.perform_bind, Edit.perform_node, markStep]
    cases hn : t.node h with
    | error e => rfl
    | ok n =>
      simp only
      rw [Edit.perform_bind, Edit.perform_update, hn]
      rfl

theorem focused_pruned (t : Tree) (h : Handle) (n : Node) :
    (t.pruned h n).focused = t.focused := by
  rw [pruned]
  cases n.parent <;> rfl

/-- Leaving out an entry that contributes nothing does not show in what the entries contribute. -/
theorem flatMap_filter_bne {f g : Handle → List Handle} {l : List Handle} (hgone : g h = [])
    (hkept : ∀ c ∈ l, c ≠ h → f c = g c) :
    (l.filter fun c => c != h).flatMap f = l.flatMap g := by
  induction l with
  | nil => rfl
  | cons c l ih =>
    have hrest := ih fun d hd => hkept d (List.mem_cons_of_mem _ hd)
    rw [List.flatMap_cons, ← hrest]
    by_cases hc : c = h
    · rw [List.filter_cons_of_neg (by simp [hc]), hc, hgone, List.nil_append]
    · rw [List.filter_cons_of_pos (by simp [hc]), List.flatMap_cons, hkept c List.mem_cons_self hc]

namespace WellFormed

theorem ends_mark (ht : t.WellFormed) {stack : List Handle} (hstack : Unmarked t s stack) :
    Ends markStep (s, stack) (.ok (), s.marked (stack.flatMap t.subtree)) := by
  refine Ends.of_run (fun steps s => (Edit.markRemoved steps s.2).perform s.1)
    (fun s => Unmarked t s.1 s.2) (fun s => (s.2.flatMap t.subtree).length)
    perform_markRemoved_succ ?_ hstack fun steps hsteps =>
      Edit.perform_markRemoved ht hstack hsteps
  rintro ⟨s, stack⟩ s' hs hnext
  cases stack with
  | nil => contradiction
  | cons h stack =>
    obtain ⟨m, hm, hrest, hperm⟩ := hs.pop ht
    have hlength := hperm.length_eq
    rw [List.length_cons] at hlength
    rw [markStep, hm] at hnext
    obtain rfl := Sum.inr.inj hnext
    refine ⟨hrest, ?_⟩
    show ((m.children.reverse ++ stack).flatMap t.subtree).length <
      ((h :: stack).flatMap t.subtree).length
    omega

theorem isLive_pruned_iff (ht : t.WellFormed) (hn : t.node h = .ok n) :
    (t.pruned h n).isLive x = true ↔ t.isLive x = true ∧ x ∉ t.subtree h := by
  rw [isLive_iff, isLive_iff]
  constructor
  · rintro ⟨m, hm⟩
    obtain ⟨hx, m₀, hm₀, -⟩ := ht.node_pruned_cases hn hm
    exact ⟨⟨m₀, hm₀⟩, hx⟩
  · rintro ⟨⟨m, hm⟩, hx⟩
    exact ⟨_, ht.node_pruned_of_not_mem hn hx hm⟩

theorem childrenOf_pruned (ht : t.WellFormed) (hn : t.node h = .ok n) (hx : x ∉ t.subtree h) :
    (t.pruned h n).childrenOf x = (t.childrenOf x).filter fun c => c != h := by
  rw [childrenOf, childrenOf, ht.node_pruned hn, if_neg hx]
  cases t.node x <;> rfl

theorem satisfies_pruned (ht : t.WellFormed) (hn : t.node h = .ok n) (hx : x ∉ t.subtree h)
    (c : Condition) : (t.pruned h n).satisfies c x = t.satisfies c x := by
  rw [satisfies, satisfies, ht.node_pruned hn, if_neg hx]
  cases t.node x <;> rfl

theorem not_mem_subtree_of_child (ht : t.WellFormed) {c : Handle} (hx : x ∉ t.subtree h)
    (hc : c ∈ t.childrenOf x) (hne : c ≠ h) : c ∉ t.subtree h := by
  intro hmem
  rcases List.mem_cons.mp hmem with heq | hbelow
  · exact hne heq
  · obtain ⟨p, hp, hpc⟩ := ht.exists_parent hbelow
    exact hx (ht.parent_unique hc hpc ▸ hp)

theorem descendants_pruned (ht : t.WellFormed) (hn : t.node h = .ok n) (hx : x ∉ t.subtree h) :
    (t.pruned h n).descendants x = (t.descendants x).filter fun y => y ∉ t.subtree h := by
  induction x using ht.induction with
  | step x ih =>
    rw [(ht.pruned hn).descendants_eq, ht.childrenOf_pruned hn hx, ht.descendants_eq,
      List.filter_flatMap]
    apply flatMap_filter_bne
    · simp [List.filter_eq_nil_iff]
    · intro c hc hne
      have hstays := ht.not_mem_subtree_of_child hx hc hne
      show c :: (t.pruned h n).descendants c =
        (c :: t.descendants c).filter fun y => y ∉ t.subtree h
      rw [ih c hc hstays, List.filter_cons_of_pos (by simpa using hstays)]

end WellFormed

/-- Holds of a tree before and after an element was removed with everything below it. -/
structure Removed (t : Tree) (h : Handle) (u : Tree) : Prop where
  live : ∀ x, u.isLive x = true ↔ t.isLive x = true ∧ x ∉ t.subtree h
  kept : ∀ x m, t.node x = .ok m → x ∉ t.subtree h →
    u.node x = .ok { m with children := m.children.filter fun c => c != h }
  elsewhere : ∀ x m, t.node x = .ok m → x ∉ t.subtree h → h ∉ m.children → u.node x = .ok m
  focused : u.focused = t.focused
  descendants : ∀ x, x ∉ t.subtree h →
    u.descendants x = (t.descendants x).filter fun y => y ∉ t.subtree h
  found : ∀ x c, u.isLive x = true → provider.answer (.findFirst x .descendants c) u =
    (.ok (((t.descendants x).filter fun y => y ∉ t.subtree h).find? (t.satisfies c)), u)

theorem WellFormed.removed_pruned (ht : t.WellFormed) (hn : t.node h = .ok n) :
    Removed t h (t.pruned h n) where
  live := fun x => ht.isLive_pruned_iff hn
  kept := fun x m hm hx => ht.node_pruned_of_not_mem hn hx hm
  elsewhere := by
    intro x m hm hx hmem
    rw [ht.node_pruned_of_not_mem hn hx hm, Node.dropChild, List.filter_eq_self.mpr]
    intro c hc
    rw [bne_iff_ne]
    exact fun heq => hmem (heq ▸ hc)
  focused := focused_pruned t h n
  descendants := fun x hx => ht.descendants_pruned hn hx
  found := by
    intro x c hlive
    obtain ⟨m, hm⟩ := isLive_iff.mp hlive
    have hx := ((ht.isLive_pruned_iff hn).mp hlive).2
    rw [Dialogue.answer_findFirst, (ht.pruned hn).findFirst_eq hm, scopeList,
      ht.descendants_pruned hn hx]
    refine congrArg (fun found => (Except.ok found, _)) (List.find?_congr fun y hy => ?_)
    exact ht.satisfies_pruned hn (by simpa using (List.mem_filter.mp hy).2) c

/--
An element that is in the tree can be removed, the root included. What was at and below it is not in
the tree any more; everything else is, unchanged but for the list of the parent, which has lost the
element and is in the same order.
-/
theorem removed_apply_remove (ht : t.Reachable) (hlive : t.isLive h = true) :
    (Operation.remove h).result t = .ok () ∧ Removed t h ((Operation.remove h).apply t) ∧
    ∃ n, t.node h = .ok n ∧
      Ends markStep (t.unlink h n.parent, [h]) (.ok (), (Operation.remove h).apply t) := by
  have hwf := ht.wellFormed
  obtain ⟨n, hn⟩ := isLive_iff.mp hlive
  have hperform : (Operation.remove h).edit.perform t = (.ok (), t.pruned h n) :=
    Edit.perform_remove hwf hn
  rw [Operation.result, Operation.apply, hperform]
  refine ⟨rfl, hwf.removed_pruned hn, n, hn, ?_⟩
  have hends := hwf.ends_mark (hwf.unmarked_unlink hn)
  rwa [List.flatMap_singleton] at hends

/-- Of two fields of one name the first is removed with the pane around it: the second is found then,
with the text that was typed into it. -/
theorem removed_apply_remove_pane :
    let field := (ElementSpec.ofControlType .edit).withName "User"
    let t := initial.applyAll
      [.add root (.ofControlType .window), .add 1 (.ofControlType .pane), .add 2 field, .add 1 field,
        .request (.setFocus 4), .request (.sendKeys 4 "Ann")]
    let u := (Operation.remove 2).apply t
    t.Reachable ∧ t.isLive 2 = true ∧ (Operation.remove 2).result t = .ok () ∧
      u.isLive 3 = false ∧ (u.node 4).map Node.typed = .ok ["Ann"] ∧
      (provider.answer (.findFirst 1 .descendants (.property .name (.text "User"))) t).1 =
        .ok (some 3) ∧
      (provider.answer (.findFirst 1 .descendants (.property .name (.text "User"))) u).1 =
        .ok (some 4) := by
  intro field t u
  have hreachable : t.Reachable := ⟨_, rfl⟩
  have hlive : t.isLive 2 = true := by decide +kernel
  obtain ⟨hresult, hremoved, -⟩ := removed_apply_remove hreachable hlive
  have hgone : u.isLive 3 = false := by
    rw [← Bool.not_eq_true, hremoved.live]
    decide +kernel
  refine ⟨hreachable, hlive, hresult, hgone, by decide +kernel, by decide +kernel, ?_⟩
  rw [hremoved.found 1 _ ((hremoved.live 1).mpr (by decide +kernel))]
  decide +kernel

end ElementQuery.Tree
