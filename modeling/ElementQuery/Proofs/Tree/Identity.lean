import ElementQuery.Proofs.Tree.Failure
import ElementQuery.Proofs.Tree.GridHistory

/-!
# The identity of handles

A handle means one element for ever. The operations that add elements hand out the next free numbers,
and since no entry ever leaves the array of a tree, no number becomes free again: the root and the
handles that a run hands out are the numbers below the size of the tree that it leaves, each of them
once. An entry keeps the parent that it was added with. It may be marked as removed, by the removal
of the element itself or of one above it, but a mark is never taken back. So a stale handle stays
stale, and whatever is asked of its element is refused. A tree has room for every element that is
added, also for the cells of a grid with a huge number of rows or columns: the limits of memory and
of its allocation are no part of it.
-/

namespace ElementQuery.Tree

variable {s t : Tree} {h p x : Handle} {n : Node}

/-! ### What an operation does to the places of elements -/

/-- The handles of the elements that an operation adds. Adding headers does not answer with them, but
they are the headers that the element has afterwards. -/
def Operation.added (t : Tree) : Operation → List Handle
  | .add parent spec =>
    match (Operation.add parent spec).result t with
    | .ok h => [h]
    | .error _ => []
  | .addGrid h rows columns =>
    match (Operation.addGrid h rows columns).result t with
    | .ok cells => cells.flatten
    | .error _ => []
  | .addTableHeaders h rowNames columnNames =>
    match (Operation.addTableHeaders h rowNames columnNames).result t with
    | .ok () =>
      let g := ((Operation.addTableHeaders h rowNames columnNames).apply t).gridAt h
      g.rowHeaders ++ g.columnHeaders
    | .error _ => []
  | _ => []

def addedAll (t : Tree) : List Operation → List Handle
  | [] => []
  | o :: os => o.added t ++ addedAll (o.apply t) os

theorem Operation.added_of_error {o : Operation} {e : Error} (hresult : o.result t = .error e) :
    o.added t = [] := by
  cases o with
  | add | addGrid | addTableHeaders => simp only [added, hresult]
  | remove | setProperty | request => rfl

/-- As far as places go, an operation does nothing, adds elements below one, or removes one with what
is below it. -/
theorem Operation.apply_cases (ht : t.WellFormed) (o : Operation) :
    (Agree Node.place (o.apply t) t ∧ o.added t = []) ∨
      (∃ p n specs, t.node p = .ok n ∧ Agree Node.place (o.apply t) (t.growAll p specs) ∧
        o.added t = List.range' t.nodes.size specs.length) ∨
      ∃ h n, o = .remove h ∧ t.node h = .ok n ∧ (Operation.remove h).result t = .ok () ∧
        o.apply t = t.pruned h n := by
  have heffect := o.effect ht
  generalize o.apply t = s at heffect ⊢
  cases heffect with
  | failed hresult => exact .inl ⟨Agree.refl t, added_of_error hresult⟩
  | add hp hresult =>
    refine .inr (.inl ⟨_, _, [_], hp, Agree.refl _, ?_⟩)
    simp only [added, hresult, List.length_singleton, List.range'_one]
  | remove hn hresult => exact .inr (.inr ⟨_, _, rfl, hn, hresult, rfl⟩)
  | setProperty hshape | request hshape => exact .inl ⟨hshape.map Prod.fst, rfl⟩
  | addGrid hn hresult _ hflatten =>
    refine .inr (.inl ⟨_, _, _, hn, Agree.modify _ _ fun _ => rfl, ?_⟩)
    simp only [added, hresult, hflatten]
  | @addTableHeaders h rowNames columnNames n hn hresult =>
    refine .inr (.inl ⟨_, _, _, hn, Agree.modify _ _ fun _ => rfl, ?_⟩)
    have hgrid := (gridAt_addTableHeaders hn rowNames columnNames h).2
    rw [if_pos rfl] at hgrid
    simp only [added, hresult, hgrid, List.range'_append_1, List.length_append, List.length_map]

/-! ### Every number is handed out once -/

theorem range_append_added (ht : t.WellFormed) (o : Operation) :
    List.range t.nodes.size ++ o.added t = List.range (o.apply t).nodes.size := by
  rcases o.apply_cases ht with ⟨hsame, hadded⟩ | ⟨p, n, specs, -, hgrown, hadded⟩ |
    ⟨h, n, rfl, -, -, hpruned⟩
  · rw [hadded, hsame.size_eq, List.append_nil]
  · rw [hadded, hgrown.size_eq, size_growAll, List.range_eq_range', List.range_eq_range',
      ← List.range'_append_1, Nat.zero_add]
  · rw [hpruned, (agree_pruned t h n).size_eq]
    exact List.append_nil _

theorem range_append_addedAll (ht : t.WellFormed) (os : List Operation) :
    List.range t.nodes.size ++ t.addedAll os = List.range (t.applyAll os).nodes.size := by
  induction os generalizing t with
  | nil => exact List.append_nil _
  | cons o os ih =>
    rw [addedAll, ← List.append_assoc, range_append_added ht]
    exact ih (ht.apply o)

/-! ### Parents stay -/

/-- Holds if every entry of a tree is one of another tree too and has the same parent there. -/
def KeepsParents (s t : Tree) : Prop :=
  ∀ (h : Handle) (n : Node), s.nodes[h]? = some n →
    ∃ m, t.nodes[h]? = some m ∧ m.parent = n.parent

theorem Agree.keepsParents (hst : Agree Node.parent s t) : KeepsParents s t :=
  fun _ _ hn => hst.getElem? hn

theorem KeepsParents.trans {u : Tree} (hst : KeepsParents s t) (htu : KeepsParents t u) :
    KeepsParents s u := by
  intro h n hn
  obtain ⟨m, hm, hparent⟩ := hst h n hn
  obtain ⟨k, hk, hparent'⟩ := htu h m hm
  exact ⟨k, hk, hparent'.trans hparent⟩

theorem keepsParents_growAll (hp : t.node p = .ok n) (specs : List ElementSpec) :
    KeepsParents t (t.growAll p specs) := by
  intro h m hm
  obtain ⟨children, hm'⟩ := exists_getElem?_growAll hp specs hm
  exact ⟨_, hm', rfl⟩

theorem keepsParents_apply (ht : t.WellFormed) (o : Operation) : KeepsParents t (o.apply t) := by
  rcases o.apply_cases ht with ⟨hsame, -⟩ | ⟨p, n, specs, hp, hgrown, -⟩ | ⟨h, n, -, -, -, hpruned⟩
  · exact (hsame.map Place.parent).symm.keepsParents
  · exact (keepsParents_growAll hp specs).trans (hgrown.map Place.parent).symm.keepsParents
  · rw [hpruned]
    exact ((agree_pruned t h n).map Prod.fst).symm.keepsParents

theorem keepsParents_applyAll (ht : t.WellFormed) (os : List Operation) :
    KeepsParents t (t.applyAll os) := by
  induction os generalizing t with
  | nil => exact fun _ n hn => ⟨n, hn, rfl⟩
  | cons o os ih => exact (keepsParents_apply ht o).trans (ih (ht.apply o))

/-- Holds of an element and of those above it: going from `h` to its parent, and on to the parent of
that, leads to `x`. -/
inductive Above (t : Tree) (x : Handle) : Handle → Prop
  | refl : Above t x x
  | step {h p : Handle} {n : Node} (hn : t.nodes[h]? = some n) (hparent : n.parent = some p)
      (hp : Above t x p) : Above t x h

theorem Above.mono (habove : s.Above x h) (hst : KeepsParents s t) : t.Above x h := by
  induction habove with
  | refl => exact .refl
  | step hn hparent _ ih =>
    obtain ⟨m, hm, hsame⟩ := hst _ _ hn
    exact .step hm (hsame.trans hparent) ih

theorem WellFormed.above_of_mem_subtree {t : Tree} {x h : Nat} (ht : t.WellFormed)
    (hh : h ∈ t.subtree x) : t.Above x h := by
  induction h using Nat.strongRecOn with
  | _ h ih =>
    rcases List.mem_cons.mp hh with rfl | hbelow
    · exact .refl
    · obtain ⟨p, hp, hchild⟩ := ht.exists_parent hbelow
      obtain ⟨n, hn, hparent⟩ := ht.node_of_mem hchild
      exact .step (node_eq_ok_iff.mp hn).1 hparent (ih p (ht.lt_of_mem hchild) hp)

/-! ### Stale handles -/

/-- Holds of the handle of an element that was taken out of the tree. -/
def Stale (t : Tree) (h : Handle) : Prop :=
  ∃ n, t.nodes[h]? = some n ∧ n.removed = true

theorem Stale.isLive (hh : t.Stale h) : t.isLive h = false := by
  obtain ⟨n, hn, hremoved⟩ := hh
  simp [Tree.isLive, hn, hremoved]

theorem stale_iff_map : t.Stale h ↔ t.nodes[h]?.map Node.removed = some true := by
  rw [Stale, Option.map_eq_some_iff]

theorem Agree.stale_iff (hst : Agree Node.removed s t) : s.Stale h ↔ t.Stale h := by
  rw [stale_iff_map, stale_iff_map, hst h]

theorem Above.stale (habove : t.Above x h) (ht : t.WellFormed) (hx : t.Stale x) : t.Stale h := by
  induction habove with
  | refl => exact hx
  | @step h p n hn hparent _ ih =>
    refine ⟨n, hn, ?_⟩
    by_contra hstays
    rw [Bool.not_eq_true] at hstays
    have hchild := (ht.node_parent (node_eq_ok_iff.mpr ⟨hn, hstays⟩) hparent).2
    obtain ⟨m, hm, -⟩ := mem_childrenOf.mp hchild
    have hlive := isLive_iff.mpr ⟨m, hm⟩
    rw [ih.isLive] at hlive
    contradiction

theorem stale_grow_iff (hp : t.node p = .ok n) (spec : ElementSpec) :
    (t.grow p spec).Stale h ↔ t.Stale h := by
  rw [Stale, Stale, getElem?_grow hp]
  split
  · next hnew =>
    rw [hnew, Array.getElem?_eq_none (Nat.le_refl _)]
    simp [Node.ofSpec]
  · split
    · next hself =>
      rw [hself, (node_eq_ok_iff.mp hp).1]
      simp
    · rfl

theorem stale_growAll_iff (hp : t.node p = .ok n) (specs : List ElementSpec) :
    (t.growAll p specs).Stale h ↔ t.Stale h := by
  induction specs generalizing t n with
  | nil => rfl
  | cons spec specs ih => exact (ih (node_grow_self hp spec)).trans (stale_grow_iff hp spec)

theorem WellFormed.stale_pruned_iff (ht : t.WellFormed) (hn : t.node x = .ok n) :
    (t.pruned x n).Stale h ↔ t.Stale h ∨ h ∈ t.subtree x := by
  have hunlink : (t.unlink x n.parent).nodes[h]?.map Node.removed =
      t.nodes[h]?.map Node.removed := by
    cases n.parent with
    | none => rfl
    | some p =>
      have hmodify : Agree Node.removed (t.modify p (Node.dropChild x)) t :=
        Agree.modify t p fun _ => rfl
      exact hmodify h
  rw [stale_iff_map, stale_iff_map, ← hunlink, Tree.pruned, getElem?_marked, Option.map_map]
  by_cases hmem : h ∈ t.subtree x
  · obtain ⟨m, hm⟩ := ht.node_of_mem_subtree hn hmem
    rw [(node_eq_ok_iff.mp hm).1, Option.map_some, Option.map_eq_some_iff] at hunlink
    obtain ⟨k, hk, -⟩ := hunlink
    simp [hk, hmem]
  · simp [hmem, Function.comp_def]

theorem Stale.apply (hh : t.Stale h) (ht : t.WellFormed) (o : Operation) :
    (o.apply t).Stale h := by
  rcases o.apply_cases ht with ⟨hsame, -⟩ | ⟨p, n, specs, hp, hgrown, -⟩ | ⟨x, n, -, hn, -, hpruned⟩
  · exact (hsame.map Place.removed).stale_iff.mpr hh
  · exact (hgrown.map Place.removed).stale_iff.mpr ((stale_growAll_iff hp specs).mpr hh)
  · rw [hpruned]
    exact (ht.stale_pruned_iff hn).mpr (.inl hh)

theorem Stale.applyAll (hh : t.Stale h) (ht : t.WellFormed) (os : List Operation) :
    (t.applyAll os).Stale h := by
  induction os generalizing t with
  | nil => exact hh
  | cons o os ih => exact ih (hh.apply ht o) (ht.apply o)

theorem stale_apply_remove (ht : t.WellFormed)
    (hresult : (Operation.remove x).result t = .ok ()) : ((Operation.remove x).apply t).Stale x := by
  have heffect := (Operation.remove x).effect ht
  generalize (Operation.remove x).apply t = s at heffect ⊢
  cases heffect with
  | failed herror => exact nomatch hresult.symm.trans herror
  | remove hn => exact (ht.stale_pruned_iff hn).mpr (.inr List.mem_cons_self)

theorem stale_apply_cases (ht : t.WellFormed) {o : Operation} (hh : (o.apply t).Stale h) :
    t.Stale h ∨
      ∃ x, o = .remove x ∧ (Operation.remove x).result t = .ok () ∧ t.Above x h := by
  rcases o.apply_cases ht with ⟨hsame, -⟩ | ⟨p, n, specs, hp, hgrown, -⟩ |
    ⟨x, n, rfl, hn, hresult, hpruned⟩
  · exact .inl ((hsame.map Place.removed).stale_iff.mp hh)
  · exact .inl ((stale_growAll_iff hp specs).mp ((hgrown.map Place.removed).stale_iff.mp hh))
  · rw [hpruned, ht.stale_pruned_iff hn] at hh
    rcases hh with hold | hmem
    · exact .inl hold
    · exact .inr ⟨x, rfl, hresult, ht.above_of_mem_subtree hmem⟩

/-- The stale handles after a run are the old ones and those that a removal in the run has made
stale. -/
theorem stale_applyAll_iff (ht : t.WellFormed) (os : List Operation) :
    (t.applyAll os).Stale h ↔
      t.Stale h ∨ ∃ before x after, os = before ++ .remove x :: after ∧
        (Operation.remove x).result (t.applyAll before) = .ok () ∧ (t.applyAll os).Above x h := by
  constructor
  · intro hh
    induction os generalizing t with
    | nil => exact .inl hh
    | cons o os ih =>
      rcases ih (ht.apply o) hh with hstale | ⟨before, x, after, rfl, hresult, habove⟩
      · rcases stale_apply_cases ht hstale with hold | ⟨x, rfl, hresult, habove⟩
        · exact .inl hold
        · exact .inr ⟨[], x, os, rfl, hresult, habove.mono (keepsParents_applyAll ht _)⟩
      · exact .inr ⟨o :: before, x, after, rfl, hresult, habove⟩
  · rintro (hold | ⟨before, x, after, rfl, hresult, habove⟩)
    · exact hold.applyAll ht os
    · have hbefore := ht.applyAll before
      refine habove.stale (ht.applyAll _) ?_
      rw [applyAll_append]
      exact (stale_apply_remove hbefore hresult).applyAll (hbefore.apply _) after

theorem not_stale_initial : ¬ initial.Stale h := by
  rintro ⟨n, hn, hremoved⟩
  cases h with
  | zero =>
    obtain rfl := Option.some.inj hn
    contradiction
  | succ h => contradiction

/-! ### Identity -/

theorem root_cons_addedAll (os : List Operation) :
    root :: initial.addedAll os = List.range (initial.applyAll os).nodes.size :=
  range_append_addedAll wellFormed_initial os

/-- The handles of the elements that a run adds differ from each other and from the root, and no
handle but these and the root has an entry. The parent of an entry never changes. A handle is stale
exactly if a removal of its element or of one above it has succeeded, and it is stale for ever: its
element is never in the tree again, and every operation on it fails. -/
theorem handles_applyAll (os : List Operation) :
    let t := initial.applyAll os
    (root :: initial.addedAll os).Nodup ∧
    (∀ h : Handle, h ∈ root :: initial.addedAll os ↔ ∃ n, t.nodes[h]? = some n) ∧
    (∀ (h : Handle) (n : Node), t.nodes[h]? = some n → ∀ later : List Operation,
      ∃ m, (t.applyAll later).nodes[h]? = some m ∧ m.parent = n.parent) ∧
    (∀ h : Handle, t.Stale h ↔ ∃ before x after, os = before ++ .remove x :: after ∧
      (Operation.remove x).result (initial.applyAll before) = .ok () ∧ t.Above x h) ∧
    (∀ h : Handle, t.Stale h → ∀ later : List Operation, (t.applyAll later).isLive h = false ∧
      (t.applyAll later).node h = .error (unavailable h) ∧
      ∀ o : Operation, o.element = h → ∃ e, o.result (t.applyAll later) = .error e) := by
  intro t
  have ht : t.WellFormed := wellFormed_initial.applyAll os
  refine ⟨?_, fun h => ?_, fun h n hn later => ?_, fun h => ?_, fun h hstale later => ?_⟩
  · rw [root_cons_addedAll]
    exact List.nodup_range
  · rw [root_cons_addedAll, List.mem_range, ← Option.isSome_iff_exists, isSome_getElem?]
  · exact keepsParents_applyAll ht later h n hn
  · exact (stale_applyAll_iff wellFormed_initial os).trans (or_iff_right not_stale_initial)
  · have hdead : (t.applyAll later).isLive h = false := (hstale.applyAll ht later).isLive
    refine ⟨hdead, node_eq_error hdead, ?_⟩
    rintro o rfl
    have hnone : ¬ ∃ n, (t.applyAll later).node o.element = .ok n ∧
        o.Granted (t.applyAll later) n := by
      rintro ⟨n, hn, -⟩
      rw [node_eq_error hdead] at hn
      contradiction
    obtain ⟨e, hperform⟩ := Operation.perform_edit_error hnone
    exact ⟨e, congrArg Prod.fst hperform⟩

/-- The numbers of a removed grid and its cells are not handed out again. -/
example :
    initial.addedAll
      [.add root (.ofControlType .table), .addGrid 1 1 2, .addTableHeaders 1 ["Total"] [], .remove 1,
        .addGrid 1 2 2, .add root (.ofControlType .edit)] = [1, 2, 3, 4, 5] := by
  rfl

end ElementQuery.Tree
