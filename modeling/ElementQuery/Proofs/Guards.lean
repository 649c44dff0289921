import ElementQuery.Proofs.ValueAccess

/-!
# Guards of writing

What writing never does to an element, whichever of its patterns the text goes through. The guards
compare the tree at two moments. They say nothing about how it came from the one to the other, so they
compose, and what one write respects is respected by every run of writes. Composing the bounds of a
range takes that the bounds themselves stay: a range that lies within them after an earlier write
still does when the later ones have left it alone.
-/

namespace ElementQuery

def Node.Disabled (n : Node) : Prop :=
  n.spec.properties.get? .isEnabled = some (.boolean false)

/-- Holds of an element before and after, if nothing was written past a guard in between. -/
structure Node.Guarded (n m : Node) : Prop where
  frame : m.frame = n.frame
  value : n.spec.valueReadOnly = true → m.spec.value = n.spec.value
  range : n.spec.rangeReadOnly = true → m.spec.range = n.spec.range
  within : m.spec.range ≠ n.spec.range → m.spec.range.isFinite = true ∧
    m.spec.range.less m.spec.rangeMin = false ∧ m.spec.rangeMax.less m.spec.range = false
  typed : n.Disabled → m.typed = n.typed

namespace Node

variable {n m k : Node}

theorem disabled_of_frame (hframe : m.frame = n.frame) (hdisabled : n.Disabled) : m.Disabled := by
  have hproperties : m.spec.properties = n.spec.properties :=
    congrArg (fun n => n.spec.properties) hframe
  rw [Disabled, hproperties]
  exact hdisabled

/-- An element that was only selected or deselected was not written past a guard. -/
theorem guarded_of_unselected (hunselected : m.unselected = n.unselected) : n.Guarded m := by
  have hframe : m.frame = n.frame := congrArg (fun n => n.frame) hunselected
  have hvalue : m.spec.value = n.spec.value := congrArg (fun n => n.spec.value) hunselected
  have hrange : m.spec.range = n.spec.range := congrArg (fun n => n.spec.range) hunselected
  have htyped : m.typed = n.typed := congrArg (fun n => n.typed) hunselected
  exact ⟨hframe, fun _ => hvalue, fun _ => hrange, fun hchanged => absurd hrange hchanged,
    fun _ => htyped⟩

theorem Guarded.trans (hnm : n.Guarded m) (hmk : m.Guarded k) : n.Guarded k where
  frame := hmk.frame.trans hnm.frame
  value := by
    intro hreadOnly
    have hmark : m.spec.valueReadOnly = n.spec.valueReadOnly :=
      congrArg (fun n => n.spec.valueReadOnly) hnm.frame
    exact (hmk.value (hmark.trans hreadOnly)).trans (hnm.value hreadOnly)
  range := by
    intro hreadOnly
    have hmark : m.spec.rangeReadOnly = n.spec.rangeReadOnly :=
      congrArg (fun n => n.spec.rangeReadOnly) hnm.frame
    exact (hmk.range (hmark.trans hreadOnly)).trans (hnm.range hreadOnly)
  within := by
    intro hchanged
    by_cases hlater : k.spec.range = m.spec.range
    · have hmin : k.spec.rangeMin = m.spec.rangeMin :=
        congrArg (fun n => n.spec.rangeMin) hmk.frame
      have hmax : k.spec.rangeMax = m.spec.rangeMax :=
        congrArg (fun n => n.spec.rangeMax) hmk.frame
      rw [hlater] at hchanged ⊢
      rw [hmin, hmax]
      exact hnm.within hchanged
    · exact hmk.within hlater
  typed := fun hdisabled =>
    (hmk.typed (disabled_of_frame hnm.frame hdisabled)).trans (hnm.typed hdisabled)

end Node

/-- Holds of a tree before and after, if in between nothing was written past a guard and no disabled
element gained the focus. -/
structure Tree.Guarded (s u : Tree) : Prop where
  elements : ∀ (x : Handle) (n : Node), s.nodes[x]? = some n →
    ∃ m, u.nodes[x]? = some m ∧ n.Guarded m
  focus : ∀ (x : Handle) (n : Node), s.nodes[x]? = some n → n.Disabled →
    u.focused = some x → s.focused = some x

namespace Tree

variable {s t u : Tree} {h : Handle} {n : Node}

theorem guarded_of_unselected (hagree : Agree Node.unselected u s) (hfocused : u.focused = s.focused) :
    s.Guarded u where
  elements := by
    intro x n hn
    obtain ⟨m, hm, hunselected⟩ := hagree.symm.getElem? hn
    exact ⟨m, hm, Node.guarded_of_unselected hunselected⟩
  focus := fun _ _ _ _ hfocus => hfocused ▸ hfocus

protected theorem Guarded.refl (t : Tree) : t.Guarded t :=
  guarded_of_unselected (Agree.refl t) rfl

protected theorem Guarded.trans (hst : s.Guarded t) (htu : t.Guarded u) : s.Guarded u where
  elements := by
    intro x n hn
    obtain ⟨m, hm, hnm⟩ := hst.elements x n hn
    obtain ⟨k, hk, hmk⟩ := htu.elements x m hm
    exact ⟨k, hk, hnm.trans hmk⟩
  focus := by
    intro x n hn hdisabled hfocus
    obtain ⟨m, hm, hnm⟩ := hst.elements x n hn
    have hmiddle := htu.focus x m hm (Node.disabled_of_frame hnm.frame hdisabled) hfocus
    exact hst.focus x n hn hdisabled hmiddle

theorem guarded_modify (hn : t.node h = .ok n) {f : Node → Node} (hf : n.Guarded (f n)) :
    t.Guarded (t.modify h f) where
  elements := by
    intro x m hm
    rw [getElem?_modify, hm]
    by_cases hx : h = x
    · subst hx
      obtain rfl := Option.some.inj ((node_eq_ok_iff.mp hn).1.symm.trans hm)
      exact ⟨f n, if_pos rfl, hf⟩
    · exact ⟨m, if_neg hx, Node.guarded_of_unselected rfl⟩
  focus := fun _ _ _ _ hfocus => hfocus

theorem guarded_focus (hn : t.node h = .ok n) (henabled : ¬ n.Disabled) :
    t.Guarded { t with focused := some h } where
  elements := fun _ m hm => ⟨m, hm, Node.guarded_of_unselected rfl⟩
  focus := by
    intro x m hm hdisabled hfocus
    obtain rfl := Option.some.inj hfocus
    obtain rfl := Option.some.inj ((node_eq_ok_iff.mp hn).1.symm.trans hm)
    exact absurd hdisabled henabled

end Tree

namespace ValueAccess

variable {t u : Tree} {h : Handle} {v : String}

theorem Written.guarded (hwritten : Written t h v u) : t.Guarded u := by
  cases hwritten with
  | nothing => exact Tree.Guarded.refl t
  | value hn hwritable =>
    refine Tree.guarded_modify hn ⟨rfl, fun hreadOnly => ?_, fun _ => rfl, fun hne => ?_, fun _ => rfl⟩
    · rw [hwritable] at hreadOnly
      contradiction
    · exact absurd rfl hne
  | range hn hwritable hfinite hmin hmax =>
    refine Tree.guarded_modify hn
      ⟨rfl, fun _ => rfl, fun hreadOnly => ?_, fun _ => ⟨hfinite, hmin, hmax⟩, fun _ => rfl⟩
    rw [hwritable] at hreadOnly
    contradiction
  | items =>
    refine Tree.guarded_of_unselected
      ((Tree.agree_withAlsoSelected _ _).trans (Tree.agree_withOnlySelected t _)) ?_
    rw [Tree.focused_withAlsoSelected, Tree.focused_withOnlySelected]
  | selected =>
    exact Tree.guarded_of_unselected (Tree.agree_withOnlySelected t h)
      (Tree.focused_withOnlySelected t h)
  | deselected => exact Tree.guarded_of_unselected (Tree.agree_withSelected t false h) rfl
  | legacyValue hn =>
    exact Tree.guarded_modify hn
      ⟨rfl, fun _ => rfl, fun _ => rfl, fun hne => absurd rfl hne, fun _ => rfl⟩
  | typed hn henabled =>
    have hn' : ({ t with focused := some h } : Tree).node h = .ok _ := hn
    refine (Tree.guarded_focus hn henabled).trans (Tree.guarded_modify hn' ?_)
    exact ⟨rfl, fun _ => rfl, fun _ => rfl, fun hne => absurd rfl hne,
      fun hdisabled => absurd hdisabled henabled⟩

theorem guarded_of_wellFormed (ht : t.WellFormed) (writes : List (Handle × String)) :
    t.Guarded (writeAll t writes) := by
  induction writes generalizing t with
  | nil => exact Tree.Guarded.refl t
  | cons w writes ih =>
    have hwritten := written_write ht w.1 w.2
    exact hwritten.guarded.trans (ih (hwritten.wellFormed ht))

/-- Between any two moments of a run of writes nothing is written past a guard. -/
theorem guarded_writeAll (ht : t.Reachable) (before after : List (Handle × String)) :
    (writeAll t before).Guarded (writeAll t (before ++ after)) := by
  rw [writeAll_append]
  exact guarded_of_wellFormed (wellFormed_writeAll ht.wellFormed before) after

/-- A read-only text, a slider between zero and one that a first write moves to its end, and a text
that is disabled. -/
theorem guarded_writeAll_form :
    let t := Tree.initial.applyAll
      [.add Tree.root ((ElementSpec.ofControlType .edit).withValue "draft").asReadOnly,
        .add Tree.root ((ElementSpec.ofControlType .slider).withRange .zero .zero
          (.finite false Binary64.unitsPerOne)),
        .add Tree.root ((ElementSpec.ofControlType .edit).withEnabled false)]
    let moved := writeAll t [(2, "1")]
    t.Reachable ∧
      (moved.node 2).map (fun n => n.spec.range) = .ok (.finite false Binary64.unitsPerOne) ∧
      moved.Guarded
        (writeAll t ([(2, "1")] ++ [(1, "final"), (2, "nan"), (2, "1.5"), (3, "Alice")])) := by
  intro t moved
  have hreachable : t.Reachable := ⟨_, rfl⟩
  refine ⟨hreachable, ?_, guarded_writeAll hreachable _ _⟩
  decide +kernel

end ValueAccess

end ElementQuery
