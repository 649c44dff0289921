import ElementQuery.Proofs.Capability
import ElementQuery.ValueAccess

/-!
# Writing the text of an element

One capability accepts or rejects a text that is written to an element, and what it does to the tree is
one of a few things.
-/

namespace ElementQuery.ValueAccess

open Dialogue Capability

/-! ## Writing the text of an element

The capabilities that are tried for writing end with the structural one, which every element has, so
one of them accepts or rejects the text. The ones before it do not apply, and finding that out
changes nothing.
-/

section

variable {t : Tree} {h : Handle} {n : Node}

theorem run_applies (hn : t.node h = .ok n) (c : Capability) :
    (c.applies h).run Tree.provider t = (.ok (c.pattern?.all n.supports), t) := by
  rw [Capability.applies]
  cases c.pattern? with
  | none => rfl
  | some p =>
    simp only [request, run, answer_provider, Edit.ofRequest, Edit.perform_read, hn, Except.map]
    rfl

theorem run_write_applied (hn : t.node h = .ok n) {c : Capability}
    (happlies : c.pattern?.all n.supports = true) (v : String) :
    (c.write h v).run Tree.provider t = (c.writeApplied h v).run Tree.provider t := by
  rw [Capability.write, run_bind, run_applies hn, happlies]
  rfl

/-- Trying capabilities one after the other, the first that applies accepts or rejects the text. -/
theorem run_writeThrough_eq (ht : t.WellFormed) (hn : t.node h = .ok n) (v : String)
    {cs : List Capability} {c : Capability}
    (hfirst : (cs.find? fun c => c.pattern?.all n.supports) = some c)
    (hwritable : ∀ c ∈ cs, c ≠ .text ∧ c ≠ .toggle) :
    (writeThrough h v cs).run Tree.provider t = (c.writeApplied h v).run Tree.provider t := by
  induction cs with
  | nil => contradiction
  | cons d cs ih =>
    rw [writeThrough, run_bind, Capability.write, run_bind, run_applies hn d]
    cases happlies : d.pattern?.all n.supports with
    | true =>
      simp only [List.find?_cons, happlies, Option.some.injEq] at hfirst
      subst hfirst
      obtain ⟨htext, htoggle⟩ := hwritable d List.mem_cons_self
      simp only [if_true]
      rcases Capability.settles_writeApplied ht hn htext htoggle v with ⟨s, hsuccess⟩ | hfailure
      · rw [hsuccess]
        rfl
      · rw [hfailure]
        rfl
    | false =>
      simp only [List.find?_cons, happlies] at hfirst
      exact ih hfirst fun e he => hwritable e (List.mem_cons_of_mem _ he)

/-- The capability that an element is written through, the first in order that it has. -/
def writer (n : Node) : Capability :=
  (writeOrder.find? fun c => c.pattern?.all n.supports).getD .structural

theorem find?_writer (n : Node) :
    (writeOrder.find? fun c => c.pattern?.all n.supports) = some (writer n) := by
  rw [writer]
  cases hfind : writeOrder.find? fun c => c.pattern?.all n.supports with
  | some c => rfl
  | none =>
    rw [List.find?_eq_none] at hfind
    exact absurd rfl (hfind .structural (by decide))

theorem writer_applies (n : Node) : (writer n).pattern?.all n.supports = true := by
  have happlies := List.find?_some (find?_writer n)
  simpa only using happlies

theorem writer_writable (n : Node) : writer n ≠ .text ∧ writer n ≠ .toggle := by
  have hwritable : ∀ c ∈ writeOrder, c ≠ .text ∧ c ≠ .toggle := by decide
  exact hwritable _ (List.mem_of_find?_eq_some (find?_writer n))

theorem run_write_eq (ht : t.WellFormed) (hn : t.node h = .ok n) (v : String) :
    (write h v).run Tree.provider t = ((writer n).writeApplied h v).run Tree.provider t :=
  run_writeThrough_eq ht hn v (find?_writer n) (by decide)

theorem settles_write (ht : t.WellFormed) (hn : t.node h = .ok n) (v : String) :
    Capability.Settles (write h v) t := by
  obtain ⟨htext, htoggle⟩ := writer_writable n
  rw [Capability.Settles, run_write_eq ht hn]
  exact Capability.settles_writeApplied ht hn htext htoggle v

theorem run_write_error {e : Error} (hn : t.node h = .error e) (v : String) :
    (write h v).run Tree.provider t = (.error e, t) := by
  simp only [write, writeOrder, writeThrough, Capability.write, Capability.applies,
    Capability.pattern?, request, ask_bind, run, answer_provider, Edit.ofRequest,
    Edit.perform_read, hn, Except.map]

/-- Writing to an element of a tree that can occur succeeds or fails, and it is an error of the
platform if the element is not in the tree. Unless it succeeds the tree is as it was. -/
theorem write_unchanged_or_success (ht : t.Reachable) (h : Handle) (v : String) :
    (t.isLive h = true →
      (write h v).result Tree.provider t = .ok .success ∨
        (write h v).result Tree.provider t = .ok .failure) ∧
    (t.isLive h = false →
      ∃ message, (write h v).result Tree.provider t = .error (.platform message)) ∧
    ((write h v).result Tree.provider t ≠ .ok .success →
      (write h v).after Tree.provider t = t) := by
  rw [result, after]
  cases hlive : t.isLive h with
  | true =>
    obtain ⟨n, hn⟩ := Tree.isLive_iff.mp hlive
    rcases settles_write ht.wellFormed hn v with ⟨s, hsuccess⟩ | hfailure
    · rw [hsuccess]
      exact ⟨fun _ => .inl rfl, fun hdead => absurd hdead (by decide), fun hnot => absurd rfl hnot⟩
    · rw [hfailure]
      exact ⟨fun _ => .inr rfl, fun hdead => absurd hdead (by decide), fun _ => rfl⟩
  | false =>
    rw [run_write_error (Tree.node_eq_error hlive)]
    exact ⟨fun hlive => absurd hlive (by decide), fun _ => ⟨_, rfl⟩, fun _ => rfl⟩

theorem write_missing_name :
    let t := Tree.initial.applyAll
      [.add Tree.root ((ElementSpec.ofControlType .list).withSelection true),
        .add 1 (((ElementSpec.ofControlType .listItem).withName "Red").withSelectionItem false)]
    (write 1 "Red; Blue").result Tree.provider t = .ok .failure ∧
      (write 1 "Red; Blue").after Tree.provider t = t := by
  intro t
  have hresult : (write 1 "Red; Blue").result Tree.provider t = .ok .failure := by
    decide +kernel
  refine ⟨hresult, (write_unchanged_or_success ⟨_, rfl⟩ 1 "Red; Blue").2.2 ?_⟩
  rw [hresult, ne_eq, Except.ok.injEq]
  decide

end

/-! ## What writing does to a tree

Whatever the text and whichever patterns the element supports, writing to it ends in one of a few
ways: with the tree as it was, with one field of the element changed, with other items selected, or
with the text typed into the element. Each way has conditions of its own, which are the guards that
the text has to pass. The elements, their places, their properties and the marks that the guards look
at are the same in all of them, so guards can be compared over a run of writes.
-/

section

/-- The trees that writing a text to an element can leave. -/
inductive Written (t : Tree) (h : Handle) (v : String) : Tree → Prop where
  | nothing : Written t h v t
  | value {n : Node} (hn : t.node h = .ok n) (hwritable : n.spec.valueReadOnly = false) :
      Written t h v (t.modify h (Node.mapSpec fun s => { s with value := v }))
  | range {n : Node} {number : Binary64} (hn : t.node h = .ok n)
      (hwritable : n.spec.rangeReadOnly = false) (hfinite : number.isFinite = true)
      (hmin : number.less n.spec.rangeMin = false) (hmax : n.spec.rangeMax.less number = false) :
      Written t h v (t.modify h (Node.mapSpec fun s => { s with range := number }))
  | items {n : Node} {first : Handle} {others : List Handle} (hn : t.node h = .ok n)
      (hcontainer : n.supports .selection = true)
      (hitems : t.itemsNamed? h (itemNames n.spec.multipleSelection v) = some (first :: others)) :
      Written t h v ((t.withOnlySelected first).withAlsoSelected others)
  | selected {n : Node} (hn : t.node h = .ok n) : Written t h v (t.withOnlySelected h)
  | deselected {n : Node} (hn : t.node h = .ok n) : Written t h v (t.withSelected false h)
  | legacyValue {n : Node} (hn : t.node h = .ok n) :
      Written t h v (t.modify h (Node.mapSpec fun s => { s with legacyValue := v }))
  | typed {n : Node} (hn : t.node h = .ok n)
      (henabled : n.spec.properties.get? .isEnabled ≠ some (.boolean false)) :
      Written t h v
        (({ t with focused := some h }).modify h fun n => { n with typed := n.typed ++ [v] })

variable {t u : Tree} {h : Handle} {n : Node} {v : String}

/-! ### One write -/

theorem written_writeRange (hn : t.node h = .ok n) (v : String) :
    Written t h v ((writeRange h v).run Tree.provider t).2 := by
  rw [run_writeRange hn]
  cases hnumber : (Binary64.read? (Text.trim v.toList)).filter Binary64.isFinite with
  | none => exact .nothing
  | some number =>
    obtain ⟨-, hfinite⟩ := Option.filter_eq_some_iff.mp hnumber
    simp only
    split
    · exact .nothing
    · next hguards =>
      simp only [Bool.or_eq_true, not_or, Bool.not_eq_true] at hguards
      obtain ⟨⟨hwritable, hmin⟩, hmax⟩ := hguards
      exact .range hn hwritable hfinite hmin hmax

theorem written_writeSelected (hn : t.node h = .ok n) (v : String) :
    Written t h v ((writeSelected h v).run Tree.provider t).2 := by
  rw [run_writeSelected hn]
  cases readSelected? v with
  | none => exact .nothing
  | some wanted =>
    simp only
    split
    · exact .nothing
    · split
      · exact .selected hn
      · exact .deselected hn

theorem written_writeApplied (ht : t.WellFormed) (hn : t.node h = .ok n) {c : Capability}
    (happlies : c.pattern?.all n.supports = true) (htext : c ≠ .text) (htoggle : c ≠ .toggle)
    (v : String) : Written t h v ((c.writeApplied h v).run Tree.provider t).2 := by
  cases c with
  | value =>
    rw [writeApplied, run_writeValue hn]
    split
    · exact .nothing
    · next hwritable => exact .value hn (by simpa using hwritable)
  | rangeValue => exact written_writeRange hn v
  | text => exact absurd rfl htext
  | toggle => exact absurd rfl htoggle
  | selection =>
    rw [writeApplied, run_writeSelection ht hn]
    split
    · next hitems => exact .items hn happlies hitems
    · exact .nothing
  | selectionItem => exact written_writeSelected hn v
  | legacyAccessible =>
    simp only [writeApplied, request, ask_bind, done_bind, pure_eq, run, answer_provider,
      Edit.ofRequest, Edit.perform_update, hn]
    exact .legacyValue hn
  | structural =>
    rw [writeApplied, run_typeText hn]
    split
    · exact .nothing
    · next henabled => exact .typed hn (mt beq_iff_eq.mpr henabled)

theorem written_write (ht : t.WellFormed) (h : Handle) (v : String) :
    Written t h v ((write h v).after Tree.provider t) := by
  cases hn : t.node h with
  | error e =>
    rw [after, run_write_error hn]
    exact .nothing
  | ok n =>
    obtain ⟨htext, htoggle⟩ := writer_writable n
    rw [after, run_write_eq ht hn]
    exact written_writeApplied ht hn (writer_applies n) htext htoggle v

theorem after_write_items (ht : t.WellFormed) (hn : t.node h = .ok n)
    (hcontainer : n.supports .selection = true) {first : Handle} {others : List Handle}
    (hitems : t.itemsNamed? h (itemNames n.spec.multipleSelection v) = some (first :: others)) :
    (write h v).after Tree.provider t = (t.withOnlySelected first).withAlsoSelected others := by
  have hwriter : writer n = .selection := by
    simp [writer, writeOrder, pattern?, hcontainer]
  rw [after, run_write_eq ht hn, hwriter, writeApplied, run_writeSelection ht hn, hitems]

theorem Written.agree (hwritten : Written t h v u) : Tree.Agree Node.frame u t := by
  cases hwritten with
  | nothing => exact Tree.Agree.refl t
  | value | range | legacyValue | typed => exact Tree.Agree.modify _ h fun _ => rfl
  | items =>
    exact ((Tree.agree_withAlsoSelected _ _).trans (Tree.agree_withOnlySelected t _)).map Node.frame
  | selected => exact (Tree.agree_withOnlySelected t h).map Node.frame
  | deselected => exact (Tree.agree_withSelected t false h).map Node.frame

theorem Written.wellFormed (ht : t.WellFormed) (hwritten : Written t h v u) : u.WellFormed :=
  (hwritten.agree.map Node.shape).wellFormed ht

/-! ### Runs of writes -/

def writeAll (t : Tree) (writes : List (Handle × String)) : Tree :=
  writes.foldl (fun t w => (write w.1 w.2).after Tree.provider t) t

theorem writeAll_append (t : Tree) (before after : List (Handle × String)) :
    writeAll t (before ++ after) = writeAll (writeAll t before) after :=
  List.foldl_append

theorem writeAll_concat (t : Tree) (writes : List (Handle × String)) (h : Handle) (v : String) :
    writeAll t (writes ++ [(h, v)]) = (write h v).after Tree.provider (writeAll t writes) :=
  writeAll_append t writes [(h, v)]

theorem wellFormed_writeAll (ht : t.WellFormed) (writes : List (Handle × String)) :
    (writeAll t writes).WellFormed := by
  induction writes generalizing t with
  | nil => exact ht
  | cons w writes ih => exact ih ((written_write ht w.1 w.2).wellFormed ht)

theorem agree_writeAll (ht : t.WellFormed) (writes : List (Handle × String)) :
    Tree.Agree Node.frame (writeAll t writes) t := by
  induction writes generalizing t with
  | nil => exact Tree.Agree.refl t
  | cons w writes ih =>
    have hwritten := written_write ht w.1 w.2
    exact (ih (hwritten.wellFormed ht)).trans hwritten.agree

end

end ElementQuery.ValueAccess
