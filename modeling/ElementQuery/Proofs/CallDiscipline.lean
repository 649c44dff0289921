import ElementQuery.Proofs.Provider.Discipline
import ElementQuery.Search
import ElementQuery.ValueAccess

/-!
# The calls of searches and of accesses to values

Searches, reading and writing make only calls that a provider can count on. For a capability that
rests on its being asked for only where it applies; the items that a text names are asked one by one
whether they can be selected before the first of them is.

Writing tries several capabilities, but only one of them changes anything: those before it do not
apply, and that is found out by questions alone.
-/

namespace ElementQuery

open Dialogue

namespace Capability

variable {c : Capability} {h : Handle} {history : List Call}

/-- Holds of calls from which it is known that an element has a capability. -/
def Known (history : List Call) (c : Capability) (h : Handle) : Prop :=
  ∀ pattern ∈ c.pattern?, Supported history h pattern

theorem Known.licensed (hknown : Known history c h) {r : Request}
    (hpattern : r.pattern? = c.pattern?) (helement : r.element = h) : Licensed history r := by
  apply licensed_of_supported
  · rw [hpattern]
    cases c <;> decide
  · rw [hpattern, helement]
    exact hknown

theorem Known.append (hknown : Known history c h) (others : List Call) :
    Known (history ++ others) c h :=
  fun pattern hpattern => (hknown pattern hpattern).append others

theorem obeys_applies (c : Capability) (h : Handle) (history : List Call) :
    Obeys Licensed
      (fun later applies =>
        (applies = true → Known later c h) ∧ (applies = false → c ≠ .structural) ∧
          ∀ call ∈ later, call ∈ history ∨ call.request.mutates = false)
      (c.applies h) history := by
  rw [applies]
  cases hpattern : c.pattern? with
  | none =>
    refine ⟨fun _ pattern hmem => ?_, fun hfalse => absurd hfalse (by decide), fun _ => .inl⟩
    rw [hpattern] at hmem
    contradiction
  | some pattern =>
    refine ⟨licensed_of_pattern?_eq_none rfl, fun answer => ⟨?_, ?_, ?_⟩⟩
    · rintro rfl other hother
      rw [hpattern, Option.mem_some_iff] at hother
      subst hother
      exact List.mem_append_right _ (List.mem_singleton_self _)
    · rintro - rfl
      contradiction
    · intro call hcall
      rcases List.mem_append.mp hcall with hcall | hcall
      · exact .inl hcall
      · rw [List.mem_singleton.mp hcall]
        exact .inr rfl

/-! ### Reading -/

theorem obeys_elementName (h : Handle) (history : List Call) :
    Obeys Licensed (fun _ _ => True) (elementName h) history := by
  rw [elementName, obeys_request_bind]
  exact ⟨licensed_of_pattern?_eq_none rfl, fun _ => trivial⟩

theorem obeys_namesOf (items : List Handle) (history : List Call) :
    Obeys Licensed (fun _ _ => True) (namesOf items) history := by
  induction items generalizing history with
  | nil => trivial
  | cons item items ih =>
    rw [namesOf, obeys_bind]
    refine (obeys_elementName item history).mono fun later name _ _ => ?_
    rw [obeys_bind]
    exact (ih later).mono fun _ _ _ _ => trivial

theorem obeys_structuralText (h : Handle) (history : List Call) :
    Obeys Licensed (fun _ _ => True) (structuralText h) history := by
  rw [structuralText, obeys_request_bind]
  refine ⟨licensed_of_pattern?_eq_none rfl, fun child => ?_⟩
  cases child with
  | none => exact obeys_elementName h _
  | some child =>
    simp only [obeys_bind]
    refine (obeys_elementName child _).mono fun later name _ _ => ?_
    cases name with
    | none => exact obeys_elementName h later
    | some name => trivial

theorem obeys_read (hknown : Known history c h) :
    Obeys Licensed (fun _ _ => True) (c.read h) history := by
  cases c with
  | structural => exact obeys_structuralText h history
  | selection =>
    simp only [read, selectedNames, obeys_bind]
    refine ⟨hknown.licensed rfl rfl, fun items => ?_⟩
    exact (obeys_namesOf items _).mono fun _ _ _ _ => trivial
  | _ => exact ⟨hknown.licensed rfl rfl, fun _ => trivial⟩

/-! ### Writing -/

/-- Holds where writing ends with any outcome but that the capability does not apply. -/
def Settled (_ : List Call) (outcome : WriteOutcome) : Prop :=
  outcome ≠ .notApplicable

theorem settled_success (history : List Call) : Settled history .success :=
  WriteOutcome.noConfusion

theorem settled_failure (history : List Call) : Settled history .failure :=
  WriteOutcome.noConfusion

theorem obeys_writeValue (hknown : Known history .value h) (v : String) :
    Obeys Licensed Settled (writeValue h v) history := by
  rw [writeValue, obeys_request_bind]
  refine ⟨hknown.licensed rfl rfl, fun readOnly => ?_⟩
  cases readOnly with
  | true => exact settled_failure _
  | false => exact ⟨(hknown.append _).licensed rfl rfl, fun _ => settled_success _⟩

theorem obeys_writeRange (hknown : Known history .rangeValue h) (v : String) :
    Obeys Licensed Settled (writeRange h v) history := by
  rw [writeRange]
  split
  · exact settled_failure _
  · rw [obeys_request_bind]
    refine ⟨hknown.licensed rfl rfl, fun readOnly => ?_⟩
    cases readOnly with
    | true => exact settled_failure _
    | false =>
      rw [if_neg Bool.false_ne_true, obeys_request_bind]
      refine ⟨(hknown.append _).licensed rfl rfl, fun bounds => ?_⟩
      dsimp only
      split
      · exact settled_failure _
      · exact ⟨((hknown.append _).append _).licensed rfl rfl, fun _ => settled_success _⟩

theorem obeys_advanceTo (hknown : Known history .toggle h) (target : ToggleState) (steps : Nat) :
    Obeys Licensed Settled (advanceTo h target steps) history := by
  induction steps generalizing history with
  | zero =>
    refine ⟨hknown.licensed rfl rfl, fun state => ?_⟩
    intro houtcome
    split at houtcome
    · contradiction
    · contradiction
  | succ steps ih =>
    rw [advanceTo, obeys_request_bind]
    refine ⟨hknown.licensed rfl rfl, fun state => ?_⟩
    split
    · exact settled_success _
    · exact ⟨(hknown.append _).licensed rfl rfl, fun _ => ih ((hknown.append _).append _)⟩

theorem obeys_itemsNamed (container : Handle) (names : List String) (history : List Call) :
    Obeys Licensed
      (fun later found => ∀ items, found = some items →
        ∀ item ∈ items, Supported later item .selectionItem)
      (itemsNamed container names) history := by
  induction names generalizing history with
  | nil =>
    rintro items ⟨⟩ item hitem
    contradiction
  | cons name names ih =>
    rw [itemsNamed, obeys_request_bind]
    refine ⟨licensed_of_pattern?_eq_none rfl, fun found => ?_⟩
    cases found with
    | none => exact fun items hitems => nomatch hitems
    | some item =>
      rw [obeys_request_bind]
      refine ⟨licensed_of_pattern?_eq_none rfl, fun supported => ?_⟩
      cases supported with
      | false => exact fun items hitems => nomatch hitems
      | true =>
        rw [if_pos rfl, obeys_bind]
        refine (ih _).mono fun later rest hlater hrest items hitems other hother => ?_
        obtain ⟨others, rfl, rfl⟩ := Option.map_eq_some_iff.mp hitems
        rcases List.mem_cons.mp hother with rfl | hother
        · exact hlater.subset (List.mem_append_right _ (List.mem_singleton_self _))
        · exact hrest others rfl other hother

theorem obeys_addAll {items : List Handle}
    (hitems : ∀ item ∈ items, Supported history item .selectionItem) :
    Obeys Licensed (fun _ _ => True) (addAll items) history := by
  induction items generalizing history with
  | nil => trivial
  | cons item items ih =>
    rw [addAll]
    refine obeys_request_bind.mpr ⟨?_, fun _ => ih fun other hother => ?_⟩
    · exact (hitems item List.mem_cons_self).licensed (by decide) rfl rfl
    · exact (hitems other (List.mem_cons_of_mem _ hother)).append _

theorem obeys_writeSelection (hknown : Known history .selection h) (v : String) :
    Obeys Licensed Settled (writeSelection h v) history := by
  rw [writeSelection, obeys_request_bind]
  refine ⟨hknown.licensed rfl rfl, fun multiple => ?_⟩
  rw [obeys_bind]
  refine (obeys_itemsNamed h (itemNames multiple v) _).mono fun later found _ hfound => ?_
  split
  · next first others =>
    have hitems := hfound _ rfl
    refine obeys_request_bind.mpr ⟨?_, fun _ => ?_⟩
    · exact (hitems first List.mem_cons_self).licensed (by decide) rfl rfl
    rw [obeys_bind]
    refine Obeys.mono (obeys_addAll fun item hitem => ?_) fun last _ _ _ => settled_success last
    exact (hitems item (List.mem_cons_of_mem _ hitem)).append _
  · exact settled_failure _

theorem obeys_writeSelected (hknown : Known history .selectionItem h) (v : String) :
    Obeys Licensed Settled (writeSelected h v) history := by
  rw [writeSelected]
  cases readSelected? v with
  | none => exact settled_failure _
  | some wanted =>
    simp only [obeys_bind]
    refine ⟨hknown.licensed rfl rfl, fun selected => ?_⟩
    have hlater := hknown.append [⟨.isSelected h, .ok selected⟩]
    cases wanted <;> cases selected
    · exact settled_success history
    · exact ⟨hlater.licensed rfl rfl, fun _ => settled_success _⟩
    · exact ⟨hlater.licensed rfl rfl, fun _ => settled_success _⟩
    · exact settled_success history

theorem obeys_typeText (h : Handle) (v : String) (history : List Call) :
    Obeys Licensed Settled (typeText h v) history := by
  rw [typeText, obeys_request_bind]
  refine ⟨licensed_of_pattern?_eq_none rfl, fun enabled => ?_⟩
  split
  · exact settled_failure _
  · refine ⟨licensed_of_pattern?_eq_none rfl, fun _ => ?_⟩
    exact ⟨licensed_of_pattern?_eq_none rfl, fun _ => settled_success _⟩

/-- A capability that applies is not applicable only if it cannot write at all, and then it makes no
request. -/
theorem obeys_writeApplied (hknown : Known history c h) (v : String) :
    Obeys Licensed (fun later outcome => outcome = .notApplicable → c = .text ∧ later = history)
      (c.writeApplied h v) history := by
  have hsettled : ∀ {d : Dialogue WriteOutcome}, Obeys Licensed Settled d history →
      Obeys Licensed (fun later outcome => outcome = .notApplicable → c = .text ∧ later = history)
        d history :=
    fun hd => hd.mono fun _ _ _ hne heq => absurd heq hne
  cases c with
  | value => exact hsettled (obeys_writeValue hknown v)
  | rangeValue => exact hsettled (obeys_writeRange hknown v)
  | text => exact fun _ => ⟨rfl, rfl⟩
  | toggle =>
    refine hsettled ?_
    rw [writeApplied, writeToggle]
    split
    · exact settled_failure _
    · exact obeys_advanceTo hknown _ 3
  | selection => exact hsettled (obeys_writeSelection hknown v)
  | selectionItem =>
    refine hsettled ?_
    rw [writeApplied]
    exact obeys_writeSelected hknown v
  | legacyAccessible =>
    exact hsettled ⟨hknown.licensed rfl rfl, fun _ => settled_success _⟩
  | structural => exact hsettled (obeys_typeText h v history)

/-- A capability that turns out not to be applicable was only asked questions. -/
theorem obeys_write (c : Capability) (h : Handle) (v : String) (history : List Call) :
    Obeys Licensed
      (fun later outcome => outcome = .notApplicable →
        c ≠ .structural ∧ ∀ call ∈ later, call ∈ history ∨ call.request.mutates = false)
      (c.write h v) history := by
  rw [write, obeys_bind]
  refine (obeys_applies c h history).mono fun later applies _ happlies => ?_
  obtain ⟨hknown, hstructural, hquestions⟩ := happlies
  cases applies with
  | false => exact fun _ => ⟨hstructural rfl, hquestions⟩
  | true =>
    refine (obeys_writeApplied (hknown rfl) v).mono fun last outcome _ houtcome heq => ?_
    obtain ⟨htext, rfl⟩ := houtcome heq
    refine ⟨?_, hquestions⟩
    rw [htext]
    decide

end Capability

namespace Search

theorem obeys_resolve_cell {grid : Handle} {history : List Call}
    (hnew : ∀ call ∈ history, call.request ≠ .rowCount grid ∧ call.request ≠ .columnCount grid)
    (row column : Nat) :
    Obeys Licensed (fun _ _ => True) (resolve grid (.cell row column)) history := by
  rw [resolve, obeys_request_bind]
  refine ⟨licensed_of_pattern?_eq_none rfl, fun supported => ?_⟩
  cases supported with
  | false => trivial
  | true =>
    have hgrid : Supported (history ++ [⟨.supports grid .grid, .ok true⟩]) grid .grid :=
      List.mem_append_right _ (List.mem_singleton_self _)
    rw [Bool.not_true, if_neg Bool.false_ne_true]
    split
    · trivial
    · next hnumbers =>
      refine obeys_request_bind.mpr ⟨hgrid.licensed_count (.inl rfl) ?_, fun rows => ?_⟩
      · simp only [List.forall_mem_append, List.forall_mem_singleton]
        exact ⟨fun call hcall => (hnew call hcall).1, Request.noConfusion⟩
      split
      · trivial
      · next hrow =>
        refine obeys_request_bind.mpr
          ⟨(hgrid.append _).licensed_count (.inr rfl) ?_, fun columns => ?_⟩
        · simp only [List.forall_mem_append, List.forall_mem_singleton]
          exact ⟨⟨fun call hcall => (hnew call hcall).2, Request.noConfusion⟩, Request.noConfusion⟩
        split
        · trivial
        · next hcolumn =>
          have hrows : ⟨.rowCount grid, .ok rows⟩ ∈ history ++ [⟨.supports grid .grid, .ok true⟩] ++
              [⟨.rowCount grid, .ok rows⟩] := List.mem_append_right _ (List.mem_singleton_self _)
          have hrow : row ≤ rows := Nat.le_of_not_lt hrow
          have hcolumn : column ≤ columns := Nat.le_of_not_lt hcolumn
          simp only [Bool.or_eq_true, beq_iff_eq, not_or] at hnumbers
          have hrowLt : row - 1 < rows := by omega
          have hcolumnLt : column - 1 < columns := by omega
          refine ⟨?_, fun _ => trivial⟩
          exact ((hgrid.append _).append _).licensed_gridItem (List.mem_append_left _ hrows) hrowLt
            (List.mem_append_right _ (List.mem_singleton_self _)) hcolumnLt

theorem obeys_resolve {grid : Handle} {history : List Call}
    (hnew : ∀ call ∈ history, call.request ≠ .rowCount grid ∧ call.request ≠ .columnCount grid)
    (address : GridAddress) : Obeys Licensed (fun _ _ => True) (resolve grid address) history := by
  have htable : Supported (history ++ [⟨.supports grid .table, .ok true⟩]) grid .table :=
    List.mem_append_right _ (List.mem_singleton_self _)
  cases address with
  | cell row column => exact obeys_resolve_cell hnew row column
  | row number | column number =>
    rw [resolve, obeys_request_bind]
    refine ⟨licensed_of_pattern?_eq_none rfl, fun supported => ?_⟩
    cases supported with
    | false => trivial
    | true => exact ⟨htable.licensed (by decide) rfl rfl, fun _ => trivial⟩

theorem obeys_findMatch (parent : Handle) (scope : Scope) (q : Query) :
    Obeys Licensed (fun _ _ => True) (findMatch parent scope q) [] := by
  have hfollow : ∀ {history : List Call} {found anchor : Handle} (address : Option GridAddress),
      (∀ call ∈ history, call.request ≠ .rowCount found ∧ call.request ≠ .columnCount found) →
      Obeys Licensed (fun _ _ => True) (follow found anchor address) history := by
    intro history found anchor address hnew
    cases address with
    | none => trivial
    | some address =>
      rw [follow, obeys_bind]
      exact (obeys_resolve hnew address).mono fun _ _ _ _ => trivial
  rw [findMatch, obeys_bind]
  refine obeys_ofExcept fun address => ?_
  split
  · refine hfollow address fun call hcall => ?_
    contradiction
  · rw [obeys_bind]
    refine obeys_ofExcept fun condition => ?_
    rw [obeys_request_bind]
    refine ⟨licensed_of_pattern?_eq_none rfl, fun found => ?_⟩
    cases found with
    | none => trivial
    | some found =>
      refine hfollow address fun call hcall => ?_
      rw [List.nil_append, List.mem_singleton] at hcall
      subst hcall
      exact ⟨Request.noConfusion, Request.noConfusion⟩

end Search

namespace ValueAccess

variable {h : Handle} {v : String}

theorem obeys_readThrough (h : Handle) (cs : List Capability) (history : List Call) :
    Obeys Licensed (fun _ _ => True) (readThrough h cs) history := by
  induction cs generalizing history with
  | nil => exact Capability.obeys_structuralText h history
  | cons c cs ih =>
    rw [readThrough, obeys_bind]
    refine (Capability.obeys_applies c h history).mono fun later applies _ happlies => ?_
    cases applies with
    | false => exact ih later
    | true => exact Capability.obeys_read (happlies.1 rfl)

theorem obeys_writeThrough (h : Handle) (v : String) (cs : List Capability) (history : List Call) :
    Obeys Licensed (fun _ _ => True) (writeThrough h v cs) history := by
  induction cs generalizing history with
  | nil => trivial
  | cons c cs ih =>
    rw [writeThrough, obeys_bind]
    refine (Capability.obeys_write c h v history).mono fun later outcome _ _ => ?_
    cases outcome with
    | notApplicable => exact ih later
    | success => trivial
    | failure => trivial

theorem obeys_among (h : Handle) (cs : List Capability) (history : List Call) :
    Obeys Licensed (fun _ _ => True) (among h cs) history := by
  induction cs generalizing history with
  | nil => trivial
  | cons c cs ih =>
    rw [among, obeys_bind]
    refine (Capability.obeys_applies c h history).mono fun later applies _ _ => ?_
    rw [obeys_bind]
    exact (ih later).mono fun _ _ _ _ => trivial

/-! ### The capability that writes -/

variable {σ : Type} {p : Provider σ}

/-- Writing through each of a list of capabilities turns out not to be applicable, with some calls
and from one state to another. -/
inductive PassedOver (p : Provider σ) (h : Handle) (v : String) :
    List Capability → σ → List Call → σ → Prop where
  | nil (s : σ) : PassedOver p h v [] s [] s
  | cons {c : Capability} {cs : List Capability} {s s₁ s₂ : σ} {calls : List Call}
      (hfirst : (c.write h v).run p s = (.ok .notApplicable, s₁))
      (hrest : PassedOver p h v cs s₁ calls s₂) :
      PassedOver p h v (c :: cs) s ((c.write h v).calls p s ++ calls) s₂

theorem PassedOver.mutates_eq_false {cs : List Capability} {s s' : σ} {calls : List Call}
    (hpassed : PassedOver p h v cs s calls s') : ∀ call ∈ calls, call.request.mutates = false := by
  induction hpassed with
  | nil => simp
  | @cons c cs s s₁ s₂ calls hfirst hrest ih =>
    have hquestions := ((Capability.obeys_write c h v []).ends_of_run p hfirst rfl).2
    rw [List.nil_append] at hquestions
    intro call hcall
    rcases List.mem_append.mp hcall with hcall | hcall
    · rcases hquestions call hcall with hnone | hmutates
      · contradiction
      · exact hmutates
    · exact ih call hcall

theorem write_structural_ne (s : σ) :
    (Capability.structural.write h v).result p s ≠ .ok .notApplicable := by
  intro hresult
  have hrun : (Capability.structural.write h v).run p s =
      (.ok .notApplicable, (Capability.structural.write h v).after p s) := Prod.ext hresult rfl
  exact ((Capability.obeys_write .structural h v []).ends_of_run p hrun rfl).1 rfl

theorem writeThrough_stops (p : Provider σ) (h : Handle) (v : String) {cs : List Capability}
    (hstructural : .structural ∈ cs) (s : σ) :
    ∃ passed c later calls s', cs = passed ++ c :: later ∧ PassedOver p h v passed s calls s' ∧
      (c.write h v).result p s' ≠ .ok .notApplicable ∧
      (writeThrough h v cs).run p s = (c.write h v).run p s' ∧
      (writeThrough h v cs).calls p s = calls ++ (c.write h v).calls p s' := by
  induction cs generalizing s with
  | nil => contradiction
  | cons c cs ih =>
    rw [writeThrough, run_bind, calls_bind]
    by_cases hresult : (c.write h v).result p s = .ok .notApplicable
    · have hrun : (c.write h v).run p s = (.ok .notApplicable, (c.write h v).after p s) :=
        Prod.ext hresult rfl
      have hlater : .structural ∈ cs := by
        rcases List.mem_cons.mp hstructural with rfl | hlater
        · exact absurd hresult (write_structural_ne s)
        · exact hlater
      obtain ⟨passed, d, later, calls, s', rfl, hpassed, hstops, hends, hcalls⟩ :=
        ih hlater ((c.write h v).after p s)
      refine ⟨c :: passed, d, later, _, s', rfl, .cons hrun hpassed, hstops, ?_, ?_⟩
      · rw [hrun]
        exact hends
      · rw [hrun, List.append_assoc, ← hcalls]
    · refine ⟨[], c, cs, [], s, rfl, .nil s, hresult, ?_⟩
      rw [result] at hresult
      rcases hrun : (c.write h v).run p s with ⟨_ | outcome, s₁⟩
      · exact ⟨rfl, by simp⟩
      · rw [hrun] at hresult
        cases outcome with
        | notApplicable => exact absurd rfl hresult
        | success => exact ⟨rfl, List.append_nil _⟩
        | failure => exact ⟨rfl, List.append_nil _⟩

/-- The runs of reading, writing, listing capabilities and searching make only calls that a provider
can count on, and whatever writing changes it changes through one capability, the first that does not
turn out to be inapplicable. -/
theorem disciplined_calls (p : Provider σ) (s : σ) (h : Handle) (v : String) (parent : Handle)
    (scope : Scope) (q : Query) :
    Disciplined p (read h) s ∧ Disciplined p (write h v) s ∧ Disciplined p (capabilities h) s ∧
      Disciplined p (Search.findMatch parent scope q) s ∧
      ∃ passed c later calls s', writeOrder = passed ++ c :: later ∧
        PassedOver p h v passed s calls s' ∧ (c.write h v).result p s' ≠ .ok .notApplicable ∧
        (write h v).run p s = (c.write h v).run p s' ∧
        (write h v).calls p s = calls ++ (c.write h v).calls p s' ∧
        ∀ call ∈ calls, call.request.mutates = false := by
  refine ⟨(obeys_readThrough h _ []).disciplined p s, (obeys_writeThrough h v _ []).disciplined p s,
    (obeys_among h _ []).disciplined p s, (Search.obeys_findMatch parent scope q).disciplined p s, ?_⟩
  have hstructural : Capability.structural ∈ writeOrder := by decide
  obtain ⟨passed, c, later, calls, s', horder, hpassed, hstops, hrun, hcalls⟩ :=
    writeThrough_stops p h v hstructural s
  exact ⟨passed, c, later, calls, s', horder, hpassed, hstops, hrun, hcalls,
    hpassed.mutates_eq_false⟩

end ValueAccess

end ElementQuery
