import ElementQuery.Provider.Dialogue

/-!
# The requests of a dialogue

Which requests a dialogue makes depends on the answers, but that they keep to a rule can be seen from
the dialogue alone.
-/

namespace ElementQuery

/-! ## Rules for the requests of a dialogue

Which requests a dialogue may make is a matter of the calls before: a rule says whether a request is
allowed after them. That a dialogue obeys a rule is shown along its text, for every answer that the
provider may give, and carries over to the calls of each of its runs. What is known of the calls and
the result where a dialogue ends is shown at the same time, since the dialogue that it goes on with
may depend on it.
-/

namespace Dialogue

variable {α β σ : Type}

/-- Holds of a dialogue that makes only requests that a rule allows, and ends with calls and a result
of which a condition holds unless it ends with an error. -/
def Obeys (rule : List Call → Request → Prop) (ends : List Call → α → Prop) :
    Dialogue α → (history : List Call) → Prop
  | .done a, history => ends history a
  | .fail _, _ => True
  | .ask r next, history =>
    rule history r ∧ ∀ answer, Obeys rule ends (next answer) (history ++ [⟨r, .ok answer⟩])

variable {rule : List Call → Request → Prop} {ends : List Call → α → Prop} {d : Dialogue α}
  {history : List Call}

theorem obeys_bind {f : α → Dialogue β} {ends : List Call → β → Prop} :
    Obeys rule ends (d >>= f) history ↔
      Obeys rule (fun later a => Obeys rule ends (f a) later) d history := by
  induction d generalizing history with
  | done a => rfl
  | fail e => rfl
  | ask r next ih =>
    rw [ask_bind, Obeys, Obeys]
    exact and_congr_right fun _ => forall_congr' fun answer => ih answer

theorem obeys_request_bind {r : Request} {f : r.Answer → Dialogue β} {ends : List Call → β → Prop} :
    Obeys rule ends (request r >>= f) history ↔
      rule history r ∧ ∀ answer, Obeys rule ends (f answer) (history ++ [⟨r, .ok answer⟩]) :=
  Iff.rfl

theorem Obeys.mono {others : List Call → α → Prop} (hd : Obeys rule ends d history)
    (hends : ∀ later a, history <+: later → ends later a → others later a) :
    Obeys rule others d history := by
  induction d generalizing history with
  | done a => exact hends history a (List.prefix_refl _) hd
  | fail e => trivial
  | ask r next ih =>
    refine ⟨hd.1, fun answer => ih answer (hd.2 answer) fun later a hlater => ?_⟩
    exact hends later a ((List.prefix_append _ _).trans hlater)

theorem obeys_ofExcept {result : Except Error α} (hends : ∀ a, ends history a) :
    Obeys rule ends (ofExcept result) history := by
  cases result with
  | ok a => exact hends a
  | error e => trivial

/-- Every call of a run was allowed after the calls before it. -/
theorem Obeys.rule_of_calls (hd : Obeys rule ends d history) (p : Provider σ) (s : σ)
    {before after : List Call} {call : Call} (hcalls : d.calls p s = before ++ call :: after) :
    rule (history ++ before) call.request := by
  induction d generalizing history s before with
  | done a => simp [calls] at hcalls
  | fail e => simp [calls] at hcalls
  | ask r next ih =>
    rw [calls] at hcalls
    split at hcalls
    · next answer s₁ hanswer =>
      rcases List.cons_eq_append_iff.mp hcalls with ⟨rfl, hfirst⟩ | ⟨others, rfl, hrest⟩
      · obtain ⟨rfl, -⟩ := List.cons.inj hfirst
        rw [List.append_nil]
        exact hd.1
      · have hlater := ih answer (hd.2 answer) s₁ hrest
        rwa [List.append_assoc] at hlater
    · rcases List.cons_eq_append_iff.mp hcalls with ⟨rfl, hfirst⟩ | ⟨others, -, hrest⟩
      · obtain ⟨rfl, -⟩ := List.cons.inj hfirst
        rw [List.append_nil]
        exact hd.1
      · simp at hrest

theorem Obeys.ends_of_run (hd : Obeys rule ends d history) (p : Provider σ) {s s' : σ} {a : α}
    (hrun : d.run p s = (.ok a, s')) : ends (history ++ d.calls p s) a := by
  induction d generalizing history s with
  | done b =>
    obtain ⟨hresult, -⟩ := Prod.mk.inj hrun
    obtain rfl := Except.ok.inj hresult
    rw [calls, List.append_nil]
    exact hd
  | fail e => exact absurd (Prod.mk.inj hrun).1 (by simp)
  | ask r next ih =>
    rw [run] at hrun
    rw [calls]
    split at hrun
    · next answer s₁ hanswer =>
      have hlater := ih answer (hd.2 answer) hrun
      rw [List.append_assoc] at hlater
      exact hlater
    · exact absurd (Prod.mk.inj hrun).1 (by simp)

/-- A call that is answered by an error is the last one, and the error is the result. -/
theorem error_of_calls (p : Provider σ) {s : σ} {before after : List Call} {r : Request} {e : Error}
    (hcalls : d.calls p s = before ++ ⟨r, .error e⟩ :: after) :
    after = [] ∧ d.result p s = .error e := by
  induction d generalizing s before with
  | done a => simp [calls] at hcalls
  | fail e => simp [calls] at hcalls
  | ask q next ih =>
    rw [result, run]
    rw [calls] at hcalls
    split at hcalls
    · next answer s₁ hanswer =>
      rcases List.cons_eq_append_iff.mp hcalls with ⟨-, hfirst⟩ | ⟨others, -, hrest⟩
      · cases (List.cons.inj hfirst).1
      · exact ih answer hrest
    · rcases List.cons_eq_append_iff.mp hcalls with ⟨-, hfirst⟩ | ⟨others, -, hrest⟩
      · obtain ⟨hcall, hafter⟩ := List.cons.inj hfirst
        cases hcall
        exact ⟨hafter, rfl⟩
      · simp at hrest

end Dialogue

/-! ## Calls that a provider can count on

A provider is asked for what belongs to a pattern only after it has said that the element supports
the pattern. It is asked for a cell of a grid only after it has told the numbers of rows and columns,
each of them once, and only for a cell within them. After an error it is asked for nothing more.
-/

def Request.pattern? : Request → Option Pattern
  | .value _ | .setValue _ _ | .isValueReadOnly _ => some .value
  | .rangeValue _ | .setRangeValue _ _ | .rangeBounds _ | .isRangeReadOnly _ => some .rangeValue
  | .text _ => some .text
  | .toggleState _ | .toggle _ => some .toggle
  | .selectedItems _ | .canSelectMultiple _ => some .selection
  | .isSelected _ | .select _ | .addToSelection _ | .removeFromSelection _ => some .selectionItem
  | .legacyValue _ | .setLegacyValue _ _ => some .legacyAccessible
  | .rowCount _ | .columnCount _ | .gridItem _ _ _ => some .grid
  | .rowHeaders _ | .columnHeaders _ => some .table
  | .findFirst _ _ _ | .property _ _ | .parent _ | .supports _ _ | .setFocus _ | .sendKeys _ _ => none

/-- Holds of the requests that are made to change something. -/
def Request.mutates : Request → Bool
  | .setValue _ _ | .setRangeValue _ _ | .toggle _ | .select _ | .addToSelection _
  | .removeFromSelection _ | .setLegacyValue _ _ | .setFocus _ | .sendKeys _ _ => true
  | _ => false

namespace Dialogue

variable {α σ : Type}

def Supported (history : List Call) (h : Handle) (pattern : Pattern) : Prop :=
  ⟨.supports h pattern, .ok true⟩ ∈ history

/-- Holds of a run whose calls a provider can count on. -/
structure Disciplined (p : Provider σ) (d : Dialogue α) (s : σ) : Prop where
  supported : ∀ before call after, d.calls p s = before ++ call :: after →
    ∀ pattern ∈ call.request.pattern?, Supported before call.request.element pattern
  counted : ∀ before g row column answer after,
    d.calls p s = before ++ ⟨.gridItem g row column, answer⟩ :: after →
      (∃ rows, ⟨.rowCount g, .ok rows⟩ ∈ before) ∧ ∃ columns, ⟨.columnCount g, .ok columns⟩ ∈ before
  within : ∀ g row column answer, ⟨.gridItem g row column, answer⟩ ∈ d.calls p s →
    (∀ rows, ⟨.rowCount g, .ok rows⟩ ∈ d.calls p s → row < rows) ∧
      ∀ columns, ⟨.columnCount g, .ok columns⟩ ∈ d.calls p s → column < columns
  error_last : ∀ before r e after, d.calls p s = before ++ ⟨r, .error e⟩ :: after →
    after = [] ∧ d.result p s = .error e

/-! ### The rule -/

/-- Holds of a request that may be made after the calls so far. -/
structure Licensed (history : List Call) (r : Request) : Prop where
  supported : ∀ pattern ∈ r.pattern?, Supported history r.element pattern
  counted : ∀ g row column, r = .gridItem g row column →
    (∃ rows, ⟨.rowCount g, .ok rows⟩ ∈ history ∧ row < rows) ∧
      ∃ columns, ⟨.columnCount g, .ok columns⟩ ∈ history ∧ column < columns
  once : ∀ g, r = .rowCount g ∨ r = .columnCount g → ∀ call ∈ history, call.request ≠ r

theorem Supported.append {history : List Call} {h : Handle} {pattern : Pattern}
    (hsupported : Supported history h pattern) (others : List Call) :
    Supported (history ++ others) h pattern :=
  List.mem_append_left others hsupported

/-- Apart from grids, a request may be made as soon as its pattern is known to be supported. -/
theorem licensed_of_supported {history : List Call} {r : Request} (hgrid : r.pattern? ≠ some .grid)
    (hsupported : ∀ pattern ∈ r.pattern?, Supported history r.element pattern) :
    Licensed history r := by
  refine ⟨hsupported, ?_, ?_⟩
  · rintro g row column rfl
    exact absurd rfl hgrid
  · rintro g (rfl | rfl)
    · exact absurd rfl hgrid
    · exact absurd rfl hgrid

theorem licensed_of_pattern?_eq_none {history : List Call} {r : Request} (hr : r.pattern? = none) :
    Licensed history r := by
  apply licensed_of_supported
  · simp [hr]
  · simp [hr]

theorem Supported.licensed {history : List Call} {h : Handle} {pattern : Pattern}
    (hsupported : Supported history h pattern) (hgrid : pattern ≠ .grid) {r : Request}
    (hpattern : r.pattern? = some pattern) (helement : r.element = h) : Licensed history r := by
  apply licensed_of_supported
  · rw [hpattern, ne_eq, Option.some.injEq]
    exact hgrid
  · intro other hother
    rw [hpattern, Option.mem_some_iff] at hother
    rw [← hother, helement]
    exact hsupported

theorem Supported.licensed_count {history : List Call} {g : Handle}
    (hgrid : Supported history g .grid) {r : Request} (hr : r = .rowCount g ∨ r = .columnCount g)
    (hnew : ∀ call ∈ history, call.request ≠ r) : Licensed history r := by
  refine ⟨fun pattern hpattern => ?_, ?_, fun _ _ => hnew⟩
  · rcases hr with rfl | rfl
    · obtain rfl := Option.some.inj hpattern
      exact hgrid
    · obtain rfl := Option.some.inj hpattern
      exact hgrid
  · rintro other row column rfl
    rcases hr with hr | hr
    · contradiction
    · contradiction

theorem Supported.licensed_gridItem {history : List Call} {g : Handle}
    (hgrid : Supported history g .grid) {row rows column columns : Nat}
    (hrows : ⟨.rowCount g, .ok rows⟩ ∈ history) (hrow : row < rows)
    (hcolumns : ⟨.columnCount g, .ok columns⟩ ∈ history) (hcolumn : column < columns) :
    Licensed history (.gridItem g row column) := by
  refine ⟨?_, ?_, ?_⟩
  · rintro pattern ⟨⟩
    exact hgrid
  · rintro _ _ _ ⟨⟩
    exact ⟨⟨rows, hrows, hrow⟩, columns, hcolumns, hcolumn⟩
  · rintro other (hother | hother)
    · contradiction
    · contradiction

variable {d : Dialogue α} {ends : List Call → α → Prop}

theorem answer_unique {calls : List Call} {r : Request} {x y : Except Error r.Answer}
    (hlicensed : ∀ before call after, calls = before ++ call :: after → Licensed before call.request)
    {g : Handle} (hr : r = .rowCount g ∨ r = .columnCount g) (hx : ⟨r, x⟩ ∈ calls)
    (hy : ⟨r, y⟩ ∈ calls) : x = y := by
  obtain ⟨before, after, rfl⟩ := List.append_of_mem hx
  rcases List.mem_append.mp hy with hbefore | hrest
  · exact absurd rfl ((hlicensed before _ after rfl).once g hr ⟨r, y⟩ hbefore)
  · rcases List.mem_cons.mp hrest with heq | hafter
    · cases heq
      rfl
    · obtain ⟨between, rest, rfl⟩ := List.append_of_mem hafter
      have hsecond := hlicensed (before ++ ⟨r, x⟩ :: between) ⟨r, y⟩ rest (by simp)
      exact absurd rfl (hsecond.once g hr ⟨r, x⟩ (by simp))

theorem Obeys.disciplined (hd : Obeys Licensed ends d []) (p : Provider σ) (s : σ) :
    Disciplined p d s := by
  have hlicensed : ∀ before call after, d.calls p s = before ++ call :: after →
      Licensed before call.request := fun before call after hcalls => hd.rule_of_calls p s hcalls
  constructor
  · exact fun before call after hcalls => (hlicensed before call after hcalls).supported
  · intro before g row column answer after hcalls
    obtain ⟨⟨rows, hrows, -⟩, columns, hcolumns, -⟩ :=
      (hlicensed before _ after hcalls).counted g row column rfl
    exact ⟨⟨rows, hrows⟩, columns, hcolumns⟩
  · intro g row column answer hitem
    obtain ⟨before, after, hcalls⟩ := List.append_of_mem hitem
    obtain ⟨⟨rows, hrows, hrow⟩, columns, hcolumns, hcolumn⟩ :=
      (hlicensed before _ after hcalls).counted g row column rfl
    have hbefore : ∀ call ∈ before, call ∈ d.calls p s := fun call hcall => by
      rw [hcalls]
      exact List.mem_append_left _ hcall
    constructor
    · intro told htold
      have hsame := answer_unique hlicensed (.inl rfl) (hbefore _ hrows) htold
      exact Except.ok.inj hsame ▸ hrow
    · intro told htold
      have hsame := answer_unique hlicensed (.inr rfl) (hbefore _ hcolumns) htold
      exact Except.ok.inj hsame ▸ hcolumn
  · exact fun before r e after hcalls => error_of_calls p hcalls

end Dialogue

end ElementQuery
