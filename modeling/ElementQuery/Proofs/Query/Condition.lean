import ElementQuery.Condition
import ElementQuery.Tree.Spec

/-!
# What a query means

A query without a mistake stands for a condition, and one with a mistake for an error. Which of the two
it is can be told from the text.
-/

namespace ElementQuery

/-! ## What a condition asks for

The condition that a query stands for is a conjunction with special cases: no condition for no
locator and for a single empty one, and no conjunction for a single locator. Whatever its form, it
holds of an element exactly when each locator finds the value it stands for among the properties of
the element.
-/

/-- Whether a locator finds the value that it stands for among the properties of an element. -/
def Locator.admits (l : Locator) (ps : Properties) : Bool :=
  match l.property, l.target with
  | .ok p, .ok v => ps.get? p == some v
  | _, _ => false

/-- Whether all locators of a query find their values; a single empty one need not. -/
def Query.admits (q : Query) (ps : Properties) : Bool :=
  match q.locators with
  | [] => true
  | [only] => (only.method == "" && only.criterion == "") || only.admits ps
  | ls => ls.all fun l => l.admits ps

theorem Locator.isEmpty_eq (l : Locator) :
    l.isEmpty = (l.method == "" && l.criterion == "") := by
  have hempty : ∀ s : String, s.toList.isEmpty = (s == "") := by
    intro s
    rw [Bool.eq_iff_iff, List.isEmpty_iff, beq_iff_eq, String.toList_eq_nil_iff]
  rw [isEmpty, hempty, hempty]

theorem Locator.holds_of_condition {l : Locator} {c : Condition} (hc : l.condition = .ok c)
    (ps : Properties) : c.holds ps.get? = l.admits ps := by
  rw [Locator.condition] at hc
  rw [admits]
  cases hp : l.property with
  | error e =>
    rw [hp] at hc
    contradiction
  | ok p =>
    cases hv : l.target with
    | error e =>
      rw [hp, hv] at hc
      contradiction
    | ok v =>
      rw [hp, hv] at hc
      obtain rfl := Except.ok.inj hc
      rw [Condition.holds]

namespace Query

theorem all_holds_of_conditions {ls : List Locator} {cs : List Condition}
    (hcs : conditions ls = .ok cs) (ps : Properties) :
    cs.all (Condition.holds ps.get?) = ls.all fun l => l.admits ps := by
  induction ls generalizing cs with
  | nil =>
    obtain rfl := Except.ok.inj hcs
    rfl
  | cons l ls ih =>
    rw [conditions] at hcs
    cases hc : l.condition with
    | error e =>
      rw [hc] at hcs
      contradiction
    | ok c =>
      cases hrest : conditions ls with
      | error e =>
        rw [hc, hrest] at hcs
        contradiction
      | ok rest =>
        rw [hc, hrest] at hcs
        obtain rfl := Except.ok.inj hcs
        rw [List.all_cons, List.all_cons, ih hrest, Locator.holds_of_condition hc]

theorem admits_of_isAnything {q : Query} (hanything : q.isAnything = true) (ps : Properties) :
    q.admits ps = true := by
  rw [isAnything] at hanything
  rw [admits]
  match hls : q.locators with
  | [] => rfl
  | [only] =>
    simp only [hls, Locator.isEmpty_eq] at hanything
    simp only [hanything, Bool.true_or]
  | _ :: _ :: _ => simp only [hls, Bool.false_eq_true] at hanything

theorem admits_eq_all {q : Query} (hanything : q.isAnything = false) (ps : Properties) :
    q.admits ps = q.locators.all fun l => l.admits ps := by
  rw [isAnything] at hanything
  rw [admits]
  match hls : q.locators with
  | [] => rfl
  | [only] =>
    simp only [hls, Locator.isEmpty_eq] at hanything
    simp only [hanything, Bool.false_or, List.all_cons, List.all_nil, Bool.and_true]
  | _ :: _ :: _ => rfl

/-- A conjunction of several conditions, or the only one, holds when all of them do. -/
private theorem holds_conjunction {cs : List Condition} {c : Condition}
    (hc : (match cs with
      | [only] => pure only
      | cs => pure (.all cs) : Except Error Condition) = .ok c)
    (lookup : Property → Option PropertyValue) :
    c.holds lookup = cs.all (Condition.holds lookup) := by
  split at hc
  · obtain rfl := Except.ok.inj hc
    rw [List.all_cons, List.all_nil, Bool.and_true]
  · obtain rfl := Except.ok.inj hc
    rw [Condition.holds, Condition.allHold_eq_all]

theorem holds_of_condition {q : Query} {c : Condition} (hc : q.condition = .ok c)
    (ps : Properties) : c.holds ps.get? = q.admits ps := by
  rw [condition] at hc
  cases hanything : q.isAnything with
  | true =>
    rw [hanything, if_pos rfl] at hc
    obtain rfl := Except.ok.inj hc
    rw [Condition.holds, admits_of_isAnything hanything]
  | false =>
    rw [hanything, if_neg Bool.false_ne_true] at hc
    rw [admits_eq_all hanything]
    cases hcs : conditions q.locators with
    | error e =>
      rw [hcs] at hc
      contradiction
    | ok cs =>
      rw [hcs] at hc
      rw [holds_conjunction hc, all_holds_of_conditions hcs]

end Query

/-! ## Mistakes in a query

What a query asks for can fail to have a meaning: its grid address is no address, a locator names no
property, or a criterion is no value of the kind that its property has. All of these are made out of
the text alone, before a provider is asked anything, and each is a usage error. Of several mistakes
the one in the grid address is reported, and otherwise that of the first locator that has one.
-/

theorem bind_eq_ok_iff {ε α β : Type} {x : Except ε α} {f : α → Except ε β} {b : β} :
    x >>= f = .ok b ↔ ∃ a, x = .ok a ∧ f a = .ok b := by
  cases x <;> simp [bind, Except.bind]

theorem bind_eq_error_iff {ε α β : Type} {x : Except ε α} {f : α → Except ε β} {e : ε} :
    x >>= f = .error e ↔ x = .error e ∨ ∃ a, x = .ok a ∧ f a = .error e := by
  cases x <;> simp [bind, Except.bind]

/-! ### Where the errors come from -/

theorem Registry.isUsage_of_lookup {α : Type} {r : Registry α} {name : String} {e : Error}
    (he : r.lookup name = .error e) : e.isUsage = true := by
  rw [lookup] at he
  split at he
  · contradiction
  · obtain rfl := Except.error.inj he
    rfl

namespace GridAddress

theorem error_of_readToken {invalid e : Error} {digits : Option (List Char)}
    (he : readToken invalid digits = .error e) : e = invalid := by
  rw [readToken.eq_def] at he
  split at he
  · contradiction
  · split at he
    · nomatch he
    · exact (Except.error.inj he).symm

theorem error_of_parse {input : String} {e : Error} (he : parse input = .error e) :
    e = .invalidGridAddress input := by
  rw [parse] at he
  split at he
  · split at he
    · nomatch he
    · exact (Except.error.inj he).symm
  · rcases bind_eq_error_iff.mp he with hrow | ⟨row, -, he⟩
    · exact error_of_readToken hrow
    rcases bind_eq_error_iff.mp he with hcolumn | ⟨column, -, he⟩
    · exact error_of_readToken hcolumn
    cases row <;> cases column
    case none.none => exact (Except.error.inj he).symm
    all_goals nomatch he

end GridAddress

namespace Locator

theorem isUsage_of_gridAddress {l : Locator} {e : Error} (he : l.gridAddress = .error e) :
    e.isUsage = true := by
  rw [gridAddress] at he
  split at he
  · cases hparse : GridAddress.parse l.grid with
    | ok a => simp [hparse, Except.map] at he
    | error e' =>
      rw [hparse] at he
      obtain rfl := Except.error.inj he
      rw [GridAddress.error_of_parse hparse]
      rfl
  · contradiction

theorem isUsage_of_target {l : Locator} {e : Error} (he : l.target = .error e) :
    e.isUsage = true := by
  rw [target, bind_eq_error_iff] at he
  rcases he with hproperty | ⟨p, -, he⟩
  · exact Registry.isUsage_of_lookup hproperty
  cases hkind : p.valueKind <;> rw [hkind] at he <;> simp only at he
  case text => contradiction
  case controlType =>
    rcases bind_eq_error_iff.mp he with hcontrol | ⟨control, -, ⟨⟩⟩
    exact Registry.isUsage_of_lookup hcontrol
  case integer | boolean =>
    split at he
    · nomatch he
    · obtain rfl := Except.error.inj he
      rfl

theorem isUsage_of_condition {l : Locator} {e : Error} (he : l.condition = .error e) :
    e.isUsage = true := by
  rw [condition, bind_eq_error_iff] at he
  rcases he with hproperty | ⟨p, -, he⟩
  · exact Registry.isUsage_of_lookup hproperty
  rcases bind_eq_error_iff.mp he with htarget | ⟨v, -, ⟨⟩⟩
  exact isUsage_of_target htarget

end Locator

/-! ### The mistake that is reported -/

namespace Query

variable {q : Query} {e : Error}

/-- The error of several locators is that of the first one that has an error. -/
theorem conditions_eq_error_iff {ls : List Locator} :
    conditions ls = .error e ↔ ∃ before l after, ls = before ++ l :: after ∧
      (∀ k ∈ before, ∃ c, k.condition = .ok c) ∧ l.condition = .error e := by
  induction ls with
  | nil => simp [conditions]
  | cons l ls ih =>
    rw [conditions, bind_eq_error_iff]
    constructor
    · rintro (hfirst | ⟨c, hc, hrest⟩)
      · exact ⟨[], l, ls, rfl, by simp, hfirst⟩
      · rcases bind_eq_error_iff.mp hrest with hrest | ⟨cs, -, ⟨⟩⟩
        obtain ⟨before, k, after, rfl, hbefore, hk⟩ := ih.mp hrest
        exact ⟨l :: before, k, after, rfl, List.forall_mem_cons.mpr ⟨⟨c, hc⟩, hbefore⟩, hk⟩
    · rintro ⟨before, k, after, hls, hbefore, hk⟩
      rcases List.cons_eq_append_iff.mp hls with ⟨rfl, hcons⟩ | ⟨before, rfl, rfl⟩
      · obtain ⟨rfl, -⟩ := List.cons.inj hcons
        exact .inl hk
      · obtain ⟨⟨c, hc⟩, hbefore⟩ := List.forall_mem_cons.mp hbefore
        refine .inr ⟨c, hc, bind_eq_error_iff.mpr (.inl ?_)⟩
        exact ih.mpr ⟨before, k, after, rfl, hbefore, hk⟩

theorem exists_conditions_eq_error_iff {ls : List Locator} :
    (∃ e, conditions ls = .error e) ↔ ∃ l ∈ ls, ∃ e, l.condition = .error e := by
  constructor
  · rintro ⟨e, he⟩
    obtain ⟨before, l, after, rfl, -, hl⟩ := conditions_eq_error_iff.mp he
    exact ⟨l, by simp, e, hl⟩
  · rintro ⟨l, hl, e, he⟩
    induction ls with
    | nil => contradiction
    | cons k ls ih =>
      rw [conditions]
      rcases List.mem_cons.mp hl with rfl | hlater
      · exact ⟨e, bind_eq_error_iff.mpr (.inl he)⟩
      · obtain ⟨e', he'⟩ := ih hlater
        cases hk : k.condition with
        | error e'' => exact ⟨e'', rfl⟩
        | ok c => exact ⟨e', bind_eq_error_iff.mpr (.inr ⟨c, rfl, bind_eq_error_iff.mpr (.inl he')⟩)⟩

theorem condition_eq_error_iff :
    q.condition = .error e ↔ q.isAnything = false ∧ conditions q.locators = .error e := by
  rw [condition]
  cases q.isAnything with
  | true => simp
  | false =>
    rw [if_neg Bool.false_ne_true, bind_eq_error_iff]
    simp only [true_and, or_iff_left_iff_imp]
    rintro ⟨cs, -, hcs⟩
    split at hcs <;> contradiction

theorem isUsage_of_gridAddress (he : q.gridAddress = .error e) : e.isUsage = true := by
  rw [gridAddress] at he
  split at he
  · exact Locator.isUsage_of_gridAddress he
  · contradiction

theorem isUsage_of_condition (he : q.condition = .error e) : e.isUsage = true := by
  obtain ⟨-, he⟩ := condition_eq_error_iff.mp he
  obtain ⟨-, l, -, -, -, hl⟩ := conditions_eq_error_iff.mp he
  exact Locator.isUsage_of_condition hl

/-- Holds of the error that the text of a query leads to. A query for the main window has no
condition, so only its grid address can be mistaken. -/
def Mistake (q : Query) (e : Error) : Prop :=
  q.gridAddress = .error e ∨
    (∃ a, q.gridAddress = .ok a) ∧ q.isMainWindow = false ∧ q.condition = .error e

theorem Mistake.isUsage (he : q.Mistake e) : e.isUsage = true := by
  rcases he with hgrid | ⟨-, -, hcondition⟩
  · exact isUsage_of_gridAddress hgrid
  · exact isUsage_of_condition hcondition

/-- A query without a mistake has all that a search needs. -/
theorem ok_of_not_mistake (hq : ∀ e, ¬ q.Mistake e) :
    (∃ a, q.gridAddress = .ok a) ∧ (q.isMainWindow = true ∨ ∃ c, q.condition = .ok c) := by
  cases hgrid : q.gridAddress with
  | error e => exact absurd (.inl hgrid) (hq e)
  | ok a =>
    refine ⟨⟨a, rfl⟩, ?_⟩
    cases hmain : q.isMainWindow with
    | true => exact .inl rfl
    | false =>
      cases hcondition : q.condition with
      | ok c => exact .inr ⟨c, rfl⟩
      | error e => exact absurd (.inr ⟨⟨a, hgrid⟩, hmain, hcondition⟩) (hq e)

end Query

end ElementQuery
