import ElementQuery.Proofs.Settings
import ElementQuery.Proofs.Text.Split
import ElementQuery.Query

/-!
# The bounds of settings

Whatever is asked of the functions for changes, the timing of settings stays within its bounds. For
a timeout given as a double this is a matter of rounding twice. The double nearest to a tenth is
somewhat above a tenth, and the number of seconds in twenty-four days is a double itself; so what is
strictly between the two is still between the bounds when it is rounded to whole nanoseconds. The
default method is a name of the property table however often it was trimmed since it was accepted,
and a term without a colon can therefore always be looked up.
-/

namespace ElementQuery

open Text

/-! ### Rounding -/

theorem roundToEven_cases (n d : Nat) :
    roundToEven n d = n / d ∨ roundToEven n d = n / d + 1 := by
  simp only [roundToEven]
  split
  · exact .inl rfl
  · split
    · exact .inr rfl
    · split
      · exact .inl rfl
      · exact .inr rfl

theorem div_le_roundToEven (n d : Nat) : n / d ≤ roundToEven n d := by
  rcases roundToEven_cases n d with hround | hround <;> omega

theorem roundToEven_le (n d : Nat) : roundToEven n d ≤ n / d + 1 := by
  rcases roundToEven_cases n d with hround | hround <;> omega

namespace Binary64

theorem atMost_finite_iff {n m : Bool} {u v : Nat} :
    (Binary64.finite n u).atMost (.finite m v) = true ↔ signedUnits n u ≤ signedUnits m v := by
  simp [atMost, less]

theorem lt_of_not_atMost {n : Bool} {u v : Nat}
    (hnot : ¬ (Binary64.finite n u).atMost (.finite false v) = true) : n = false ∧ v < u := by
  rw [atMost_finite_iff] at hnot
  cases n <;> simp only [signedUnits, if_true, Bool.false_eq_true, if_false] at hnot
  · exact ⟨rfl, by omega⟩
  · omega

theorem unitsPerOne_pos : 0 < unitsPerOne := by decide +kernel

def unitsOfTenth : Nat := 7205759403792794 * Nat.pow 2 1018

theorem ofRatio_tenth : ofRatio false 1 10 = .finite false unitsOfTenth := by decide +kernel

theorem unitsPerOne_le : unitsPerOne ≤ 10 * unitsOfTenth := by decide +kernel

theorem ofNat_days : ofNat (24 * 24 * 3600) = .finite false (24 * 24 * 3600 * unitsPerOne) := by
  decide +kernel

end Binary64

namespace Duration

/-- More than the double nearest to a tenth of a second is at least a tenth of a second. -/
theorem le_ofUnits {units : Nat} (hunits : Binary64.unitsOfTenth < units) :
    ofMilliseconds 100 ≤ ofUnits units := by
  refine Nat.le_trans ?_ (div_le_roundToEven _ _)
  rw [Nat.le_div_iff_mul_le Binary64.unitsPerOne_pos]
  have htenth := Binary64.unitsPerOne_le
  generalize Binary64.unitsPerOne = one at htenth ⊢
  generalize Binary64.unitsOfTenth = tenth at hunits htenth
  show 100 * 1000000 * one ≤ units * 1000000000
  omega

/-- Less than a whole number of seconds is at most that number when it is rounded. -/
theorem ofUnits_le {units n : Nat} (hunits : units < n * Binary64.unitsPerOne) :
    ofUnits units ≤ ofSeconds n := by
  refine Nat.le_trans (roundToEven_le _ _) (Nat.succ_le_of_lt ?_)
  rw [Nat.div_lt_iff_lt_mul Binary64.unitsPerOne_pos]
  calc units * perSecond < n * Binary64.unitsPerOne * perSecond :=
        Nat.mul_lt_mul_of_pos_right hunits (by decide)
    _ = ofSeconds n * Binary64.unitsPerOne := Nat.mul_right_comm ..

end Duration

namespace Settings

/-! ### Timing -/

theorem clampTimeout_bounds (seconds : Binary64) :
    minTimeout ≤ clampTimeout seconds ∧ clampTimeout seconds ≤ maxTimeout := by
  have hle : minTimeout ≤ maxTimeout := by decide
  cases seconds with
  | nan => exact ⟨Nat.le_refl _, hle⟩
  | infinity negative =>
    cases negative with
    | true => exact ⟨Nat.le_refl _, hle⟩
    | false => exact ⟨hle, Nat.le_refl _⟩
  | finite negative units =>
    rw [clampTimeout, Binary64.ofRatio_tenth, Binary64.ofNat_days]
    split
    · exact ⟨Nat.le_refl _, hle⟩
    · next habove =>
      obtain ⟨rfl, hlower⟩ := Binary64.lt_of_not_atMost habove
      split
      · exact ⟨hle, Nat.le_refl _⟩
      · next hbelow =>
        obtain ⟨-, hupper⟩ := Binary64.lt_of_not_atMost hbelow
        exact ⟨Duration.le_ofUnits hlower, Duration.ofUnits_le hupper⟩

/-- Holds of settings whose timing is within the bounds. -/
structure WithinBounds (s : Settings) : Prop where
  minTimeout_le : minTimeout ≤ s.timeout
  timeout_le : s.timeout ≤ maxTimeout
  minPollInterval_le : minPollInterval ≤ s.pollInterval

theorem withinBounds_initial : initial.WithinBounds := by
  constructor <;> decide

theorem WithinBounds.withDefaultMethod {s : Settings} (hs : s.WithinBounds) (name : String) :
    (s.withDefaultMethod name).WithinBounds := by
  rw [Settings.withDefaultMethod]
  split
  · exact { hs with }
  · exact hs

theorem WithinBounds.withTimeout {s : Settings} (hs : s.WithinBounds) (seconds : Binary64) :
    (s.withTimeout seconds).WithinBounds where
  minTimeout_le := (clampTimeout_bounds seconds).1
  timeout_le := (clampTimeout_bounds seconds).2
  minPollInterval_le := hs.minPollInterval_le

theorem WithinBounds.withPollInterval {s : Settings} (hs : s.WithinBounds) (interval : Duration) :
    (s.withPollInterval interval).WithinBounds :=
  { hs with minPollInterval_le := Nat.le_max_right interval minPollInterval }

theorem Adjusted.withinBounds {s : Settings} (hs : s.Adjusted) : s.WithinBounds := by
  induction hs with
  | initial => exact withinBounds_initial
  | withDefaultMethod _ name ih => exact ih.withDefaultMethod name
  | withTimeout _ seconds ih => exact ih.withTimeout seconds
  | withPollInterval _ interval ih => exact ih.withPollInterval interval

/-! ### Terms without a method -/

theorem Named.exists_lookup {s : Settings} (hs : s.Named) :
    ∃ p, Property.registry.lookup s.defaultMethod = .ok p := by
  obtain ⟨p, hget⟩ := Registry.contains_iff.mp hs.1
  exact ⟨p, Registry.lookup_eq_ok_iff.mpr hget⟩

end Settings

theorem Locator.method_ofChars {term : List Char} (hcolon : ':' ∉ term) (method : String) :
    (Locator.ofChars term method.toList).method = method := by
  rw [Locator.ofChars, splitFirst_eq_none hcolon]
  exact String.ofList_toList

namespace Settings

/-- In settings that can occur the timeout is between a tenth of a second and twenty-four days, the
pause is a millisecond at least, and the default method is a name of the property table without
white space around it. A name that is refused changes nothing. And the default method is what the
terms of a query without a colon are looked up by, so none of them is unrecognized. -/
theorem bounds_of_built {s : Settings} (hs : s.Built) :
    Duration.ofMilliseconds 100 ≤ s.timeout ∧ s.timeout ≤ Duration.ofSeconds (24 * 24 * 3600) ∧
    Duration.ofMilliseconds 1 ≤ s.pollInterval ∧
    acceptsMethod s.defaultMethod = true ∧ IsTrimmed s.defaultMethod.toList ∧
    (∀ name : String, acceptsMethod name = false → s.withDefaultMethod name = s) ∧
    ∃ p, Property.registry.lookup s.defaultMethod = .ok p ∧
      ∀ (text : String) (i : Nat) (term : List Char),
        (splitAt Query.delimiter text.toList)[i]? = some term → ':' ∉ term →
        ∃ l, (Query.parse text s.defaultMethod).locators[i]? = some l ∧ l.property = .ok p := by
  obtain ⟨hlower, hupper, hpause⟩ := hs.adjusted.withinBounds
  obtain ⟨haccepts, htrimmed⟩ := hs.named
  obtain ⟨p, hlookup⟩ := hs.named.exists_lookup
  refine ⟨hlower, hupper, hpause, haccepts, htrimmed, ?_, p, hlookup, ?_⟩
  · intro name hrefused
    rw [withDefaultMethod, hrefused]
    rfl
  · intro text i term hterm hcolon
    refine ⟨Locator.ofChars term s.defaultMethod.toList, ?_, ?_⟩
    · rw [Query.parse, Query.ofChars, List.getElem?_map, hterm, Option.map_some]
    · rw [Locator.property, Locator.method_ofChars hcolon, hlookup]

/-- A name is stored as it was spelled, and a term without a colon is still looked up by it. -/
theorem bounds_of_built_control_type :
    let s := ((initial.withDefaultMethod " control  Type ").withTimeout .nan).withPollInterval 0
    s.Built ∧ s.defaultMethod = "control  Type" ∧ Duration.ofMilliseconds 100 ≤ s.timeout ∧
      ∃ l, (Query.parse "Name:OK && Button[1]" s.defaultMethod).locators[1]? = some l ∧
        l.property = .ok .controlType := by
  intro s
  have hs : s.Built := ((Built.initial.withDefaultMethod _).withTimeout _).withPollInterval _
  have hmethod : s.defaultMethod = "control  Type" := by decide
  obtain ⟨hlower, -, -, -, -, -, p, hlookup, hterms⟩ := bounds_of_built hs
  have hp : p = .controlType := by
    rw [hmethod] at hlookup
    exact Except.ok.inj (hlookup.symm.trans (by decide))
  subst hp
  exact ⟨hs, hmethod, hlower, hterms "Name:OK && Button[1]" 1 "Button[1]".toList (by decide)
    (by decide)⟩

end Settings

end ElementQuery
