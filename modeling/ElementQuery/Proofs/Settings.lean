import ElementQuery.Proofs.Registry
import ElementQuery.Settings.Stored

/-!
# The settings that can occur

Settings come from the initial ones, the environment or stored text, and are changed by functions
that refuse or adjust what is out of bounds. What the environment and stored text have to say goes
through the same functions, so all settings are initial ones that were changed some number of times.
The default method is therefore always a name of the property table, written without white space
around it, and holds nothing of the grammar of queries.
-/

namespace ElementQuery

open Text

namespace Registry

variable {α : Type} {r : Registry α}

theorem contains_iff {name : String} : r.contains name = true ↔ ∃ a, r.get? name = some a := by
  rw [contains, get?, List.any_eq_true]
  constructor
  · rintro ⟨entry, hentry, hsame⟩
    cases hfind : r.entries.find? (fun entry => sameName entry.1 name) with
    | some found => exact ⟨found.2, rfl⟩
    | none => exact absurd hsame (List.find?_eq_none.mp hfind entry hentry)
  · rintro ⟨a, hget⟩
    obtain ⟨entry, hfind, -⟩ := Option.map_eq_some_iff.mp hget
    have hsame := List.find?_some hfind
    exact ⟨entry, List.mem_of_find?_eq_some hfind, by simpa only using hsame⟩

theorem contains_trimmed (name : String) : r.contains (trimmed name) = r.contains name := by
  simp only [contains, sameName, trimmed, String.toList_ofList, normalize_trim]

end Registry

namespace Settings

/-- Holds of the settings that the functions of the library make. -/
inductive Built : Settings → Prop where
  | initial : Built initial
  | ofEnvironment (method timeout : Option String) : Built (ofEnvironment method timeout)
  | ofText {text : String} {s : Settings} (htext : ofText text = .ok s) : Built s
  | ofFile {content : Option ByteArray} {s : Settings} (hfile : ofFile content = .ok s) : Built s
  | withDefaultMethod {s : Settings} (hs : Built s) (name : String) : Built (s.withDefaultMethod name)
  | withTimeout {s : Settings} (hs : Built s) (seconds : Binary64) : Built (s.withTimeout seconds)
  | withPollInterval {s : Settings} (hs : Built s) (interval : Duration) :
    Built (s.withPollInterval interval)

/-- Holds of the settings that the functions for changes make of the initial ones. -/
inductive Adjusted : Settings → Prop where
  | initial : Adjusted initial
  | withDefaultMethod {s : Settings} (hs : Adjusted s) (name : String) :
    Adjusted (s.withDefaultMethod name)
  | withTimeout {s : Settings} (hs : Adjusted s) (seconds : Binary64) :
    Adjusted (s.withTimeout seconds)
  | withPollInterval {s : Settings} (hs : Adjusted s) (interval : Duration) :
    Adjusted (s.withPollInterval interval)

theorem adjusted_ofEnvironment (method timeout : Option String) :
    (ofEnvironment method timeout).Adjusted := by
  unfold ofEnvironment
  cases timeout.bind fun text => Binary64.read? (trim text.toList) with
  | none =>
    cases method with
    | none => exact .initial
    | some name => exact Adjusted.initial.withDefaultMethod name
  | some seconds =>
    cases method with
    | none => exact Adjusted.initial.withTimeout seconds
    | some name => exact (Adjusted.initial.withDefaultMethod name).withTimeout seconds

theorem adjusted_of_ofJson? {value : Json} {s : Settings} (hvalue : ofJson? value = some s) :
    s.Adjusted := by
  unfold ofJson? at hvalue
  obtain ⟨⟨rest, fields⟩, -, hfields⟩ := Option.bind_eq_some_iff.mp hvalue
  split at hfields
  · next method seconds milliseconds heq =>
    obtain ⟨name, -, hrest⟩ := Option.bind_eq_some_iff.mp hfields
    obtain ⟨seconds, -, hrest⟩ := Option.bind_eq_some_iff.mp hrest
    obtain ⟨milliseconds, -, hrest⟩ := Option.bind_eq_some_iff.mp hrest
    obtain rfl := Option.some.inj hrest
    have hmethod : (name.elim Settings.initial Settings.initial.withDefaultMethod).Adjusted := by
      cases name with
      | none => exact .initial
      | some name => exact Adjusted.initial.withDefaultMethod name
    generalize name.elim Settings.initial Settings.initial.withDefaultMethod = s at hmethod
    have hseconds : (seconds.elim s s.withTimeout).Adjusted := by
      cases seconds with
      | none => exact hmethod
      | some seconds => exact hmethod.withTimeout seconds
    cases milliseconds with
    | none => exact hseconds
    | some n => exact hseconds.withPollInterval _
  · contradiction

theorem adjusted_of_ofText {text : String} {s : Settings} (htext : ofText text = .ok s) :
    s.Adjusted := by
  rw [ofText] at htext
  split at htext
  · next found hfound =>
    obtain rfl := Except.ok.inj htext
    obtain ⟨value, -, hvalue⟩ := Option.bind_eq_some_iff.mp hfound
    exact adjusted_of_ofJson? hvalue
  · contradiction

/-- The environment and stored text come into settings through the functions for changes only. -/
theorem Built.adjusted {s : Settings} (hs : s.Built) : s.Adjusted := by
  induction hs with
  | initial => exact .initial
  | ofEnvironment method timeout => exact adjusted_ofEnvironment method timeout
  | ofText htext => exact adjusted_of_ofText htext
  | ofFile hfile =>
    rw [Settings.ofFile] at hfile
    split at hfile
    · exact adjusted_of_ofText hfile
    · contradiction
  | withDefaultMethod _ name ih => exact ih.withDefaultMethod name
  | withTimeout _ seconds ih => exact ih.withTimeout seconds
  | withPollInterval _ interval ih => exact ih.withPollInterval interval

/-! ### The default method -/

/-- Holds of settings whose default method is a name without white space around it. -/
def Named (s : Settings) : Prop :=
  acceptsMethod s.defaultMethod = true ∧ IsTrimmed s.defaultMethod.toList

theorem named_initial : initial.Named := by
  unfold Named
  decide

theorem Named.withDefaultMethod {s : Settings} (hs : s.Named) (name : String) :
    (s.withDefaultMethod name).Named := by
  rw [Settings.withDefaultMethod]
  split
  · next haccepts =>
    refine ⟨?_, ?_⟩
    · rw [acceptsMethod, Registry.contains_trimmed]
      exact haccepts
    · rw [trimmed, String.toList_ofList]
      exact isTrimmed_trim _
  · exact hs

theorem Adjusted.named {s : Settings} (hs : s.Adjusted) : s.Named := by
  induction hs with
  | initial => exact named_initial
  | withDefaultMethod _ name ih => exact ih.withDefaultMethod name
  | withTimeout _ _ ih => exact ih
  | withPollInterval _ _ ih => exact ih

theorem Built.named {s : Settings} (hs : s.Built) : s.Named :=
  hs.adjusted.named

/-- A default method holds nothing but letters and white space. -/
theorem Named.not_mem {s : Settings} (hs : s.Named) {c : Char} (hblank : isBlank c = false)
    (hletter : isSmall (lower c) = false) : c ∉ s.defaultMethod.toList := by
  intro hc
  obtain ⟨p, hget⟩ := Registry.contains_iff.mp hs.1
  rw [Registry.isSmall_lower_of_get? Property.registry_inLetters hget hc hblank] at hletter
  contradiction

end Settings

end ElementQuery
