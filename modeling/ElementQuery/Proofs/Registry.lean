import ElementQuery.Proofs.Text.Character
import ElementQuery.Property
import Mathlib.Data.List.Nodup

/-!
# Looking names up

A table answers with the first entry whose name is spelled like the name asked for. When no two
names of a table are spellings of one name, the order of its entries does not matter: what is found
is what the table lists. Both tables of the library are of that kind, and their names are written in
ASCII letters, so that a spelling holds nothing but letters and white space.
-/

namespace ElementQuery

open Text

namespace Registry

variable {α : Type} {r : Registry α}

/-- Holds of the tables in which no two names are spellings of one name. -/
def Distinct (r : Registry α) : Prop :=
  (r.entries.map fun entry => normalize entry.1.toList).Nodup

/-- Holds of the tables whose names are written in ASCII letters. -/
def InLetters (r : Registry α) : Prop :=
  ∀ entry ∈ r.entries, ∀ c ∈ normalize entry.1.toList, isSmall c = true

theorem normalize_trim (name : List Char) : normalize (trim name) = normalize name := by
  rw [normalize, filter_trim, normalize]

theorem sameName_iff {s t : String} :
    sameName s t = true ↔ normalize s.toList = normalize t.toList := by
  rw [sameName, beq_iff_eq]

theorem get?_congr {s t : String} (hsame : normalize s.toList = normalize t.toList) :
    r.get? s = r.get? t := by
  simp only [get?, sameName, hsame]

theorem lookup_eq_ok_iff {name : String} {a : α} :
    r.lookup name = .ok a ↔ r.get? name = some a := by
  rw [lookup]
  cases r.get? name <;> simp

private theorem mem_and_sameName_of_find? {name : String} {entry : String × α}
    (hfind : r.entries.find? (fun entry => sameName entry.1 name) = some entry) :
    entry ∈ r.entries ∧ sameName entry.1 name = true := by
  have hsame := List.find?_some hfind
  exact ⟨List.mem_of_find?_eq_some hfind, by simpa only using hsame⟩

/-- A table of distinct names finds exactly what it lists, under every spelling. -/
theorem get?_eq_some_iff (hdistinct : r.Distinct) {name : String} {a : α} :
    r.get? name = some a ↔ ∃ listed, (listed, a) ∈ r.entries ∧ sameName listed name = true := by
  rw [get?, Option.map_eq_some_iff]
  constructor
  · rintro ⟨⟨listed, b⟩, hfind, rfl⟩
    exact ⟨listed, mem_and_sameName_of_find? hfind⟩
  · rintro ⟨listed, hmem, hsame⟩
    cases hfind : r.entries.find? (fun entry => sameName entry.1 name) with
    | none =>
      rw [List.find?_eq_none] at hfind
      exact (hfind (listed, a) hmem hsame).elim
    | some entry =>
      refine ⟨entry, rfl, ?_⟩
      obtain ⟨hentry, hfound⟩ := mem_and_sameName_of_find? hfind
      have hspelling : normalize entry.1.toList = normalize listed.toList :=
        (sameName_iff.mp hfound).trans (sameName_iff.mp hsame).symm
      have heq : entry = (listed, a) :=
        List.inj_on_of_nodup_map hdistinct hentry hmem hspelling
      rw [heq]

theorem isSmall_lower_of_get? (hletters : r.InLetters) {name : String} {a : α}
    (hget : r.get? name = some a) {c : Char} (hc : c ∈ name.toList) (hblank : isBlank c = false) :
    isSmall (lower c) = true := by
  rw [get?, Option.map_eq_some_iff] at hget
  obtain ⟨entry, hfind, -⟩ := hget
  obtain ⟨hentry, hsame⟩ := mem_and_sameName_of_find? hfind
  have hmem : lower c ∈ normalize name.toList := by
    rw [normalize]
    exact List.mem_map_of_mem (List.mem_filter.mpr ⟨hc, by simp [hblank]⟩)
  rw [← sameName_iff.mp hsame] at hmem
  exact hletters entry hentry _ hmem

end Registry

/-! ### The tables of the library -/

namespace Property

theorem registry_distinct : registry.Distinct := by
  unfold Registry.Distinct
  decide

theorem registry_inLetters : registry.InLetters := by
  have hall : (registry.entries.all fun entry =>
      (Registry.normalize entry.1.toList).all isSmall) = true := by
    decide
  intro entry hentry
  exact List.all_eq_true.mp (List.all_eq_true.mp hall entry hentry)

end Property

namespace ControlType

theorem mem_all (c : ControlType) : c ∈ all := by
  cases c <;> decide

theorem registry_distinct : registry.Distinct := by
  unfold Registry.Distinct
  decide

theorem registry_get?_name (c : ControlType) : registry.get? c.name = some c := by
  rw [Registry.get?_eq_some_iff registry_distinct]
  refine ⟨c.name, ?_, Registry.sameName_iff.mpr rfl⟩
  rw [registry, List.mem_append]
  exact .inl (List.mem_map.mpr ⟨c, mem_all c, rfl⟩)

end ControlType

end ElementQuery
