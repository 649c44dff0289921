import ElementQuery.Proofs.Query.GridSuffix
import ElementQuery.Proofs.Text.Split
import ElementQuery.Query
import Mathlib.Data.List.Infix

/-!
# Reading back what was written

A locator and a query are written as text, and the text can be read again. The reader splits the
text at the delimiters, each term at its first colon and the rest of a term at its grid suffix, and
trims what it finds. A query whose fields keep out of the way of all that is read back unchanged,
whatever the default method is.
-/

namespace ElementQuery

open Text

namespace Locator

variable {l : Locator}

/-- What a locator is written as behind the colon. -/
def body (l : Locator) : List Char :=
  l.criterion.toList ++ if l.hasGrid then '[' :: l.grid.toList ++ [']'] else []

theorem chars_eq (l : Locator) : l.chars = l.method.toList ++ ':' :: l.body := by
  simp [chars, body]

theorem hasGrid_eq_false_iff : l.hasGrid = false ↔ l.grid.toList = [] := by
  simp [hasGrid]

theorem body_of_grid_eq_nil (hgrid : l.grid.toList = []) : l.body = l.criterion.toList := by
  rw [body, hasGrid_eq_false_iff.mpr hgrid]
  simp

theorem body_of_grid_ne_nil (hgrid : l.grid.toList ≠ []) :
    l.body = l.criterion.toList ++ '[' :: l.grid.toList ++ [']'] := by
  have hhas : l.hasGrid = true := by
    rw [← Bool.not_eq_false]
    exact fun hnone => hgrid (hasGrid_eq_false_iff.mp hnone)
  rw [body, hhas]
  simp

/-- A locator is read back from its text when its criterion and grid address are split again. -/
theorem ofChars_chars_eq_iff (hcolon : ':' ∉ l.method.toList)
    (hmethod : IsTrimmed l.method.toList) (hbody : IsTrimmed l.body) (defaultMethod : List Char) :
    ofChars l.chars defaultMethod = l ↔
      splitGrid l.body = (l.criterion.toList, l.grid.toList) := by
  have hread : ofChars l.chars defaultMethod =
      ⟨l.method, String.ofList (splitGrid l.body).1, String.ofList (splitGrid l.body).2⟩ := by
    simp only [ofChars, chars_eq, splitFirst_append hcolon, hmethod.trim_eq, hbody.trim_eq,
      String.ofList_toList]
  rw [hread]
  constructor
  · intro heq
    have hcriterion := congrArg Locator.criterion heq
    have hgrid := congrArg Locator.grid heq
    simp only at hcriterion hgrid
    rw [← hcriterion, ← hgrid, String.toList_ofList, String.toList_ofList]
  · intro hsplit
    rw [hsplit, String.ofList_toList, String.ofList_toList]

/-! ### Fields that keep out of the way of the grammar -/

/-- Holds of a locator whose text does not become part of a delimiter that follows. -/
def EndsClear (l : Locator) : Prop :=
  l.hasGrid = false → ¬ [' ', '&', '&'] <:+ l.criterion.toList

instance : DecidablePred EndsClear := fun l =>
  inferInstanceAs (Decidable (l.hasGrid = false → ¬ [' ', '&', '&'] <:+ l.criterion.toList))

/-- Holds of a locator whose fields are not taken for the grammar of a query. -/
structure Canonical (l : Locator) : Prop where
  method_colon : ':' ∉ l.method.toList
  method_trimmed : IsTrimmed l.method.toList
  criterion_trimmed : IsTrimmed l.criterion.toList
  suffix :
    (l.grid = "" ∧ l.criterion.toList.getLast? ≠ some ']') ∨
      (l.grid ≠ "" ∧ IsTrimmed l.grid.toList ∧ '[' ∉ l.grid.toList ∧ ']' ∉ l.grid.toList ∧
        l.criterion ≠ "" ∧ l.criterion.toList.getLast? ≠ some '\\')
  clear : ∀ field ∈ [l.method, l.criterion, l.grid], ¬ Query.delimiter <:+: field.toList
  criterion_end : ¬ [' ', '&', '&'] <:+ l.criterion.toList

instance : DecidablePred Canonical := fun l =>
  decidable_of_iff
    (':' ∉ l.method.toList ∧ IsTrimmed l.method.toList ∧ IsTrimmed l.criterion.toList ∧
      ((l.grid = "" ∧ l.criterion.toList.getLast? ≠ some ']') ∨
        (l.grid ≠ "" ∧ IsTrimmed l.grid.toList ∧ '[' ∉ l.grid.toList ∧ ']' ∉ l.grid.toList ∧
          l.criterion ≠ "" ∧ l.criterion.toList.getLast? ≠ some '\\')) ∧
      (∀ field ∈ [l.method, l.criterion, l.grid], ¬ Query.delimiter <:+: field.toList) ∧
      ¬ [' ', '&', '&'] <:+ l.criterion.toList)
    ⟨fun ⟨hcolon, hmethod, hcriterion, hsuffix, hclear, hend⟩ =>
        ⟨hcolon, hmethod, hcriterion, hsuffix, hclear, hend⟩,
      fun hl => ⟨hl.method_colon, hl.method_trimmed, hl.criterion_trimmed, hl.suffix, hl.clear,
        hl.criterion_end⟩⟩

theorem Canonical.ofChars_chars (hl : l.Canonical) (defaultMethod : List Char) :
    ofChars l.chars defaultMethod = l := by
  rcases hl.suffix with ⟨hgrid, hlast⟩ | ⟨hgrid, htrimmed, hopen, hclose, hne, hlast⟩
  · have hnil : l.grid.toList = [] := String.toList_eq_nil_iff.mpr hgrid
    have hbody := body_of_grid_eq_nil hnil
    rw [ofChars_chars_eq_iff hl.method_colon hl.method_trimmed (hbody ▸ hl.criterion_trimmed),
      hbody, hnil, splitGrid_eq_self_iff, Option.eq_none_iff_forall_ne_some]
    rintro ⟨criterion, grid⟩ hsuffix
    obtain ⟨before, hterm, -, -⟩ := gridSuffix?_eq_some_iff.mp hsuffix
    rw [hterm, List.getLast?_concat] at hlast
    exact hlast rfl
  · have hbody := body_of_grid_ne_nil (mt String.toList_eq_nil_iff.mp hgrid)
    have hcriterion : l.criterion.toList ≠ [] := mt String.toList_eq_nil_iff.mp hne
    have hanchors : Anchors l.criterion.toList.reverse := by
      rw [List.getLast?_eq_some_getLast hcriterion, ne_eq, Option.some.injEq] at hlast
      refine ⟨l.criterion.toList.getLast hcriterion, ?_, ?_, hlast⟩
      · rw [List.head?_reverse, List.getLast?_eq_some_getLast hcriterion]
        rfl
      · exact hl.criterion_trimmed.2 _ (List.getLast?_eq_some_getLast hcriterion)
    rw [ofChars_chars_eq_iff hl.method_colon hl.method_trimmed, hbody]
    · refine splitGrid_append_suffix hanchors (passes_of_not_mem ?_ ?_ _) htrimmed
      · simpa using hopen
      · simpa using hclose
    · rw [hbody]
      exact isTrimmed_append_suffix hcriterion hl.criterion_trimmed.1 _

end Locator

namespace Query

/-- A text without the delimiter that stands before a delimiter brings it forward only with an end
that looks like its beginning. -/
theorem delimiter_infix_append_iff {cs : List Char} :
    delimiter <:+: cs ++ delimiter.dropLast ↔ delimiter <:+: cs ∨ [' ', '&', '&'] <:+ cs := by
  rw [List.infix_append_iff]
  constructor
  · rintro (hbefore | hafter | ⟨left, right, hsplit, hleft, hright⟩)
    · exact .inl hbefore
    · exact absurd hafter.length_le (by decide)
    · have hend : right ∈ delimiter.tails := (List.mem_tails _ _).mpr ⟨left, hsplit.symm⟩
      simp only [delimiter, List.tails, List.mem_cons, List.not_mem_nil, or_false] at hend
      rcases hend with rfl | rfl | rfl | rfl | rfl
      · exact absurd hright (by decide)
      · exact absurd hright (by decide)
      · exact absurd hright (by decide)
      · have hstart : [' ', '&', '&'] = left := List.append_inj_left' hsplit rfl
        exact .inr (hstart ▸ hleft)
      · rw [List.append_nil] at hsplit
        exact .inl (hsplit ▸ hleft.isInfix)
  · rintro (hbefore | ⟨cs, rfl⟩)
    · exact .inl hbefore
    · exact .inr (.inr ⟨[' ', '&', '&'], [' '], rfl, List.suffix_append _ _, by decide⟩)

theorem infix_chars_append_iff {l : Locator}
    (hclear : ∀ field ∈ [l.method, l.criterion, l.grid], ¬ delimiter <:+: field.toList)
    (after : List Char) :
    delimiter <:+: l.chars ++ after ↔
      if l.grid.toList = [] then delimiter <:+: l.criterion.toList ++ after
      else delimiter <:+: after := by
  have hmethod := hclear l.method (by simp)
  have hcriterion := hclear l.criterion (by simp)
  have hgrid := hclear l.grid (by simp)
  have hne : delimiter ≠ [] := by decide
  rw [Locator.chars_eq, List.append_assoc, List.cons_append,
    infix_append_cons_iff (by decide) hne, or_iff_right hmethod]
  by_cases hnil : l.grid.toList = []
  · rw [if_pos hnil, Locator.body_of_grid_eq_nil hnil]
  · rw [if_neg hnil, Locator.body_of_grid_ne_nil hnil, List.append_assoc, List.append_assoc,
      List.cons_append, infix_append_cons_iff (by decide) hne, or_iff_right hcriterion,
      List.singleton_append, infix_append_cons_iff (by decide) hne, or_iff_right hgrid]

theorem clear_chars {l : Locator}
    (hclear : ∀ field ∈ [l.method, l.criterion, l.grid], ¬ delimiter <:+: field.toList) :
    ¬ delimiter <:+: l.chars := by
  have hiff := infix_chars_append_iff hclear []
  rw [List.append_nil, List.append_nil] at hiff
  rw [hiff]
  split
  · exact hclear l.criterion (by simp)
  · exact fun hnil => absurd hnil.length_le (by decide)

/-- The delimiter that follows a locator is the first in their text, if the locator lets it be. -/
theorem clear_chars_dropLast_iff {l : Locator}
    (hclear : ∀ field ∈ [l.method, l.criterion, l.grid], ¬ delimiter <:+: field.toList) :
    ¬ delimiter <:+: l.chars ++ delimiter.dropLast ↔ l.EndsClear := by
  rw [infix_chars_append_iff hclear, Locator.EndsClear, Locator.hasGrid_eq_false_iff]
  split
  · next hnil =>
    rw [delimiter_infix_append_iff, or_iff_right (hclear l.criterion (by simp))]
    exact ⟨fun hend _ => hend, fun hend => hend hnil⟩
  · next hnil =>
    refine ⟨fun _ hgrid => absurd hgrid hnil, fun _ hnone => ?_⟩
    exact absurd hnone.length_le (by decide)

/-- A query whose fields keep out of the way of the grammar is read back from its text. -/
theorem parse_text_of_canonical {ls : List Locator} (hne : ls ≠ [])
    (hcanonical : ∀ l ∈ ls, l.Canonical) (defaultMethod : String) :
    parse (text ⟨ls⟩) defaultMethod = ⟨ls⟩ := by
  obtain ⟨first, others, rfl⟩ := List.exists_cons_of_ne_nil hne
  have hsplit : splitAt delimiter (joinWith delimiter ((first :: others).map Locator.chars)) =
      (first :: others).map Locator.chars := by
    apply splitAt_joinWith (by decide)
    intro piece hpiece
    rw [← List.map_cons] at hpiece
    obtain ⟨l, hl, rfl⟩ := List.mem_map.mp hpiece
    have hcanon := hcanonical l hl
    exact (clear_chars_dropLast_iff hcanon.clear).mpr fun _ => hcanon.criterion_end
  have hread : (first :: others).map
      (fun l => Locator.ofChars l.chars defaultMethod.toList) = first :: others := by
    rw [List.map_congr_left fun l hl => (hcanonical l hl).ofChars_chars _, List.map_id']
  rw [parse, ofChars, text, String.toList_ofList, hsplit, List.map_map]
  exact congrArg Query.mk hread

theorem parse_text_of_brackets_and_ampersands :
    ([⟨"id", "a[1]\\n& :b", "row 2"⟩, ⟨"", "&&", ""⟩] : List Locator) ≠ [] ∧
      (∀ l ∈ ([⟨"id", "a[1]\\n& :b", "row 2"⟩, ⟨"", "&&", ""⟩] : List Locator), l.Canonical) ∧
      parse (text ⟨[⟨"id", "a[1]\\n& :b", "row 2"⟩, ⟨"", "&&", ""⟩]⟩) "Name" =
        ⟨[⟨"id", "a[1]\\n& :b", "row 2"⟩, ⟨"", "&&", ""⟩]⟩ :=
  ⟨by decide, by decide, parse_text_of_canonical (by decide) (by decide) "Name"⟩

end Query

end ElementQuery
