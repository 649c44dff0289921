import ElementQuery.Proofs.Query.RoundTrip
import ElementQuery.Proofs.Settings

/-!
# Reading a query twice

A query that was read from a text can be written and read again. Reading drops white space and empty
bracket groups, and writing does not put them back. What was dropped may have kept a bracket group
from being the grid suffix, a bracket from being the last, or an ampersand from completing a
delimiter, and then the second reading finds something else. These are the only ways in which a
query is lost.
-/

namespace ElementQuery

open Text

namespace Locator

/-- What is known of a locator that was read. -/
structure Parsed (l : Locator) : Prop where
  method_colon : ':' ∉ l.method.toList
  method_trimmed : IsTrimmed l.method.toList
  clear : ∀ field ∈ [l.method, l.criterion, l.grid], ¬ Query.delimiter <:+: field.toList
  split : ∃ term, IsTrimmed term ∧ splitGrid term = (l.criterion.toList, l.grid.toList)

/-- Holds of a locator whose text shows the grid suffix that the locator has, and no other. -/
def ShowsSuffix (l : Locator) : Prop :=
  if l.hasGrid then l.grid.toList.head? ≠ some '[' else gridSuffix? l.criterion.toList = none

instance : DecidablePred ShowsSuffix := fun l =>
  inferInstanceAs (Decidable
    (if l.hasGrid then l.grid.toList.head? ≠ some '[' else gridSuffix? l.criterion.toList = none))

variable {l : Locator}

theorem parsed_mk {method rest : List Char} (hcolon : ':' ∉ method) (hmethod : IsTrimmed method)
    (hrest : IsTrimmed rest) (hclear : ¬ Query.delimiter <:+: method)
    (hrestClear : ¬ Query.delimiter <:+: rest) :
    Parsed ⟨String.ofList method, String.ofList (splitGrid rest).1,
      String.ofList (splitGrid rest).2⟩ := by
  obtain ⟨hcriterion, hgrid⟩ := isInfix_splitGrid rest
  constructor
  · rwa [String.toList_ofList]
  · rwa [String.toList_ofList]
  · simp only [List.forall_mem_cons, String.toList_ofList]
    refine ⟨hclear, ?_, ?_, by simp⟩
    · exact fun hearly => hrestClear (hearly.trans hcriterion)
    · exact fun hearly => hrestClear (hearly.trans hgrid)
  · refine ⟨rest, hrest, ?_⟩
    rw [String.toList_ofList, String.toList_ofList]

theorem parsed_ofChars {cs defaultMethod : List Char} (hcs : ¬ Query.delimiter <:+: cs)
    (hcolon : ':' ∉ defaultMethod) (htrimmed : IsTrimmed defaultMethod)
    (hclear : ¬ Query.delimiter <:+: defaultMethod) : (ofChars cs defaultMethod).Parsed := by
  have hpart : ∀ part : List Char, part <:+: cs → ¬ Query.delimiter <:+: trim part :=
    fun part hinfix hearly => hcs (hearly.trans ((isInfix_trim part).trans hinfix))
  rw [ofChars]
  cases hsplit : splitFirst ':' cs with
  | none => exact parsed_mk hcolon htrimmed (isTrimmed_trim cs) hclear (hpart cs List.infix_rfl)
  | some halves =>
    obtain ⟨before, after⟩ := halves
    obtain ⟨rfl, hbefore⟩ := splitFirst_eq_some hsplit
    have hafter : after <:+ before ++ ':' :: after :=
      (List.suffix_cons ':' after).trans (List.suffix_append _ _)
    apply parsed_mk
    · exact fun hc => hbefore ((isInfix_trim before).subset hc)
    · exact isTrimmed_trim before
    · exact isTrimmed_trim after
    · exact hpart before (List.prefix_append _ _).isInfix
    · exact hpart after hafter.isInfix

/-- The text of a locator that was read shows its suffix, or is read as another locator. -/
theorem Parsed.ofChars_chars_eq_iff (hl : l.Parsed) (defaultMethod : List Char) :
    ofChars l.chars defaultMethod = l ↔ l.ShowsSuffix := by
  obtain ⟨term, hterm, hsplit⟩ := hl.split
  have hread := Locator.ofChars_chars_eq_iff (l := l) hl.method_colon hl.method_trimmed
  have hplain : l.grid.toList = [] → IsTrimmed l.criterion.toList →
      (ofChars l.chars defaultMethod = l ↔ l.ShowsSuffix) := by
    intro hnil htrimmed
    have hbody := body_of_grid_eq_nil hnil
    rw [hread (hbody ▸ htrimmed), hbody, hnil, splitGrid_eq_self_iff, ShowsSuffix,
      hasGrid_eq_false_iff.mpr hnil, if_neg Bool.false_ne_true]
  rw [splitGrid] at hsplit
  split at hsplit
  · next criterion inside hsuffix =>
    obtain ⟨rfl, hgrid⟩ := Prod.mk.inj hsplit
    obtain ⟨hne, htrimmed⟩ := isTrimmed_of_gridSuffix? hterm hsuffix
    obtain ⟨before, -, hpasses, -⟩ := gridSuffix?_eq_some_iff.mp hsuffix
    by_cases hnil : l.grid.toList = []
    · exact hplain hnil htrimmed
    · have hbody := body_of_grid_ne_nil hnil
      have hhas : l.hasGrid = true := by simpa [hasGrid] using hnil
      rw [hread (hbody ▸ isTrimmed_append_suffix hne htrimmed.1 _), hbody, ShowsSuffix, if_pos hhas]
      constructor
      · rintro hagain hbracket
        obtain ⟨rest, hrest⟩ := List.head?_eq_some_iff.mp hbracket
        rw [hrest] at hagain
        exact splitGrid_append_suffix_ne hagain
      · intro hbracket
        rw [← hgrid] at hbracket ⊢
        exact splitGrid_append_suffix (criterion_of_gridSuffix? hsuffix).2
          (hpasses.trim hbracket _) (isTrimmed_trim inside)
  · obtain ⟨rfl, hgrid⟩ := Prod.mk.inj hsplit
    exact hplain hgrid.symm hterm

end Locator

namespace Query

theorem ofChars_append_ne {l : Locator} (hl : l.Parsed) (hend : ¬ l.EndsClear)
    (rest defaultMethod : List Char) (ls : List Locator) :
    ofChars (l.chars ++ delimiter ++ rest) defaultMethod ≠ ⟨l :: ls⟩ := by
  rw [Locator.EndsClear, Classical.not_imp, Classical.not_not] at hend
  obtain ⟨hgrid, criterion, hcriterion⟩ := hend
  have hchars : l.chars = l.method.toList ++ ':' :: criterion ++ delimiter.dropLast := by
    rw [Locator.chars_eq,
      Locator.body_of_grid_eq_nil (Locator.hasGrid_eq_false_iff.mp hgrid), ← hcriterion]
    simp [delimiter]
  have hclear : ¬ delimiter <:+: l.method.toList ++ ':' :: criterion ++ delimiter.dropLast :=
    hchars ▸ clear_chars hl.clear
  have htext : l.chars ++ delimiter ++ rest =
      l.method.toList ++ ':' :: criterion ++ delimiter ++ ('&' :: '&' :: ' ' :: rest) := by
    rw [hchars]
    simp [delimiter]
  intro hread
  have hfirst := congrArg (fun q => q.locators.head?) hread
  simp only [ofChars, htext, splitAt, splitPieces_append (by decide) hclear, List.map_cons,
    List.head?_cons, Option.some.injEq] at hfirst
  have hcut := congrArg (fun l => l.criterion.toList.length) hfirst
  simp only [Locator.ofChars, splitFirst_append hl.method_colon, String.toList_ofList,
    ← hcriterion, List.length_append, List.length_cons, List.length_nil] at hcut
  have hsplit := (Locator.isInfix_splitGrid (trim criterion)).1.length_le
  have htrim := (isInfix_trim criterion).length_le
  omega

/-- A locator comes back from a text that begins with it when it shows its suffix and ends clear. -/
theorem ofChars_append_eq_iff {l : Locator} (hl : l.Parsed) (rest defaultMethod : List Char)
    (ls : List Locator) :
    ofChars (l.chars ++ delimiter ++ rest) defaultMethod = ⟨l :: ls⟩ ↔
      (l.ShowsSuffix ∧ l.EndsClear) ∧ ofChars rest defaultMethod = ⟨ls⟩ := by
  by_cases hend : l.EndsClear
  · have hsplit := splitPieces_append (by decide)
      ((clear_chars_dropLast_iff hl.clear).mpr hend) rest
    rw [ofChars, splitAt, hsplit, ofChars, Query.mk.injEq, Query.mk.injEq, List.map_cons,
      List.cons.injEq, hl.ofChars_chars_eq_iff, and_iff_left hend]
  · refine ⟨fun hread => absurd hread (ofChars_append_ne hl hend rest defaultMethod ls), ?_⟩
    exact fun hread => absurd hread.1.2 hend

theorem ofChars_text_eq_iff {first : Locator} {others : List Locator}
    (hparsed : ∀ l ∈ first :: others, l.Parsed) (defaultMethod : List Char) :
    ofChars (joinWith delimiter ((first :: others).map Locator.chars)) defaultMethod =
        ⟨first :: others⟩ ↔
      (∀ l ∈ first :: others, l.ShowsSuffix) ∧ ∀ l ∈ (first :: others).dropLast, l.EndsClear := by
  induction others generalizing first with
  | nil =>
    have hfirst := hparsed first List.mem_cons_self
    have hwhole := splitPieces_of_clear (clear_chars hfirst.clear)
    rw [List.map_singleton, joinWith, ofChars, splitAt, hwhole, List.map_singleton, Query.mk.injEq,
      List.singleton_inj, hfirst.ofChars_chars_eq_iff]
    simp
  | cons next others ih =>
    have hfirst := hparsed first List.mem_cons_self
    have hrest := ih fun l hl => hparsed l (List.mem_cons_of_mem _ hl)
    have htext : joinWith delimiter ((first :: next :: others).map Locator.chars) =
        first.chars ++ delimiter ++ joinWith delimiter ((next :: others).map Locator.chars) := rfl
    rw [htext, ofChars_append_eq_iff hfirst, hrest, List.dropLast_cons_cons, and_and_and_comm]
    exact and_congr List.forall_mem_cons.symm List.forall_mem_cons.symm

theorem parsed_of_mem_parse {settings : Settings} (hbuilt : settings.Built) {input : String}
    {l : Locator} (hl : l ∈ (parse input settings.defaultMethod).locators) : l.Parsed := by
  have hnamed := hbuilt.named
  have hcolon : ':' ∉ settings.defaultMethod.toList := hnamed.not_mem (by decide) (by decide)
  have hclear : ¬ delimiter <:+: settings.defaultMethod.toList := by
    intro hearly
    have hamp : '&' ∈ settings.defaultMethod.toList := hearly.subset (by decide)
    exact hnamed.not_mem (by decide) (by decide) hamp
  obtain ⟨term, hterm, rfl⟩ := List.mem_map.mp hl
  exact Locator.parsed_ofChars (clear_of_mem_splitAt (by decide) hterm) hcolon hnamed.2 hclear

/-- A query that was read comes back from its text exactly when each of its locators shows its grid
suffix and each but the last ends clear of the delimiter that follows it. -/
theorem parse_text_parse_eq_iff {settings : Settings} (hbuilt : settings.Built) (input : String) :
    let q := parse input settings.defaultMethod
    parse q.text settings.defaultMethod = q ↔
      (∀ l ∈ q.locators, l.ShowsSuffix) ∧ ∀ l ∈ q.locators.dropLast, l.EndsClear := by
  intro q
  have hparsed : ∀ l ∈ q.locators, l.Parsed := fun l hl => parsed_of_mem_parse hbuilt hl
  obtain ⟨first, others, hq⟩ : ∃ first others, q = ⟨first :: others⟩ := ⟨_, _, rfl⟩
  rw [hq] at hparsed ⊢
  rw [parse, text, String.toList_ofList]
  exact ofChars_text_eq_iff hparsed _

theorem parse_text_parse_with_spaces :
    Settings.initial.Built ∧
      parse (parse " id : [a] [ row 1 ]  &&  :b]" Settings.initial.defaultMethod).text
          Settings.initial.defaultMethod =
        parse " id : [a] [ row 1 ]  &&  :b]" Settings.initial.defaultMethod :=
  ⟨.initial, (parse_text_parse_eq_iff .initial " id : [a] [ row 1 ]  &&  :b]").mpr (by decide)⟩

/-- The empty bracket group is dropped, and then the group before it is the grid suffix. -/
theorem parse_text_parse_empty_brackets :
    Settings.initial.Built ∧
      parse (parse "a[1][]" Settings.initial.defaultMethod).text Settings.initial.defaultMethod ≠
        parse "a[1][]" Settings.initial.defaultMethod :=
  ⟨.initial, by decide⟩

end Query

end ElementQuery
