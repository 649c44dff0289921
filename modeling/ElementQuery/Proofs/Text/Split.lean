import ElementQuery.Proofs.Text.Character
import ElementQuery.Text
import Mathlib.Data.List.Chain

/-!
# Splitting and escaping

A query is split at the delimiter before anything else is made of its text, and its escapes are
resolved last. So each has to leave alone what the other is about.
-/

namespace ElementQuery.Text

/-! ## Splitting what was joined

Texts that are joined by a delimiter come apart again at the same places, provided that none of them
makes the delimiter appear earlier. An earlier occurrence could lie inside a text, or begin in it and
end in the delimiter that follows; both are occurrences in the text with the delimiter less its last
character, so that this is all there is to look at.
-/

section

variable {delimiter : List Char}

theorem splitPieces_skip (skip : Nat) (cs : List Char) :
    splitPieces delimiter skip cs = splitPieces delimiter 0 (cs.drop skip) := by
  induction cs generalizing skip with
  | nil => cases skip <;> rfl
  | cons c cs ih =>
    cases skip with
    | zero => rfl
    | succ skip => rw [splitPieces, ih, List.drop_succ_cons]

theorem splitPieces_of_clear {cs : List Char} (hclear : ¬ delimiter <:+: cs) :
    splitPieces delimiter 0 cs = (cs, []) := by
  induction cs with
  | nil => rfl
  | cons c cs ih =>
    have hprefix : delimiter.isPrefixOf (c :: cs) = false := by
      rw [Bool.eq_false_iff, ne_eq, List.isPrefixOf_iff_prefix]
      exact fun hpre => hclear hpre.isInfix
    have hrest : ¬ delimiter <:+: cs := fun hearly =>
      hclear (hearly.trans (List.suffix_cons c cs).isInfix)
    rw [splitPieces, hprefix, ih hrest]
    rfl

theorem splitPieces_append {piece : List Char} (hne : delimiter ≠ [])
    (hclear : ¬ delimiter <:+: piece ++ delimiter.dropLast) (rest : List Char) :
    splitPieces delimiter 0 (piece ++ delimiter ++ rest) = (piece, splitAt delimiter rest) := by
  induction piece with
  | nil =>
    obtain ⟨d, ds, rfl⟩ := List.exists_cons_of_ne_nil hne
    have hprefix : (d :: ds).isPrefixOf (d :: (ds ++ rest)) = true := by
      rw [List.isPrefixOf_iff_prefix, ← List.cons_append]
      exact List.prefix_append _ _
    rw [List.nil_append, List.cons_append, splitPieces, hprefix, splitPieces_skip]
    simp [splitAt]
  | cons c piece ih =>
    have hprefix : delimiter.isPrefixOf (c :: (piece ++ delimiter ++ rest)) = false := by
      rw [Bool.eq_false_iff, ne_eq, List.isPrefixOf_iff_prefix]
      intro hpre
      -- An occurrence at the front is shorter than the text with the delimiter less one character.
      have hshort : delimiter <+: c :: piece ++ delimiter.dropLast := by
        apply List.prefix_of_prefix_length_le hpre
        · refine ⟨[delimiter.getLast hne] ++ rest, ?_⟩
          rw [List.append_assoc, ← List.append_assoc delimiter.dropLast,
            List.dropLast_concat_getLast hne]
          simp
        · simp only [List.cons_append, List.length_cons, List.length_append, List.length_dropLast]
          omega
      exact hclear hshort.isInfix
    have hrest : ¬ delimiter <:+: piece ++ delimiter.dropLast := fun hearly =>
      hclear (hearly.trans (List.suffix_cons c _).isInfix)
    rw [List.cons_append, List.cons_append, splitPieces, hprefix, ih hrest]
    rfl

/-- Texts that are joined come apart at the same places. -/
theorem splitAt_joinWith (hne : delimiter ≠ []) (piece : List Char) (pieces : List (List Char))
    (hclear : ∀ p ∈ piece :: pieces, ¬ delimiter <:+: p ++ delimiter.dropLast) :
    splitAt delimiter (joinWith delimiter (piece :: pieces)) = piece :: pieces := by
  induction pieces generalizing piece with
  | nil =>
    have hpiece : ¬ delimiter <:+: piece := fun hearly =>
      hclear piece (by simp) (hearly.trans (List.prefix_append _ _).isInfix)
    rw [joinWith, splitAt, splitPieces_of_clear hpiece]
  | cons next pieces ih =>
    have hnext := ih next fun p hp => hclear p (List.mem_cons_of_mem _ hp)
    rw [joinWith, splitAt, splitPieces_append hne (hclear piece (by simp)), hnext]
    simp

/-! ### The pieces of any text -/

theorem isPrefix_splitPieces_fst (skip : Nat) (cs : List Char) :
    (splitPieces delimiter skip cs).1 <+: cs.drop skip := by
  induction cs generalizing skip with
  | nil => simp [splitPieces]
  | cons c cs ih =>
    cases skip with
    | succ skip => exact ih skip
    | zero =>
      rw [splitPieces, List.drop_zero]
      split
      · exact List.nil_prefix
      · have hrest := ih 0
        rw [List.drop_zero] at hrest
        exact (List.prefix_cons_inj c).mpr hrest

theorem splitPieces_clear (hne : delimiter ≠ []) (skip : Nat) (cs : List Char) :
    ∀ piece ∈ (splitPieces delimiter skip cs).1 :: (splitPieces delimiter skip cs).2,
      ¬ delimiter <:+: piece := by
  induction cs generalizing skip with
  | nil =>
    intro piece hpiece
    obtain rfl : piece = [] := by simpa [splitPieces] using hpiece
    rw [List.infix_nil]
    exact hne
  | cons c cs ih =>
    cases skip with
    | succ skip => exact ih skip
    | zero =>
      rw [splitPieces]
      split
      · intro piece hpiece
        rcases List.mem_cons.mp hpiece with rfl | hpiece
        · rw [List.infix_nil]
          exact hne
        · exact ih _ piece hpiece
      · next hprefix =>
        intro piece hpiece
        rcases List.mem_cons.mp hpiece with rfl | hpiece
        · rw [List.infix_cons_iff]
          rintro (hstart | hlater)
          · have hfirst : (splitPieces delimiter 0 cs).1 <+: cs := isPrefix_splitPieces_fst 0 cs
            refine hprefix (List.isPrefixOf_iff_prefix.mpr (hstart.trans ?_))
            exact (List.prefix_cons_inj c).mpr hfirst
          · exact ih 0 _ List.mem_cons_self hlater
        · exact ih 0 piece (List.mem_cons_of_mem _ hpiece)

theorem mem_joinWith_of_mem {c : Char} {piece : List Char} {pieces : List (List Char)}
    (hpiece : piece ∈ pieces) (hc : c ∈ piece) : c ∈ joinWith delimiter pieces := by
  induction pieces with
  | nil => contradiction
  | cons first pieces ih =>
    rw [← List.append_nil first, joinWith_cons_append, List.mem_append]
    rcases List.mem_cons.mp hpiece with rfl | hpiece
    · exact .inl hc
    · refine .inr ?_
      cases pieces with
      | nil => contradiction
      | cons next pieces =>
        rw [joinWith, List.mem_append]
        · exact .inr (ih hpiece)
        · exact List.cons_ne_nil _ _

theorem clear_of_mem_splitAt (hne : delimiter ≠ []) {cs piece : List Char}
    (hpiece : piece ∈ splitAt delimiter cs) : ¬ delimiter <:+: piece :=
  splitPieces_clear hne 0 cs piece hpiece

/-- A character that the delimiter does not hold keeps it from reaching across. -/
theorem infix_append_cons_iff {c : Char} (hc : c ∉ delimiter) (hne : delimiter ≠ [])
    {before after : List Char} :
    delimiter <:+: before ++ c :: after ↔ delimiter <:+: before ∨ delimiter <:+: after := by
  have hstart : ∀ {d : List Char}, c ∉ d → d <+: c :: after → d = [] := by
    intro d hd hpre
    rcases List.prefix_cons_iff.mp hpre with rfl | ⟨rest, rfl, -⟩
    · rfl
    · exact absurd List.mem_cons_self hd
  rw [List.infix_append_iff, List.infix_cons_iff]
  constructor
  · rintro (hbefore | (hpre | hafter) | ⟨left, right, hsplit, hleft, hright⟩)
    · exact .inl hbefore
    · exact absurd (hstart hc hpre) hne
    · exact .inr hafter
    · have hnone : right = [] := by
        refine hstart (fun hmem => hc ?_) hright
        rw [hsplit]
        exact List.mem_append_right _ hmem
      rw [hnone, List.append_nil] at hsplit
      rw [hsplit]
      exact .inl hleft.isInfix
  · rintro (hbefore | hafter)
    · exact .inl hbefore
    · exact .inr (.inl (.inr hafter))

theorem splitFirst_eq_none {c : Char} {cs : List Char} (hcs : c ∉ cs) : splitFirst c cs = none := by
  cases hsplit : splitFirst c cs with
  | none => rfl
  | some halves =>
    obtain ⟨before, after⟩ := halves
    obtain ⟨rfl, -⟩ := splitFirst_eq_some hsplit
    exact absurd (List.mem_append_right _ List.mem_cons_self) hcs

theorem splitFirst_append {c : Char} {before : List Char} (hbefore : c ∉ before)
    (after : List Char) : splitFirst c (before ++ c :: after) = some (before, after) := by
  induction before with
  | nil => rw [List.nil_append, splitFirst, if_pos rfl]
  | cons d before ih =>
    have hne : d ≠ c := fun heq => hbefore (by simp [heq])
    rw [List.cons_append, splitFirst, if_neg hne, ih fun hc => hbefore (List.mem_cons_of_mem _ hc)]
    rfl

end

/-! ## What an escaped text looks like

Reading an escaped text back is only half of what escaping is for: the text has to reach the reader
of escapes in one piece. So it must not begin or end with white space that trimming would take, and
an ampersand must not follow a blank. Both are facts about neighbouring characters: an escaped
character is a letter of its own or stands behind a backslash, and that is all the proofs use.
-/

/-- The letters that stand for a character of their own after a backslash. -/
def escapeLetters : List Char := ['n', 't', 'r']

/-- The characters that are written with such a letter. -/
def letteredChars : List Char := ['\n', '\t', '\r']

/-- A character is written as itself, if it is one of the letters, or else behind a backslash. -/
theorem escapeChar_cases (c : Char) :
    (escapeChar c = [c] ∧ c ∈ escapeLetters) ∨
      ∃ d, escapeChar c = ['\\', d] ∧ (d ∈ escapeLetters ∨ d = c ∧ c ∉ letteredChars) := by
  unfold escapeChar
  split
  · exact .inr ⟨'n', rfl, .inl (by decide)⟩
  · split
    · exact .inr ⟨'t', rfl, .inl (by decide)⟩
    · split
      · exact .inr ⟨'r', rfl, .inl (by decide)⟩
      · split
        · next hletter => exact .inl ⟨rfl, by simpa [escapeLetters, or_assoc] using hletter⟩
        · next hn ht hr _ => exact .inr ⟨c, rfl, .inr ⟨rfl, by simp [letteredChars, *]⟩⟩

theorem isBlank_of_mem_escapeLetters {c : Char} (hc : c ∈ escapeLetters) : isBlank c = false := by
  simp only [escapeLetters, List.mem_cons, List.not_mem_nil, or_false] at hc
  rcases hc with rfl | rfl | rfl <;> decide

theorem escape_cons (c : Char) (cs : List Char) : escape (c :: cs) = escapeChar c ++ escape cs :=
  List.flatMap_cons

theorem escape_append (cs ds : List Char) : escape (cs ++ ds) = escape cs ++ escape ds :=
  List.flatMap_append

theorem escape_singleton (c : Char) : escape [c] = escapeChar c := by
  rw [escape_cons, escape, List.flatMap_nil, List.append_nil]

theorem mem_head?_escape {cs : List Char} {c : Char} (hc : c ∈ (escape cs).head?) :
    c = '\\' ∨ c ∈ escapeLetters := by
  cases cs with
  | nil => simp [escape] at hc
  | cons d ds =>
    rw [escape_cons] at hc
    rcases escapeChar_cases d with ⟨hd, hletter⟩ | ⟨e, hd, _⟩
    · rw [hd] at hc
      simp only [List.cons_append, List.head?_cons, Option.mem_def, Option.some.injEq] at hc
      exact .inr (hc ▸ hletter)
    · rw [hd] at hc
      simp only [List.cons_append, List.head?_cons, Option.mem_def, Option.some.injEq] at hc
      exact .inl hc.symm

theorem mem_getLast?_escape {cs : List Char} {c : Char} (hc : c ∈ (escape cs).getLast?) :
    c ∈ escapeLetters ∨ c ∈ cs.getLast? ∧ c ∉ letteredChars := by
  induction cs using List.reverseRecOn with
  | nil => simp [escape] at hc
  | append_singleton ds d =>
    rw [escape_append, escape_singleton] at hc
    rcases escapeChar_cases d with ⟨hd, hletter⟩ | ⟨e, hd, hletter | ⟨rfl, hnot⟩⟩
    · rw [hd, List.getLast?_concat, Option.mem_some_iff] at hc
      exact .inl (hc ▸ hletter)
    · rw [hd, List.getLast?_append, List.getLast?_cons_cons, List.getLast?_singleton,
        Option.some_or, Option.mem_some_iff] at hc
      exact .inl (hc ▸ hletter)
    · rw [hd, List.getLast?_append, List.getLast?_cons_cons, List.getLast?_singleton,
        Option.some_or, Option.mem_some_iff] at hc
      subst hc
      exact .inr ⟨by simp, hnot⟩

/-- Trimming leaves an escaped text alone unless the text ends with white space without a letter. -/
theorem trim_escape {cs : List Char}
    (hlast : ∀ c ∈ cs.getLast?, isBlank c = true → c ∈ letteredChars) :
    trim (escape cs) = escape cs := by
  apply trim_eq_self
  · intro c hc
    rcases mem_head?_escape hc with rfl | hletter
    · decide
    · exact isBlank_of_mem_escapeLetters hletter
  · intro c hc
    rcases mem_getLast?_escape hc with hletter | ⟨hmem, hnot⟩
    · exact isBlank_of_mem_escapeLetters hletter
    · rw [Bool.eq_false_iff]
      exact fun hblank => hnot (hlast c hmem hblank)

/-! ### Blanks and ampersands -/

/-- Holds of two neighbouring characters other than a blank and an ampersand. -/
def NoAmpersand (c d : Char) : Prop := c = ' ' → d ≠ '&'

theorem isChain_escape (cs : List Char) : (escape cs).IsChain NoAmpersand := by
  induction cs with
  | nil => exact List.isChain_nil
  | cons c cs ih =>
    rw [escape_cons]
    refine List.IsChain.append ?_ ih ?_
    · rcases escapeChar_cases c with ⟨hc, _⟩ | ⟨d, hc, _⟩
      · rw [hc]
        exact List.isChain_singleton c
      · rw [hc, List.isChain_pair]
        exact fun hblank => absurd hblank (by decide)
    · intro _ _ d hd _ hamp
      rcases mem_head?_escape hd with rfl | hletter
      · exact absurd hamp (by decide)
      · subst hamp
        exact absurd hletter (by decide)

end ElementQuery.Text
