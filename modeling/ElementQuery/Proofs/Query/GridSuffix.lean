import ElementQuery.Proofs.Text.Character
import ElementQuery.Query

/-!
# The grid suffix of a term

A term may end with a bracket group that is its grid suffix. The search for the bracket that opens
it goes leftwards from the end and takes the first one that is anchored, so it is known which
brackets it has passed over: those inside the suffix. Whether a bracket is passed over depends on no
more than the two characters before it. Cutting white space off the inside of a suffix therefore
changes nothing about the brackets in it, unless it brings a bracket right behind the one that opens
the suffix.

The text before a bracket is given in reverse, as the search goes through it.
-/

namespace ElementQuery.Locator

open Text

/-! ### Anchored text -/

/-- Holds of a text, given in reverse, that a grid suffix may follow. -/
def Anchors (text : List Char) : Prop :=
  ∃ c ∈ text.head?, isBlank c = false ∧ c ≠ '\\'

theorem anchor?_of_not_isBlank {c : Char} (hc : isBlank c = false) (before : List Char) :
    anchor? (c :: before) = if c = '\\' then none else some (c :: before) := by
  unfold anchor?
  simp only [hc, Bool.false_eq_true, if_false, Bool.false_or, decide_eq_true_eq]

theorem anchor?_of_isBlank {b : Char} (hb : isBlank b = true) (c : Char) (before : List Char) :
    anchor? (b :: c :: before) = if isBlank c || c = '\\' then none else some (c :: before) := by
  unfold anchor?
  simp only [hb, if_true]

theorem anchor?_singleton {b : Char} (hb : isBlank b = true) : anchor? [b] = none := by
  unfold anchor?
  simp only [hb, if_true]

theorem Anchors.anchor? {text : List Char} (htext : Anchors text) : anchor? text = some text := by
  obtain ⟨c, hc, hblank, hbackslash⟩ := htext
  obtain ⟨rest, rfl⟩ := List.head?_eq_some_iff.mp hc
  rw [anchor?_of_not_isBlank hblank, if_neg hbackslash]

theorem anchors_of_anchor? {before text : List Char} (hanchor : anchor? before = some text) :
    Anchors text ∧ (before = text ∨ ∃ b, before = b :: text) := by
  match before with
  | [] => contradiction
  | b :: rest =>
    by_cases hb : isBlank b = true
    · cases rest with
      | nil =>
        rw [anchor?_singleton hb] at hanchor
        contradiction
      | cons c rest =>
        rw [anchor?_of_isBlank hb] at hanchor
        split at hanchor
        · contradiction
        · next hc =>
          obtain rfl := Option.some.inj hanchor
          simp only [Bool.or_eq_true, decide_eq_true_eq, not_or, Bool.not_eq_true] at hc
          exact ⟨⟨c, rfl, hc⟩, .inr ⟨b, rfl⟩⟩
    · rw [Bool.not_eq_true] at hb
      rw [anchor?_of_not_isBlank hb] at hanchor
      split at hanchor
      · contradiction
      · next hbackslash =>
        obtain rfl := Option.some.inj hanchor
        exact ⟨⟨b, rfl, hb, hbackslash⟩, .inl rfl⟩

theorem length_le_of_anchor? {before text : List Char} (hanchor : anchor? before = some text) :
    text.length ≤ before.length := by
  rcases (anchors_of_anchor? hanchor).2 with rfl | ⟨b, rfl⟩
  · exact Nat.le_refl _
  · exact Nat.le_succ _

/-- Behind a text that does not begin with white space, what is before it makes no difference. -/
theorem anchor?_append_eq_none {near : List Char} (hne : near ≠ [])
    (hfirst : ∀ c ∈ near.getLast?, isBlank c = false) {before : List Char}
    (hnone : anchor? (near ++ before) = none) (other : List Char) :
    anchor? (near ++ other) = none := by
  obtain ⟨b, rest, rfl⟩ := List.exists_cons_of_ne_nil hne
  by_cases hb : isBlank b = true
  · cases rest with
    | nil =>
      rw [hfirst b rfl] at hb
      contradiction
    | cons c rest =>
      simp only [List.cons_append, anchor?_of_isBlank hb] at hnone ⊢
      split at hnone
      · next hc => rw [if_pos hc]
      · contradiction
  · rw [Bool.not_eq_true] at hb
    rw [List.cons_append, anchor?_of_not_isBlank hb] at hnone ⊢
    split at hnone
    · next hbackslash => rw [if_pos hbackslash]
    · contradiction

/-! ### The search for the bracket -/

/-- Holds when the search for the bracket passes over a text on its way to what is before it. -/
def Passes : (text before : List Char) → Prop
  | [], _ => True
  | c :: text, before =>
    c ≠ ']' ∧ (c = '[' → anchor? (text ++ before) = none) ∧ Passes text before

theorem passes_of_not_mem {text : List Char} (hopen : '[' ∉ text) (hclose : ']' ∉ text)
    (before : List Char) : Passes text before := by
  induction text with
  | nil => trivial
  | cons c text ih =>
    rw [List.mem_cons, not_or] at hopen hclose
    exact ⟨Ne.symm hclose.1, fun heq => absurd heq (Ne.symm hopen.1), ih hopen.2 hclose.2⟩

theorem passes_append {text rest before : List Char} :
    Passes (text ++ rest) before ↔ Passes text (rest ++ before) ∧ Passes rest before := by
  induction text with
  | nil => simp [Passes]
  | cons c text ih => simp only [List.cons_append, Passes, ih, List.append_assoc, and_assoc]

theorem Passes.elsewhere {text before : List Char} (hpasses : Passes text before)
    (hfirst : ∀ c ∈ text.getLast?, isBlank c = false ∧ c ≠ '[') (other : List Char) :
    Passes text other := by
  induction text with
  | nil => trivial
  | cons c text ih =>
    obtain ⟨hclose, hopen, hrest⟩ := hpasses
    cases text with
    | nil => exact ⟨hclose, fun heq => absurd heq (hfirst c rfl).2, trivial⟩
    | cons d text =>
      rw [List.getLast?_cons_cons] at hfirst
      refine ⟨hclose, fun heq => ?_, ih hrest hfirst⟩
      exact anchor?_append_eq_none (List.cons_ne_nil d text) (fun e he => (hfirst e he).1)
        (hopen heq) other

theorem openBracket?_append {text before : List Char} (hpasses : Passes text before)
    (inside : List Char) :
    openBracket? (text ++ before) inside = openBracket? before (text.reverse ++ inside) := by
  induction text generalizing inside with
  | nil => rfl
  | cons c text ih =>
    obtain ⟨hclose, hopen, hrest⟩ := hpasses
    rw [List.cons_append, openBracket?, if_neg hclose]
    by_cases heq : c = '['
    · rw [if_pos heq, hopen heq, ih hrest]
      simp
    · rw [if_neg heq, ih hrest]
      simp

theorem exists_of_openBracket? {before inside criterion grid : List Char}
    (hfound : openBracket? before inside = some (criterion, grid)) :
    ∃ text rest, before = text ++ '[' :: rest ∧ Passes text ('[' :: rest) ∧
      anchor? rest = some criterion.reverse ∧ grid = text.reverse ++ inside := by
  induction before generalizing inside with
  | nil => contradiction
  | cons c before ih =>
    have hlater : c ≠ ']' → (c = '[' → anchor? before = none) →
        openBracket? before (c :: inside) = some (criterion, grid) →
        ∃ text rest, c :: before = text ++ '[' :: rest ∧ Passes text ('[' :: rest) ∧
          anchor? rest = some criterion.reverse ∧ grid = text.reverse ++ inside := by
      intro hclose hopen hfound
      obtain ⟨text, rest, rfl, hpasses, hanchor, rfl⟩ := ih hfound
      exact ⟨c :: text, rest, rfl, ⟨hclose, hopen, hpasses⟩, hanchor, by simp⟩
    rw [openBracket?] at hfound
    split at hfound
    · contradiction
    · next hclose =>
      split at hfound
      · next heq =>
        subst heq
        split at hfound
        · next text hanchor =>
          obtain ⟨rfl, rfl⟩ := Prod.mk.inj (Option.some.inj hfound)
          exact ⟨[], before, rfl, trivial, by rw [hanchor, List.reverse_reverse], rfl⟩
        · next hnone => exact hlater hclose (fun _ => hnone) hfound
      · next hopen => exact hlater hclose (fun heq => absurd heq hopen) hfound

/-- The suffix of a term is its last bracket group whose bracket is anchored. -/
theorem gridSuffix?_eq_some_iff {term criterion grid : List Char} :
    gridSuffix? term = some (criterion, grid) ↔
      ∃ before, term = before ++ '[' :: grid ++ [']'] ∧
        Passes grid.reverse ('[' :: before.reverse) ∧
        anchor? before.reverse = some criterion.reverse := by
  constructor
  · intro hsuffix
    rw [gridSuffix?] at hsuffix
    split at hsuffix
    · contradiction
    · next c rest hreverse =>
      split at hsuffix
      · next hclose =>
        subst hclose
        obtain ⟨text, earlier, rfl, hpasses, hanchor, rfl⟩ := exists_of_openBracket? hsuffix
        refine ⟨earlier.reverse, ?_, ?_, ?_⟩
        · rw [List.reverse_eq_iff] at hreverse
          rw [hreverse]
          simp
        · simpa using hpasses
        · simpa using hanchor
      · contradiction
  · rintro ⟨before, rfl, hpasses, hanchor⟩
    have hreverse : (before ++ '[' :: grid ++ [']']).reverse =
        ']' :: (grid.reverse ++ '[' :: before.reverse) := by
      simp
    rw [gridSuffix?, hreverse]
    simp only [if_true]
    rw [openBracket?_append hpasses, openBracket?, if_neg (by decide), if_pos rfl, hanchor]
    simp

theorem length_lt_of_gridSuffix? {term criterion grid : List Char}
    (hsuffix : gridSuffix? term = some (criterion, grid)) : criterion.length < term.length := by
  obtain ⟨before, rfl, -, hanchor⟩ := gridSuffix?_eq_some_iff.mp hsuffix
  have hle := length_le_of_anchor? hanchor
  simp only [List.length_reverse, List.length_append, List.length_cons] at hle ⊢
  omega

theorem splitGrid_eq_self_iff {term : List Char} :
    splitGrid term = (term, []) ↔ gridSuffix? term = none := by
  rw [splitGrid]
  cases hsuffix : gridSuffix? term with
  | none => simp
  | some parts =>
    obtain ⟨criterion, grid⟩ := parts
    have hlt := length_lt_of_gridSuffix? hsuffix
    simp only [Prod.mk.injEq, reduceCtorEq, iff_false, not_and]
    rintro rfl
    exact absurd hlt (Nat.lt_irrefl _)

theorem criterion_of_gridSuffix? {term criterion inside : List Char}
    (hsuffix : gridSuffix? term = some (criterion, inside)) :
    criterion <+: term ∧ Anchors criterion.reverse := by
  obtain ⟨before, rfl, -, hanchor⟩ := gridSuffix?_eq_some_iff.mp hsuffix
  obtain ⟨hanchors, hbefore⟩ := anchors_of_anchor? hanchor
  refine ⟨?_, hanchors⟩
  have hprefix : criterion <+: before := by
    rw [← List.reverse_suffix]
    rcases hbefore with heq | ⟨b, heq⟩
    · exact heq ▸ List.suffix_rfl
    · exact heq ▸ List.suffix_cons b _
  rw [List.append_assoc]
  exact hprefix.trans (List.prefix_append _ _)

theorem isTrimmed_of_gridSuffix? {term criterion inside : List Char} (hterm : IsTrimmed term)
    (hsuffix : gridSuffix? term = some (criterion, inside)) :
    criterion ≠ [] ∧ IsTrimmed criterion := by
  obtain ⟨⟨rest, rfl⟩, c, hc, hblank, -⟩ := criterion_of_gridSuffix? hsuffix
  rw [List.head?_reverse] at hc
  have hne : criterion ≠ [] := by
    rintro rfl
    contradiction
  refine ⟨hne, ?_, ?_⟩
  · intro d hd
    apply hterm.1
    rw [List.head?_append, hd]
    rfl
  · intro d hd
    rw [Option.mem_unique hd hc]
    exact hblank

theorem isInfix_splitGrid (term : List Char) :
    (splitGrid term).1 <:+: term ∧ (splitGrid term).2 <:+: term := by
  rw [splitGrid]
  split
  · next criterion inside hsuffix =>
    refine ⟨(criterion_of_gridSuffix? hsuffix).1.isInfix, ?_⟩
    obtain ⟨before, rfl, -, -⟩ := gridSuffix?_eq_some_iff.mp hsuffix
    refine (isInfix_trim inside).trans ⟨before ++ ['['], [']'], ?_⟩
    simp
  · exact ⟨List.infix_rfl, List.nil_infix⟩

/-! ### A suffix that is written -/

theorem isTrimmed_append_suffix {criterion : List Char} (hne : criterion ≠ [])
    (hfirst : ∀ c ∈ criterion.head?, isBlank c = false) (grid : List Char) :
    IsTrimmed (criterion ++ '[' :: grid ++ [']']) := by
  obtain ⟨c, rest, rfl⟩ := List.exists_cons_of_ne_nil hne
  refine ⟨fun d hd => hfirst d hd, fun d hd => ?_⟩
  rw [List.getLast?_concat, Option.mem_some_iff] at hd
  subst hd
  decide

theorem splitGrid_append_suffix {criterion grid : List Char} (hanchors : Anchors criterion.reverse)
    (hpasses : Passes grid.reverse ('[' :: criterion.reverse)) (hgrid : IsTrimmed grid) :
    splitGrid (criterion ++ '[' :: grid ++ [']']) = (criterion, grid) := by
  have hsuffix : gridSuffix? (criterion ++ '[' :: grid ++ [']']) = some (criterion, grid) :=
    gridSuffix?_eq_some_iff.mpr ⟨criterion, rfl, hpasses, hanchors.anchor?⟩
  rw [splitGrid, hsuffix]
  simp only [hgrid.trim_eq]

/-- What was cut off the inside of a suffix kept no other bracket from being passed over. -/
theorem Passes.trim {inside before : List Char} (hpasses : Passes inside.reverse before)
    (hbracket : (trim inside).head? ≠ some '[') (other : List Char) :
    Passes (trim inside).reverse other := by
  obtain ⟨left, right, hinside⟩ := isInfix_trim inside
  rw [← hinside, List.reverse_append, List.reverse_append] at hpasses
  have hkept := (passes_append.mp (passes_append.mp hpasses).2).1
  refine hkept.elsewhere (fun c hc => ?_) other
  rw [List.getLast?_reverse] at hc
  refine ⟨(isTrimmed_trim inside).1 c hc, ?_⟩
  rintro rfl
  exact hbracket hc

/-- A bracket right behind the one that is to open the suffix takes its place. -/
theorem splitGrid_append_suffix_ne {criterion rest : List Char} :
    splitGrid (criterion ++ '[' :: '[' :: rest ++ [']']) ≠ (criterion, '[' :: rest) := by
  intro hsplit
  cases hsuffix : gridSuffix? (criterion ++ '[' :: '[' :: rest ++ [']']) with
  | none =>
    rw [splitGrid, hsuffix] at hsplit
    have hcriterion := congrArg List.length (Prod.mk.inj hsplit).1
    simp only [List.length_append, List.length_cons] at hcriterion
    omega
  | some parts =>
    obtain ⟨found, inside⟩ := parts
    rw [splitGrid, hsuffix] at hsplit
    obtain ⟨rfl, hinside⟩ := Prod.mk.inj hsplit
    obtain ⟨before, hterm, hpasses, hanchor⟩ := gridSuffix?_eq_some_iff.mp hsuffix
    have hterm := List.append_cancel_right hterm
    rcases (anchors_of_anchor? hanchor).2 with hbefore | ⟨b, hbefore⟩
    · obtain rfl := List.reverse_inj.mp hbefore
      obtain rfl := (List.cons.inj (List.append_cancel_left hterm)).2
      rw [List.reverse_cons, passes_append] at hpasses
      have hnone := hpasses.2.2.1 rfl
      rw [List.nil_append, anchor?_of_not_isBlank (by decide), if_neg (by decide)] at hnone
      contradiction
    · have hsplit := congrArg List.length hterm
      have hlonger := congrArg List.length hbefore
      have hcut := (isInfix_trim inside).length_le
      rw [hinside] at hcut
      simp only [List.length_append, List.length_cons, List.length_reverse] at hsplit hlonger hcut
      omega

end ElementQuery.Locator
