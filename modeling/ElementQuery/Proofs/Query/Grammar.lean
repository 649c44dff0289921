import ElementQuery.Proofs.Query.GridSuffix
import ElementQuery.Proofs.Text.Split

/-!
# The grammar of terms

What a term says, apart from how it is searched. The first colon ends the method. Of the rest, a
bracket may open the grid suffix if the term ends with a closing bracket, no other one stands between
the two, and the text before it is anchored. Several brackets may do so, as in `a[b[1]`, and then the
last of them opens the suffix.

The search for the bracket goes leftwards and so meets the brackets inside the suffix first. It
passes over them because their text is not anchored, which is to say that they may not open the
suffix: the bracket it stops at is the last one that may. So the grammar and the search read every
term in the same way, and the grammar reads no term in two ways.
-/

namespace ElementQuery.Locator

open Text

/-- A text without the one white space character that may end it. -/
def dropBlank (text : List Char) : List Char :=
  match text.getLast? with
  | some c => if isBlank c then text.dropLast else text
  | none => text

/-- Holds of the text before a bracket and the text inside, if the bracket may open the grid suffix
of a term. -/
structure Opens (term before inside : List Char) : Prop where
  split : term = before ++ '[' :: inside ++ [']']
  unclosed : ']' ∉ inside
  anchored : ∃ c ∈ (dropBlank before).getLast?, isBlank c = false ∧ c ≠ '\\'

/-- Holds of the last bracket that may open the grid suffix of a term. -/
structure OpensLast (term before inside : List Char) : Prop extends Opens term before inside where
  last : ∀ before' inside', Opens term before' inside' → before'.length ≤ before.length

/-- The method of a term and the rest of the term. -/
inductive MethodParts (term defaultMethod : List Char) : (method rest : List Char) → Prop where
  | named {before after : List Char} (hterm : term = before ++ ':' :: after)
      (hfirst : ':' ∉ before) : MethodParts term defaultMethod (trim before) (trim after)
  | unnamed (hnone : ':' ∉ term) : MethodParts term defaultMethod defaultMethod (trim term)

/-- The criterion and the grid address of a term without its method. -/
inductive GridParts (term : List Char) : (criterion grid : List Char) → Prop where
  | suffix {before inside : List Char} (hopens : OpensLast term before inside) :
      GridParts term (dropBlank before) (trim inside)
  | plain (hnone : ∀ before inside, ¬ Opens term before inside) : GridParts term term []

/-- Holds of a term and the locator that it says by the grammar. -/
def Says (input defaultMethod : String) (l : Locator) : Prop :=
  ∃ rest, MethodParts input.toList defaultMethod.toList l.method.toList rest ∧
    GridParts rest l.criterion.toList l.grid.toList

/-! ### Brackets that may open the suffix -/

theorem dropBlank_concat (text : List Char) (c : Char) :
    dropBlank (text ++ [c]) = if isBlank c then text else text ++ [c] := by
  rw [dropBlank, List.getLast?_concat]
  simp only [List.dropLast_concat]

theorem ite_anchored_iff {p : Prop} [Decidable p] {c : Char} {before text : List Char}
    (hp : p ↔ isBlank c = true ∨ c = '\\') :
    (if p then none else some (c :: before)) = some text ↔
      text = c :: before ∧ ∃ d ∈ some c, isBlank d = false ∧ d ≠ '\\' := by
  simp only [Option.mem_some_iff, exists_eq_left', hp]
  split
  · next hc =>
    refine iff_of_false (fun hnone => nomatch hnone) fun hanchored => ?_
    rcases hc with hblank | hbackslash
    · rw [hanchored.2.1] at hblank
      contradiction
    · exact hanchored.2.2 hbackslash
  · next hc =>
    rw [not_or, Bool.not_eq_true] at hc
    rw [Option.some.injEq]
    exact ⟨fun heq => ⟨heq.symm, hc⟩, fun hanchored => hanchored.1.symm⟩

/-- A text is anchored if it ends with neither white space nor a backslash once the white space at
its end is dropped. -/
theorem anchor?_reverse_eq_some_iff {before text : List Char} :
    anchor? before.reverse = some text ↔
      text = (dropBlank before).reverse ∧
        ∃ c ∈ (dropBlank before).getLast?, isBlank c = false ∧ c ≠ '\\' := by
  have hempty : none = some text ↔
      text = (dropBlank []).reverse ∧
        ∃ c ∈ (dropBlank []).getLast?, isBlank c = false ∧ c ≠ '\\' := by
    refine iff_of_false (fun hnone => nomatch hnone) ?_
    rintro ⟨-, c, hc, -⟩
    contradiction
  rcases List.eq_nil_or_concat before with rfl | ⟨before, b, rfl⟩
  · exact hempty
  rw [List.concat_eq_append, dropBlank_concat, List.reverse_concat]
  by_cases hb : isBlank b = true
  · rw [if_pos hb]
    rcases List.eq_nil_or_concat before with rfl | ⟨before, c, rfl⟩
    · rw [List.reverse_nil, anchor?_singleton hb]
      exact hempty
    · rw [List.concat_eq_append, List.reverse_concat, anchor?_of_isBlank hb, List.getLast?_concat]
      exact ite_anchored_iff (by rw [Bool.or_eq_true, decide_eq_true_eq])
  · rw [if_neg hb, List.reverse_concat, List.getLast?_concat]
    rw [Bool.not_eq_true] at hb
    rw [anchor?_of_not_isBlank hb]
    exact ite_anchored_iff (by simp [hb])

theorem passes_iff {text before : List Char} :
    Passes text before ↔
      ']' ∉ text ∧ ∀ near far, text = near ++ '[' :: far → anchor? (far ++ before) = none := by
  induction text with
  | nil => simp [Passes]
  | cons c text ih =>
    rw [Passes, ih, List.mem_cons, not_or]
    constructor
    · rintro ⟨hclose, hopen, hrest, hlater⟩
      refine ⟨⟨Ne.symm hclose, hrest⟩, fun near far hsplit => ?_⟩
      rcases List.cons_eq_append_iff.mp hsplit with ⟨rfl, hcons⟩ | ⟨near, -, htext⟩
      · obtain ⟨rfl, rfl⟩ := List.cons.inj hcons
        exact hopen rfl
      · exact hlater near far htext
    · rintro ⟨⟨hclose, hrest⟩, hnone⟩
      refine ⟨Ne.symm hclose, fun hopen => ?_, hrest, fun near far hsplit => ?_⟩
      · exact hnone [] text (by rw [hopen, List.nil_append])
      · exact hnone (c :: near) far (by rw [hsplit, List.cons_append])

theorem exists_of_length_lt {before inside before' inside' : List Char}
    (hsplit : before ++ '[' :: inside = before' ++ '[' :: inside')
    (hlt : before.length < before'.length) :
    ∃ left, inside = left ++ '[' :: inside' ∧ before' = before ++ '[' :: left := by
  rcases List.append_eq_append_iff.mp hsplit with ⟨left, hbefore, hinside⟩ | ⟨left, hbefore, -⟩
  · rcases List.cons_eq_append_iff.mp hinside with ⟨rfl, -⟩ | ⟨left, rfl, hlater⟩
    · rw [hbefore, List.append_nil] at hlt
      exact absurd hlt (Nat.lt_irrefl _)
    · exact ⟨left, hlater, hbefore⟩
  · rw [hbefore, List.length_append] at hlt
    omega

/-- The search passes over the inside of a suffix exactly if no bracket in there may open one. -/
theorem passes_iff_last {before inside : List Char}
    (hunclosed : ']' ∉ inside) :
    Passes inside.reverse ('[' :: before.reverse) ↔
      ∀ before' inside', Opens (before ++ '[' :: inside ++ [']']) before' inside' →
        before'.length ≤ before.length := by
  rw [passes_iff]
  constructor
  · rintro ⟨-, hnone⟩ before' inside' hopens
    refine Nat.le_of_not_lt fun hlt => ?_
    obtain ⟨left, rfl, rfl⟩ :=
      exists_of_length_lt (List.append_cancel_right hopens.split) hlt
    have hanchor := hnone inside'.reverse left.reverse (by simp)
    have hfound := anchor?_reverse_eq_some_iff.mpr ⟨rfl, hopens.anchored⟩
    simp only [List.reverse_append, List.reverse_cons, List.append_assoc,
      List.singleton_append] at hfound
    rw [hanchor] at hfound
    contradiction
  · intro hlast
    refine ⟨by simpa using hunclosed, fun near far hsplit => ?_⟩
    rw [List.reverse_eq_iff] at hsplit
    cases hanchor : anchor? (far ++ '[' :: before.reverse) with
    | none => rfl
    | some text =>
      have hopens : Opens (before ++ '[' :: inside ++ [']']) (before ++ '[' :: far.reverse)
          near.reverse := by
        refine ⟨by simp [hsplit], ?_, ?_⟩
        · intro hmem
          exact hunclosed (by simp_all)
        · have hanchored : anchor? (before ++ '[' :: far.reverse).reverse = some text := by
            simpa using hanchor
          exact (anchor?_reverse_eq_some_iff.mp hanchored).2
      have hle := hlast _ _ hopens
      rw [List.length_append, List.length_cons] at hle
      omega

theorem gridSuffix?_eq_some_iff_opensLast {term criterion inside : List Char} :
    gridSuffix? term = some (criterion, inside) ↔
      ∃ before, OpensLast term before inside ∧ criterion = dropBlank before := by
  rw [gridSuffix?_eq_some_iff]
  refine exists_congr fun before => ?_
  rw [anchor?_reverse_eq_some_iff, List.reverse_inj]
  constructor
  · rintro ⟨rfl, hpasses, hcriterion, hanchored⟩
    have hunclosed : ']' ∉ inside := by simpa using (passes_iff.mp hpasses).1
    exact ⟨⟨⟨rfl, hunclosed, hanchored⟩, (passes_iff_last hunclosed).mp hpasses⟩, hcriterion⟩
  · rintro ⟨⟨⟨rfl, hunclosed, hanchored⟩, hlast⟩, hcriterion⟩
    exact ⟨rfl, (passes_iff_last hunclosed).mpr hlast, hcriterion, hanchored⟩

theorem Opens.exists_last {term before inside : List Char} (hopens : Opens term before inside) :
    ∃ before inside, OpensLast term before inside := by
  induction hgap : term.length - before.length using Nat.strongRecOn generalizing before inside with
  | _ gap ih =>
    by_cases hlast : ∀ before' inside', Opens term before' inside' → before'.length ≤ before.length
    · exact ⟨before, inside, hopens, hlast⟩
    · simp only [Classical.not_forall, Nat.not_le] at hlast
      obtain ⟨before', inside', hopens', hlt⟩ := hlast
      have hterm := congrArg List.length hopens'.split
      simp only [List.length_append, List.length_cons] at hterm
      exact ih (term.length - before'.length) (by omega) hopens' rfl

theorem gridSuffix?_eq_none_iff {term : List Char} :
    gridSuffix? term = none ↔ ∀ before inside, ¬ Opens term before inside := by
  constructor
  · intro hnone before inside hopens
    obtain ⟨before, inside, hlast⟩ := hopens.exists_last
    have hsome := gridSuffix?_eq_some_iff_opensLast.mpr ⟨before, hlast, rfl⟩
    rw [hnone] at hsome
    contradiction
  · intro hopens
    cases hsuffix : gridSuffix? term with
    | none => rfl
    | some parts =>
      obtain ⟨before, hlast, -⟩ := gridSuffix?_eq_some_iff_opensLast.mp hsuffix
      exact absurd hlast.toOpens (hopens before parts.2)

/-! ### The parts of a term -/

theorem splitGrid_eq_iff {term criterion grid : List Char} :
    splitGrid term = (criterion, grid) ↔ GridParts term criterion grid := by
  constructor
  · intro hsplit
    rw [splitGrid] at hsplit
    split at hsplit
    · next hsuffix =>
      obtain ⟨before, hlast, rfl⟩ := gridSuffix?_eq_some_iff_opensLast.mp hsuffix
      obtain ⟨rfl, rfl⟩ := Prod.mk.inj hsplit
      exact .suffix hlast
    · next hnone =>
      obtain ⟨rfl, rfl⟩ := Prod.mk.inj hsplit
      exact .plain (gridSuffix?_eq_none_iff.mp hnone)
  · intro hparts
    rw [splitGrid]
    cases hparts with
    | suffix hlast => rw [gridSuffix?_eq_some_iff_opensLast.mpr ⟨_, hlast, rfl⟩]
    | plain hnone => rw [gridSuffix?_eq_none_iff.mpr hnone]

def splitMethod (cs defaultMethod : List Char) : List Char × List Char :=
  match splitFirst ':' cs with
  | some (before, after) => (trim before, trim after)
  | none => (defaultMethod, trim cs)

theorem splitMethod_eq_iff {cs defaultMethod method rest : List Char} :
    splitMethod cs defaultMethod = (method, rest) ↔ MethodParts cs defaultMethod method rest := by
  constructor
  · intro hparts
    by_cases hcolon : ':' ∈ cs
    · obtain ⟨before, after, rfl, hfirst⟩ := List.eq_append_cons_of_mem hcolon
      rw [splitMethod, splitFirst_append hfirst] at hparts
      obtain ⟨rfl, rfl⟩ := Prod.mk.inj hparts
      exact .named rfl hfirst
    · rw [splitMethod, splitFirst_eq_none hcolon] at hparts
      obtain ⟨rfl, rfl⟩ := Prod.mk.inj hparts
      exact .unnamed hcolon
  · intro hparts
    rw [splitMethod]
    cases hparts with
    | named hterm hfirst => rw [hterm, splitFirst_append hfirst]
    | unnamed hnone => rw [splitFirst_eq_none hnone]

theorem ofChars_eq (cs defaultMethod : List Char) :
    ofChars cs defaultMethod =
      { method := String.ofList (splitMethod cs defaultMethod).1
        criterion := String.ofList (splitGrid (splitMethod cs defaultMethod).2).1
        grid := String.ofList (splitGrid (splitMethod cs defaultMethod).2).2 } := by
  cases hsplit : splitFirst ':' cs <;> simp only [ofChars, splitMethod, hsplit]

/-- A term is read as the one locator that it says by the grammar. -/
theorem parse_eq_iff_says {input defaultMethod : String} {l : Locator} :
    parse input defaultMethod = l ↔ Says input defaultMethod l := by
  rw [parse, ofChars_eq]
  constructor
  · rintro rfl
    refine ⟨(splitMethod input.toList defaultMethod.toList).2, ?_, ?_⟩
    · rw [String.toList_ofList]
      exact splitMethod_eq_iff.mp rfl
    · rw [String.toList_ofList, String.toList_ofList]
      exact splitGrid_eq_iff.mp rfl
  · rintro ⟨rest, hmethod, hgrid⟩
    rw [splitMethod_eq_iff.mpr hmethod, splitGrid_eq_iff.mpr hgrid, String.ofList_toList,
      String.ofList_toList, String.ofList_toList]

/-- The colon in the criterion stays there, and of two brackets the last opens the suffix. -/
example : parse " id : a:b[c [ 1 ] " "Name" = ⟨"id", "a:b[c", "1"⟩ := by decide +kernel

end ElementQuery.Locator
