import ElementQuery.Condition
import ElementQuery.Proofs.Registry
import ElementQuery.Proofs.Text.Character
import ElementQuery.Proofs.Text.Split

/-!
# Queries that ask for given values

A program that looks for an element with given values writes a query: one term for each value, with
the name of the property, a colon and the value in escaped form. Four readers look at that text
before the escapes are resolved: the one that splits it into terms, the one that looks for the
colon, the trimming and the one that looks for a grid suffix. None of them finds anything to do in
an escaped value, so the query stands for exactly the values that it was written for.

A value has to be one that a query can ask for. A number has sixty-four bits, and a text does not
end with white space, which would be trimmed; only the three characters that are written with a
letter may end it.
-/

namespace ElementQuery

open Text

/-! ### Values as text -/

namespace PropertyValue

def kind : PropertyValue → ValueKind
  | .text _ => .text
  | .integer _ => .integer
  | .boolean _ => .boolean
  | .controlType _ => .controlType

/-- Holds of the values that a query can ask for. -/
def Expressible : PropertyValue → Prop
  | .text s => ∀ c ∈ s.toList.getLast?, isBlank c = true → c ∈ letteredChars
  | .integer i => isSigned i = true
  | .boolean _ => True
  | .controlType _ => True

instance : DecidablePred Expressible
  | .text s =>
    decidable_of_iff ((s.toList.getLast?.all fun c => !isBlank c || letteredChars.contains c) = true)
      (by simp [Expressible, Option.all_eq_true, or_iff_not_imp_left])
  | .integer i => inferInstanceAs (Decidable (isSigned i = true))
  | .boolean _ => .isTrue trivial
  | .controlType _ => .isTrue trivial

private theorem isBlank_of_mem_name {c : ControlType} {d : Char} (hd : d ∈ c.name.toList) :
    isBlank d = false := by
  have hnames : (ControlType.all.all fun c => c.name.toList.all fun d => !isBlank d) = true := by
    decide
  have hname := List.all_eq_true.mp hnames c (ControlType.mem_all c)
  simpa using List.all_eq_true.mp hname d hd

theorem Expressible.last_render {v : PropertyValue} (hv : v.Expressible) :
    ∀ c ∈ v.render.toList.getLast?, isBlank c = true → c ∈ letteredChars := by
  intro c hc hblank
  have hmem : c ∈ v.render.toList := List.mem_of_getLast? hc
  cases v with
  | text s => exact hv c hc hblank
  | integer i =>
    rw [render, String.toList_ofList] at hmem
    rw [isBlank_of_mem_writeInt hmem] at hblank
    contradiction
  | boolean b =>
    have hletters : ((PropertyValue.boolean b).render.toList.all fun c => !isBlank c) = true := by
      cases b <;> decide
    have hletter := List.all_eq_true.mp hletters c hmem
    rw [hblank] at hletter
    contradiction
  | controlType k =>
    rw [isBlank_of_mem_name hmem] at hblank
    contradiction

end PropertyValue

theorem Locator.target_eq {l : Locator} {p : Property} {v : PropertyValue}
    (hproperty : l.property = .ok p) (hkind : v.kind = p.valueKind) (hv : v.Expressible)
    (hvalue : l.value = v.render) : l.target = .ok v := by
  simp only [target, hproperty, bind, Except.bind, ← hkind]
  cases v with
  | text s =>
    rw [hvalue]
    rfl
  | integer i =>
    have htrim : trim (writeInt i) = writeInt i :=
      trim_eq_self (fun c hc => isBlank_of_mem_writeInt (List.mem_of_head? hc))
        (fun c hc => isBlank_of_mem_writeInt (List.mem_of_getLast? hc))
    have hread : readSigned? (trim l.value.toList) = some i := by
      rw [hvalue, PropertyValue.render, String.toList_ofList, htrim]
      exact readSigned?_writeInt hv
    rw [PropertyValue.kind, hread]
    rfl
  | boolean b =>
    have hread : ∀ b, PropertyValue.readBoolean? (PropertyValue.boolean b).render = some b := by
      decide
    rw [PropertyValue.kind, hvalue, hread]
    rfl
  | controlType c =>
    have hlookup : ControlType.registry.lookup l.value = .ok c := by
      rw [hvalue]
      exact Registry.lookup_eq_ok_iff.mpr (ControlType.registry_get?_name c)
    rw [PropertyValue.kind, hlookup]
    rfl

/-! ### Escaped text and the grid suffix -/

namespace Locator

private theorem openBracket?_backslash {before : List Char}
    (hnone : ∀ inside, openBracket? before inside = none) (inside : List Char) :
    openBracket? ('\\' :: before) inside = none := by
  rw [openBracket?, if_neg (by decide), if_neg (by decide), hnone]

theorem openBracket?_escape (cs inside : List Char) :
    openBracket? (escape cs).reverse inside = none := by
  induction cs using List.reverseRecOn generalizing inside with
  | nil => rfl
  | append_singleton cs c ih =>
    rw [escape_append, escape_singleton, List.reverse_append]
    rcases escapeChar_cases c with ⟨hc, hletter⟩ | ⟨d, hd, _⟩
    · have hclose : c ≠ ']' := by rintro rfl; exact absurd hletter (by decide)
      have hopen : c ≠ '[' := by rintro rfl; exact absurd hletter (by decide)
      rw [hc, List.reverse_singleton, List.singleton_append, openBracket?, if_neg hclose,
        if_neg hopen, ih]
    · have hbackslash := openBracket?_backslash ih
      -- A bracket behind a backslash is not anchored, so the search goes on before the backslash.
      have hanchor : anchor? ('\\' :: (escape cs).reverse) = none := by
        have hblank : isBlank '\\' = false := by decide
        unfold anchor?
        simp only [hblank, Bool.false_eq_true, if_false]
        rfl
      rw [hd]
      change openBracket? (d :: '\\' :: (escape cs).reverse) inside = none
      rw [openBracket?, hanchor, hbackslash]
      simp

theorem splitGrid_escape (cs : List Char) : splitGrid (escape cs) = (escape cs, []) := by
  have hnone : gridSuffix? (escape cs) = none := by
    induction cs using List.reverseRecOn with
    | nil => rfl
    | append_singleton cs c _ =>
      rw [escape_append, escape_singleton, gridSuffix?, List.reverse_append]
      rcases escapeChar_cases c with ⟨hc, hletter⟩ | ⟨d, hd, _⟩
      · have hclose : c ≠ ']' := by rintro rfl; exact absurd hletter (by decide)
        rw [hc]
        exact if_neg hclose
      · rw [hd]
        change (if d = ']' then openBracket? ('\\' :: (escape cs).reverse) [] else none) = none
        rw [openBracket?_backslash (openBracket?_escape cs), ite_self]
  rw [splitGrid, hnone]

end Locator

/-! ### Ampersands and the delimiter -/

/-- Where no ampersand follows a blank, the delimiter of a query neither appears nor begins. -/
theorem Query.delimiter_clear {cs : List Char} (hchain : cs.IsChain NoAmpersand) :
    ¬ delimiter <:+: cs ++ delimiter.dropLast := by
  rintro ⟨before, after, heq⟩
  rw [List.append_assoc, List.append_eq_append_iff] at heq
  rcases heq with ⟨overlap, rfl, hrest⟩ | ⟨overlap, -, hrest⟩
  · match overlap with
    | [] => simpa [delimiter] using congrArg List.length hrest
    | [_] => simp [delimiter] at hrest
    | c :: d :: overlap =>
      simp only [delimiter, List.cons_append, List.cons.injEq] at hrest
      obtain ⟨rfl, rfl, -⟩ := hrest
      have hpair : NoAmpersand ' ' '&' :=
        (List.isChain_cons_cons.mp hchain.right_of_append).1
      exact hpair rfl rfl
  · have hlength := congrArg List.length hrest
    simp only [delimiter, List.length_append, List.length_dropLast, List.length_cons,
      List.length_nil] at hlength
    omega

/-! ### Demands -/

/-- A value that a property is asked to have; the property is named in any spelling. -/
structure Demand where
  name : String
  property : Property
  value : PropertyValue
  named : Property.registry.get? name = some property
  typed : value.kind = property.valueKind
  expressible : value.Expressible

namespace Demand

def term (d : Demand) : List Char :=
  d.name.toList ++ ':' :: escape d.value.render.toList

def condition (d : Demand) : Condition :=
  .property d.property d.value

/-- What the term is read as. -/
def locator (d : Demand) : Locator :=
  { method := trimmed d.name
    criterion := String.ofList (escape d.value.render.toList)
    grid := "" }

theorem not_mem_name (d : Demand) {c : Char} (hblank : isBlank c = false)
    (hletter : isSmall (lower c) = false) : c ∉ d.name.toList := by
  intro hc
  rw [Registry.isSmall_lower_of_get? Property.registry_inLetters d.named hc hblank] at hletter
  contradiction

theorem term_clear (d : Demand) :
    ¬ Query.delimiter <:+: d.term ++ Query.delimiter.dropLast := by
  have hamp : '&' ∉ d.name.toList := d.not_mem_name (by decide) (by decide)
  have hname : d.name.toList.IsChain NoAmpersand := by
    apply List.Pairwise.isChain
    exact List.pairwise_of_forall_mem_list fun _ _ c hc _ heq => hamp (heq ▸ hc)
  have hcolon : (':' :: escape d.value.render.toList).IsChain NoAmpersand := by
    refine List.isChain_cons.mpr ⟨fun _ _ hblank => ?_, isChain_escape _⟩
    exact absurd hblank (by decide)
  refine Query.delimiter_clear (hname.append hcolon ?_)
  rintro _ _ c hc - rfl
  rw [List.head?_cons, Option.mem_some_iff] at hc
  exact absurd hc (by decide)

/-- A term is split at its colon; nothing of the value is trimmed or taken for a grid suffix. -/
theorem ofChars_term (d : Demand) (defaultMethod : List Char) :
    Locator.ofChars d.term defaultMethod = d.locator := by
  have hcolon : ':' ∉ d.name.toList := d.not_mem_name (by decide) (by decide)
  have hsplit : splitFirst ':' d.term = some (d.name.toList, escape d.value.render.toList) :=
    splitFirst_append hcolon _
  have htrim := trim_escape d.expressible.last_render
  simp only [Locator.ofChars, hsplit, htrim, Locator.splitGrid_escape]
  rfl

theorem locator_property (d : Demand) : d.locator.property = .ok d.property := by
  rw [Locator.property, Registry.lookup_eq_ok_iff, ← d.named]
  apply Registry.get?_congr
  rw [locator, trimmed, String.toList_ofList, Registry.normalize_trim]

theorem locator_condition (d : Demand) : d.locator.condition = .ok d.condition := by
  have hvalue : d.locator.value = d.value.render := by
    rw [Locator.value, locator, String.toList_ofList, unescape_escape, String.ofList_toList]
  have htarget := Locator.target_eq d.locator_property d.typed d.expressible hvalue
  rw [Locator.condition, d.locator_property, htarget]
  rfl

theorem conditions_map_locator (ds : List Demand) :
    Query.conditions (ds.map locator) = .ok (ds.map condition) := by
  induction ds with
  | nil => rfl
  | cons d ds ih =>
    rw [List.map_cons, Query.conditions, d.locator_condition, ih]
    rfl

theorem locator_isEmpty (d : Demand) : d.locator.isEmpty = false := by
  have hmethod : d.locator.method ≠ "" := by
    intro heq
    have hproperty := d.locator_property
    rw [Locator.property, heq] at hproperty
    exact absurd hproperty (by cases d.property <;> decide)
  have hchars : d.locator.method.toList ≠ [] := fun heq => hmethod (String.toList_eq_nil_iff.mp heq)
  rw [Locator.isEmpty, List.isEmpty_eq_false_iff.mpr hchars, Bool.false_and]

def text (ds : List Demand) : String :=
  String.ofList (joinWith Query.delimiter (ds.map term))

theorem parse_text (first : Demand) (others : List Demand) (defaultMethod : String) :
    Query.parse (text (first :: others)) defaultMethod = ⟨(first :: others).map locator⟩ := by
  have hsplit : splitAt Query.delimiter (joinWith Query.delimiter ((first :: others).map term)) =
      (first :: others).map term := by
    apply splitAt_joinWith (by decide)
    intro piece hpiece
    obtain ⟨d, -, rfl⟩ := List.mem_map.mp (List.map_cons ▸ hpiece)
    exact d.term_clear
  rw [Query.parse, Query.ofChars, text, String.toList_ofList, hsplit, List.map_map]
  congr 2
  exact funext fun d => d.ofChars_term _

/--
A query that is written for values, in escaped form, stands for exactly these values: there is one
locator for each, none with a grid address, and the condition is the first demand when it is the
only one and else the conjunction of all in order.
-/
theorem condition_parse_text (first : Demand) (others : List Demand) (defaultMethod : String) :
    (Query.parse (text (first :: others)) defaultMethod).locators.length = others.length + 1 ∧
      (∀ l ∈ (Query.parse (text (first :: others)) defaultMethod).locators,
        l.hasGrid = false) ∧
      (Query.parse (text (first :: others)) defaultMethod).condition =
        .ok (match others with
          | [] => first.condition
          | _ => .all ((first :: others).map condition)) := by
  rw [parse_text]
  refine ⟨by simp, ?_, ?_⟩
  · intro l hl
    obtain ⟨d, -, rfl⟩ := List.mem_map.mp hl
    rfl
  · rw [Query.condition]
    cases others with
    | nil =>
      have hasks : Query.isAnything ⟨[first].map locator⟩ = false := first.locator_isEmpty
      rw [hasks, conditions_map_locator]
      rfl
    | cons second others =>
      rw [conditions_map_locator]
      rfl

/-- Two values are asked for that hold ampersands, brackets, a colon and a backslash. -/
theorem condition_parse_text_caption :
    let caption : Demand :=
      { name := " CAPTION"
        property := .name
        value := .text "a && b:[1]"
        named := by decide
        typed := rfl
        expressible := by decide }
    let help : Demand :=
      { name := "help text"
        property := .helpText
        value := .text "]\\ \t"
        named := by decide
        typed := rfl
        expressible := by decide }
    text [caption, help] =
        " CAPTION:\\a\\ \\&\\&\\ \\b\\:\\[\\1\\] && help text:\\]\\\\\\ \\t" ∧
      (Query.parse (text [caption, help]) "Id").locators.length = 2 ∧
      (Query.parse (text [caption, help]) "Id").condition =
        .ok (.all [.property .name (.text "a && b:[1]"), .property .helpText (.text "]\\ \t")]) := by
  intro caption help
  obtain ⟨hlength, -, hcondition⟩ := condition_parse_text caption [help] "Id"
  exact ⟨by decide, hlength, hcondition⟩

end Demand

end ElementQuery
