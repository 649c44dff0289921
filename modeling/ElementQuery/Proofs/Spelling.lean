import ElementQuery.Proofs.Settings.Bounds
import ElementQuery.Proofs.Text.Split
import ElementQuery.Query

/-!
# Spellings of a name

A name is spelled by its letters in order, each in either case, with white space before, between and
after them; the Kelvin sign is one more way to write a `k`. The names of a table are written without
white space, and then two texts are compared as equal exactly if one is a spelling of the other. So a
table in which no two names are compared as equal answers a text with what it lists under the name
that the text spells, and every other text it reports as unknown.

Whoever asks for a name asks in this way: the property of a term, the test for the main window, and
the settings, which accept a name under every spelling and look terms without a method up by it.
-/

namespace ElementQuery

open Text

namespace Registry

/-- The ways to write each letter, the Kelvin sign being one for `k`. -/
def letterForms : List (List Char) :=
  [['a', 'A'], ['b', 'B'], ['c', 'C'], ['d', 'D'], ['e', 'E'], ['f', 'F'], ['g', 'G'],
   ['h', 'H'], ['i', 'I'], ['j', 'J'], ['k', 'K', '\u212A'], ['l', 'L'], ['m', 'M'], ['n', 'N'],
   ['o', 'O'], ['p', 'P'], ['q', 'Q'], ['r', 'R'], ['s', 'S'], ['t', 'T'], ['u', 'U'],
   ['v', 'V'], ['w', 'W'], ['x', 'X'], ['y', 'Y'], ['z', 'Z']]

/-- Holds of two characters that are the same or write the same letter. -/
def SameLetter (c d : Char) : Prop :=
  c = d ∨ ∃ forms ∈ letterForms, c ∈ forms ∧ d ∈ forms

/-- Holds of a text that spells a name. -/
inductive Spells : List Char → List Char → Prop where
  | done : Spells [] []
  | blank {c : Char} {cs name : List Char} (hc : isBlank c = true) (hrest : Spells cs name) :
      Spells (c :: cs) name
  | letter {c d : Char} {cs name : List Char} (hcase : SameLetter c d)
      (hrest : Spells cs name) : Spells (c :: cs) (d :: name)

/-- Holds of a table that finds a thing under some text. -/
structure Resolves {α : Type} (r : Registry α) (s : String) (a : α) : Prop where
  lookup : r.lookup s = .ok a
  get? : r.get? s = some a
  contains : r.contains s = true

/-- Holds of a table that finds nothing under some text, and reports the text without the white space
around it. -/
structure Unknown {α : Type} (r : Registry α) (s : String) : Prop where
  lookup : r.lookup s = .error (.unrecognized r.kind (trimmed s))
  get? : r.get? s = none
  contains : r.contains s = false

/-- Holds of a table that knows the spellings of its names, each as what is listed under the name, and
no other text. -/
structure Exact {α : Type} (r : Registry α) : Prop where
  resolves : ∀ (s : String) (a : α),
    r.Resolves s a ↔ ∃ name, (name, a) ∈ r.entries ∧ Spells s.toList name.toList
  unknown : ∀ s : String, r.Unknown s ↔ ∀ name ∈ r.names, ¬ Spells s.toList name.toList

/-- Holds of the tables whose names are written without white space. -/
def Solid {α : Type} (r : Registry α) : Prop :=
  ∀ name ∈ r.names, ∀ c ∈ name.toList, isBlank c = false

variable {α : Type} {r : Registry α} {s name : String} {a : α}

/-! ### Spellings and the form in which names are compared -/

theorem mem_letterForms_of_lower_ne {c : Char} (hne : lower c ≠ c) :
    ∃ forms ∈ letterForms, c ∈ forms ∧ lower c ∈ forms := by
  have hcapitals : ∀ k < 26, ∃ forms ∈ letterForms,
      Char.ofNat (0x41 + k) ∈ forms ∧ lower (Char.ofNat (0x41 + k)) ∈ forms := by
    decide
  by_cases hkelvin : c = '\u212A'
  · rw [hkelvin]
    decide
  · by_cases hcapital : isCapital c = true
    · simp only [isCapital, Bool.and_eq_true, decide_eq_true_eq] at hcapital
      have hc := hcapitals (c.toNat - 0x41) (by omega)
      rwa [Nat.add_sub_cancel' hcapital.1, Char.ofNat_toNat] at hc
    · rw [lower, if_neg hkelvin, lowerAscii, if_neg hcapital] at hne
      exact absurd rfl hne

theorem head?_eq_lower {forms : List Char} {c : Char} (hforms : forms ∈ letterForms) (hc : c ∈ forms) :
    forms.head? = some (lower c) := by
  have hall : (letterForms.all fun forms =>
      forms.all fun c => forms.head? == some (lower c)) = true := by
    decide
  exact beq_iff_eq.mp (List.all_eq_true.mp (List.all_eq_true.mp hall forms hforms) c hc)

theorem sameLetter_iff {c d : Char} : SameLetter c d ↔ lower c = lower d := by
  have hdistinct : (letterForms.map List.head?).Nodup := by decide
  constructor
  · rintro (rfl | ⟨forms, hforms, hc, hd⟩)
    · rfl
    · exact Option.some.inj ((head?_eq_lower hforms hc).symm.trans (head?_eq_lower hforms hd))
  · intro hlower
    by_cases hc : lower c = c
    · by_cases hd : lower d = d
      · exact .inl (hc.symm.trans (hlower.trans hd))
      · obtain ⟨forms, hforms, hmem, hsmall⟩ := mem_letterForms_of_lower_ne hd
        rw [← hlower, hc] at hsmall
        exact .inr ⟨forms, hforms, hsmall, hmem⟩
    · obtain ⟨forms, hforms, hmem, hsmall⟩ := mem_letterForms_of_lower_ne hc
      by_cases hd : lower d = d
      · rw [hlower, hd] at hsmall
        exact .inr ⟨forms, hforms, hmem, hsmall⟩
      · obtain ⟨others, hothers, hmem', -⟩ := mem_letterForms_of_lower_ne hd
        have hheads : forms.head? = others.head? := by
          rw [head?_eq_lower hforms hmem, head?_eq_lower hothers hmem', hlower]
        obtain rfl := List.inj_on_of_nodup_map hdistinct hforms hothers hheads
        exact .inr ⟨forms, hforms, hmem, hmem'⟩

theorem isBlank_lower (c : Char) : isBlank (lower c) = isBlank c := by
  have hcapitals : ∀ k < 26, isBlank (lower (Char.ofNat (0x41 + k))) = false ∧
      isBlank (Char.ofNat (0x41 + k)) = false := by
    decide
  by_cases hkelvin : c = '\u212A'
  · rw [hkelvin]
    decide
  · by_cases hcapital : isCapital c = true
    · simp only [isCapital, Bool.and_eq_true, decide_eq_true_eq] at hcapital
      have hc := hcapitals (c.toNat - 0x41) (by omega)
      rw [Nat.add_sub_cancel' hcapital.1, Char.ofNat_toNat] at hc
      rw [hc.1, hc.2]
    · rw [lower, if_neg hkelvin, lowerAscii, if_neg hcapital]

theorem normalize_cons_blank {c : Char} (hc : isBlank c = true) (cs : List Char) :
    normalize (c :: cs) = normalize cs := by
  rw [normalize, List.filter_cons_of_neg (by simp [hc]), normalize]

theorem normalize_cons {c : Char} (hc : isBlank c = false) (cs : List Char) :
    normalize (c :: cs) = lower c :: normalize cs := by
  rw [normalize, List.filter_cons_of_pos (by simp [hc]), List.map_cons, normalize]

/-- A text is compared as equal with a name without white space if and only if it spells it. -/
theorem spells_iff {cs name : List Char} (hname : ∀ c ∈ name, isBlank c = false) :
    Spells cs name ↔ normalize cs = normalize name := by
  constructor
  · intro hspells
    induction hspells with
    | done => rfl
    | blank hc _ ih => rw [normalize_cons_blank hc, ih hname]
    | @letter c d cs name hcase _ ih =>
      have hd := hname d List.mem_cons_self
      have hc : isBlank c = false := by
        rw [← isBlank_lower, sameLetter_iff.mp hcase, isBlank_lower, hd]
      rw [normalize_cons hc, normalize_cons hd, sameLetter_iff.mp hcase,
        ih fun e he => hname e (List.mem_cons_of_mem _ he)]
  · intro hsame
    induction cs generalizing name with
    | nil =>
      cases name with
      | nil => exact .done
      | cons d name =>
        rw [normalize_cons (hname d List.mem_cons_self)] at hsame
        exact absurd hsame.symm (List.cons_ne_nil _ _)
    | cons c cs ih =>
      by_cases hc : isBlank c = true
      · rw [normalize_cons_blank hc] at hsame
        exact .blank hc (ih hname hsame)
      · rw [Bool.not_eq_true] at hc
        rw [normalize_cons hc] at hsame
        cases name with
        | nil => exact absurd hsame (List.cons_ne_nil _ _)
        | cons d name =>
          rw [normalize_cons (hname d List.mem_cons_self), List.cons.injEq] at hsame
          refine .letter (sameLetter_iff.mpr hsame.1) (ih (fun e he => ?_) hsame.2)
          exact hname e (List.mem_cons_of_mem _ he)

theorem solid_of_all (hall : (r.names.all fun name => name.toList.all fun c => !isBlank c) = true) :
    r.Solid := by
  intro name hname c hc
  have hblank := List.all_eq_true.mp (List.all_eq_true.mp hall name hname) c hc
  simpa using hblank

theorem Solid.sameName_iff (hsolid : r.Solid) (hname : name ∈ r.names) :
    sameName name s = true ↔ Spells s.toList name.toList := by
  rw [Registry.sameName_iff, spells_iff (hsolid name hname), eq_comm]

/-! ### Tables -/

theorem resolves_iff : r.Resolves s a ↔ r.get? s = some a := by
  constructor
  · exact Resolves.get?
  · exact fun hget => ⟨lookup_eq_ok_iff.mpr hget, hget, contains_iff.mpr ⟨a, hget⟩⟩

theorem unknown_iff : r.Unknown s ↔ r.get? s = none := by
  refine ⟨Unknown.get?, fun hget => ⟨?_, hget, ?_⟩⟩
  · rw [Registry.lookup, hget]
  · rw [← Bool.not_eq_true, contains_iff, hget]
    simp

theorem get?_eq_none_iff : r.get? s = none ↔ ∀ name ∈ r.names, ¬ sameName name s = true := by
  rw [Registry.get?, Option.map_eq_none_iff, List.find?_eq_none, names]
  simp

theorem mem_names (hentry : (name, a) ∈ r.entries) : name ∈ r.names :=
  List.mem_map_of_mem hentry

theorem exact_of_solid (hdistinct : r.Distinct) (hsolid : r.Solid) : r.Exact where
  resolves := by
    intro s a
    rw [resolves_iff, get?_eq_some_iff hdistinct]
    refine exists_congr fun name => and_congr_right fun hentry => ?_
    exact hsolid.sameName_iff (mem_names hentry)
  unknown := by
    intro s
    rw [unknown_iff, get?_eq_none_iff]
    refine forall₂_congr fun name hname => not_congr ?_
    exact hsolid.sameName_iff hname

end Registry

/-! ### The tables of the library -/

namespace Property

theorem registry_solid : registry.Solid :=
  Registry.solid_of_all (by decide)

theorem registry_exact : registry.Exact :=
  Registry.exact_of_solid registry_distinct registry_solid

end Property

namespace ControlType

theorem registry_solid : registry.Solid :=
  Registry.solid_of_all (by decide)

theorem registry_exact : registry.Exact :=
  Registry.exact_of_solid registry_distinct registry_solid

theorem isMainWindow_iff_of_spells {s name : String} (hname : ∀ c ∈ name.toList, isBlank c = false)
    (hspells : Registry.Spells s.toList name.toList) :
    isMainWindow s = true ↔ isMainWindow name = true := by
  rw [isMainWindow, isMainWindow, Registry.sameName_iff, Registry.sameName_iff,
    (Registry.spells_iff hname).mp hspells]

end ControlType

/-! ### The default method -/

theorem Query.not_mem_of_mem_splitAt {c : Char} {cs term : List Char} (hc : c ∉ cs)
    (hterm : term ∈ splitAt Query.delimiter cs) : c ∉ term := by
  intro hmem
  have hjoin : c ∈ joinWith delimiter (splitAt delimiter cs) := mem_joinWith_of_mem hterm hmem
  rw [joinWith_splitAt (by decide)] at hjoin
  exact hc hjoin

namespace Settings

variable {name text : String} {p : Property}

theorem lookup_withDefaultMethod (hresolves : Property.registry.Resolves name p) (s : Settings) :
    Property.registry.lookup (s.withDefaultMethod name).defaultMethod = .ok p := by
  have haccepts : acceptsMethod name = true := hresolves.contains
  have htrim : Registry.normalize (trimmed name).toList = Registry.normalize name.toList := by
    rw [trimmed, String.toList_ofList, Registry.normalize_trim]
  rw [withDefaultMethod, if_pos haccepts, Registry.lookup_eq_ok_iff, Registry.get?_congr htrim]
  exact hresolves.get?

theorem property_withDefaultMethod (hresolves : Property.registry.Resolves name p) (s : Settings)
    {term : List Char} (hcolon : ':' ∉ term) :
    (Locator.ofChars term (s.withDefaultMethod name).defaultMethod.toList).property = .ok p := by
  rw [Locator.property, Locator.method_ofChars hcolon, lookup_withDefaultMethod hresolves]

theorem property_of_mem_parse (hresolves : Property.registry.Resolves name p) (s : Settings)
    (hcolon : ':' ∉ text.toList) {l : Locator}
    (hl : l ∈ (Query.parse text (s.withDefaultMethod name).defaultMethod).locators) :
    l.property = .ok p := by
  obtain ⟨term, hterm, rfl⟩ := List.mem_map.mp hl
  exact property_withDefaultMethod hresolves s (Query.not_mem_of_mem_splitAt hcolon hterm)

end Settings

/--
Both tables answer exactly the spellings of their names, and report every other text with its white
space taken off. A spelling of a listed name is taken for the main window if the name is that of the
main window. And a spelling of a name of properties is accepted as the default method, by which every
text without a colon is then looked up, as a term and as a query.
-/
theorem exact_spellings :
    Property.registry.Exact ∧ ControlType.registry.Exact ∧
    (∀ (name s : String), name ∈ Property.registry.names ++ ControlType.registry.names →
      Registry.Spells s.toList name.toList →
      (ControlType.isMainWindow s = true ↔ name = ControlType.mainWindow)) ∧
    ∀ (name s : String) (p : Property), (name, p) ∈ Property.registry.entries →
      Registry.Spells s.toList name.toList →
      Settings.acceptsMethod s = true ∧
      ∀ (settings : Settings) (text : String), ':' ∉ text.toList →
        (Locator.parse text (settings.withDefaultMethod s).defaultMethod).property = .ok p ∧
        ∀ l ∈ (Query.parse text (settings.withDefaultMethod s).defaultMethod).locators,
          l.property = .ok p := by
  refine ⟨Property.registry_exact, ControlType.registry_exact, ?_, ?_⟩
  · intro name s hname hspells
    have hsolid : ∀ c ∈ name.toList, isBlank c = false := by
      rcases List.mem_append.mp hname with hname | hname
      · exact Property.registry_solid name hname
      · exact ControlType.registry_solid name hname
    have hmain : ∀ name ∈ Property.registry.names ++ ControlType.registry.names,
        (ControlType.isMainWindow name = true ↔ name = ControlType.mainWindow) := by
      decide
    exact (ControlType.isMainWindow_iff_of_spells hsolid hspells).trans (hmain name hname)
  · intro name s p hentry hspells
    have hresolves := (Property.registry_exact.resolves s p).mpr ⟨name, hentry, hspells⟩
    refine ⟨hresolves.contains, fun settings text hcolon => ⟨?_, fun l hl => ?_⟩⟩
    · exact Settings.property_withDefaultMethod hresolves settings hcolon
    · exact Settings.property_of_mem_parse hresolves settings hcolon hl

/-- White space may stand inside a name as well, and a name so spelled can be the default method. -/
theorem exact_spellings_window_handle :
    let s := "\u2003window HANDLE\t"
    Registry.Spells s.toList "WindowHandle".toList ∧
      Property.registry.Resolves s .nativeWindowHandle ∧
      ControlType.isMainWindow s = false ∧
      Settings.acceptsMethod s = true ∧
      (Locator.parse "Save" (Settings.initial.withDefaultMethod s).defaultMethod).property =
        .ok .nativeWindowHandle := by
  intro s
  have hspells : Registry.Spells s.toList "WindowHandle".toList :=
    (Registry.spells_iff (Property.registry_solid _ (by decide))).mpr (by decide)
  have hentry : ("WindowHandle", .nativeWindowHandle) ∈ Property.registry.entries := by decide
  obtain ⟨hproperties, -, hmain, hmethod⟩ := exact_spellings
  obtain ⟨haccepts, hparse⟩ := hmethod _ s _ hentry hspells
  refine ⟨hspells, (hproperties.resolves s _).mpr ⟨_, hentry, hspells⟩, ?_, haccepts, ?_⟩
  · rw [← Bool.not_eq_true, hmain "WindowHandle" s (by decide) hspells]
    decide
  · exact (hparse Settings.initial "Save" (by decide)).1

end ElementQuery
