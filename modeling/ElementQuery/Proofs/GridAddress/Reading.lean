import ElementQuery.Proofs.GridAddress.Token
import ElementQuery.Proofs.Text.Character
import Mathlib.Data.List.TakeWhile

/-!
# Reading tokens as an address

A text with a token for one axis or for both is read as the address that the tokens name. It does not
matter which one comes first, how they are spelled, or what surrounds them as long as that holds no
letter and no digit. A letter in front of a keyword would make another word of it, and a digit behind
a token would belong to it. The letters that count are those that fold to a letter of ASCII, so words
of other scripts may surround a token.

A number is any run of ASCII digits, but only a number from one to the largest of sixty-four bits
makes an address, and the other axis cannot make up for it: the text is then invalid as a whole.
-/

namespace ElementQuery.GridAddress

open Text

/-- Holds of the numbers that a row or a column can have. -/
def IsOrdinal (n : Nat) : Prop :=
  1 ≤ n ∧ n ≤ Nat.pow 2 64 - 1

instance : DecidablePred IsOrdinal := fun n =>
  inferInstanceAs (Decidable (1 ≤ n ∧ n ≤ Nat.pow 2 64 - 1))

/-- The address that a number makes on one axis alone. -/
def Axis.address : Axis → Nat → GridAddress
  | .row => .row
  | .column => .column

/-- Holds of a text that is read as an address under a condition, and is else invalid. -/
def ReadsIf (cs : List Char) (p : Prop) [Decidable p] (a : GridAddress) : Prop :=
  parse (String.ofList cs) = if p then .ok a else .error (.invalidGridAddress (String.ofList cs))

/-- Holds of a text that may surround tokens. -/
def Plain (cs : List Char) : Prop :=
  ∀ c ∈ cs, isLetter c = false ∧ isDigit c = false

instance : DecidablePred Plain := fun cs => List.decidableBAll _ cs

variable {axis other : Axis} {cs pre sep suf : List Char} {c : Char}

/-! ### Numbers -/

theorem isOrdinal_iff {n : Nat} : IsOrdinal n ↔ 0 < n ∧ n < unsignedBound := by
  have hbound : unsignedBound = Nat.pow 2 64 := rfl
  rw [IsOrdinal, hbound]
  omega

theorem readOrdinal?_eq_some_iff {digits : List Char} {n : Nat} :
    readOrdinal? digits = some n ↔ readNat? digits = some n ∧ IsOrdinal n := by
  simp only [readOrdinal?, readUnsigned?, Option.filter_eq_some_iff, decide_eq_true_eq,
    isOrdinal_iff, and_assoc, and_comm (a := n < unsignedBound)]

theorem readToken_digits (t : Token axis) (invalid : Error) :
    readToken invalid (some t.digits) =
      if IsOrdinal t.value then .ok (some t.value) else .error invalid := by
  have hvalue : readNat? t.digits = some t.value :=
    readNat?_of_isAsciiDigit t.digits_ne_nil t.digits_ascii
  rw [readToken]
  split
  · next n hread =>
    obtain ⟨hnat, hordinal⟩ := readOrdinal?_eq_some_iff.mp hread
    obtain rfl := Option.some.inj (hvalue.symm.trans hnat)
    rw [if_pos hordinal]
  · next hnone =>
    rw [if_neg]
    intro hordinal
    rw [readOrdinal?_eq_some_iff.mpr ⟨hvalue, hordinal⟩] at hnone
    contradiction

/-! ### From the search to the address -/

theorem mem_dropWhile_of_neg {p : Char → Bool} (hc : c ∈ cs) (hp : p c = false) :
    c ∈ cs.dropWhile p := by
  rw [← List.takeWhile_append_dropWhile (p := p) (l := cs), List.mem_append] at hc
  rcases hc with htake | hdrop
  · exact absurd (List.mem_takeWhile_imp htake) (by simp [hp])
  · exact hdrop

theorem barePair?_eq_none (hc : c ∈ cs) (hletter : isLetter c = true) : barePair? cs = none := by
  have hblank := isBlank_of_isLetter hletter
  have hdigit := isDigit_of_isLetter hletter
  have hcomma : c ≠ ',' := by rintro rfl; exact absurd hletter (by decide)
  have hrest : c ∈ trimStart ((trimStart cs).dropWhile isDigit) :=
    mem_dropWhile_of_neg (mem_dropWhile_of_neg (mem_dropWhile_of_neg hc hblank) hdigit) hblank
  simp only [barePair?]
  split
  · next afterComma heq =>
    rw [heq, List.mem_cons, or_iff_right hcomma] at hrest
    have hlast : ((trimStart afterComma).dropWhile isDigit).all isBlank = false := by
      rw [List.all_eq_false]
      exact ⟨c, mem_dropWhile_of_neg (mem_dropWhile_of_neg hrest hblank) hdigit, by simp [hblank]⟩
    split
    · rw [if_neg (by simp [hlast])]
    · rfl
  · rfl

theorem readsIf_cell {row : Token .row} {column : Token .column} (hc : c ∈ cs)
    (hletter : isLetter c = true) (hrow : findToken? .row false cs = some row.digits)
    (hcolumn : findToken? .column false cs = some column.digits) :
    ReadsIf cs (IsOrdinal row.value ∧ IsOrdinal column.value) (.cell row.value column.value) := by
  simp only [ReadsIf, parse, String.toList_ofList, barePair?_eq_none hc hletter, hrow, hcolumn,
    readToken_digits]
  by_cases hr : IsOrdinal row.value
  · by_cases hcol : IsOrdinal column.value
    · rw [if_pos hr, if_pos hcol, if_pos ⟨hr, hcol⟩]
      rfl
    · rw [if_pos hr, if_neg hcol, if_neg fun hboth => hcol hboth.2]
      rfl
  · have hboth : ¬ (IsOrdinal row.value ∧ IsOrdinal column.value) := fun hboth => hr hboth.1
    rw [if_neg hr, if_neg hboth]
    rfl

/-- A token for one axis makes an address of its own if there is none for the other. -/
theorem readsIf_alone {t : Token axis} (hc : c ∈ cs) (hletter : isLetter c = true)
    (hfound : findToken? axis false cs = some t.digits)
    (habsent : ∀ other ≠ axis, findToken? other false cs = none) :
    ReadsIf cs (IsOrdinal t.value) (axis.address t.value) := by
  cases axis with
  | row =>
    simp only [ReadsIf, parse, String.toList_ofList, barePair?_eq_none hc hletter, hfound,
      habsent .column (by decide), readToken_digits]
    split <;> rfl
  | column =>
    simp only [ReadsIf, parse, String.toList_ofList, barePair?_eq_none hc hletter, hfound,
      habsent .row (by decide), readToken_digits]
    split <;> rfl

/-! ### Texts with tokens -/

theorem Plain.isLetter (hcs : Plain cs) : ∀ c ∈ cs, isLetter c = false :=
  fun c hc => (hcs c hc).1

theorem Plain.isDigit_head? (hcs : Plain cs) : ∀ c ∈ cs.head?, isDigit c = false :=
  fun c hc => (hcs c (List.mem_of_mem_head? hc)).2

theorem Token.exists_letter (t : Token axis) : ∃ c ∈ t.text, isLetter c = true := by
  obtain ⟨c, cs, hword, -⟩ := t.exists_word
  have hc : c ∈ t.word := by rw [hword]; exact List.mem_cons_self
  exact ⟨c, List.mem_append_left _ hc, t.isLetter_of_mem_word hc⟩

theorem isDigit_head?_append (hsep : Plain sep) (t : Token axis) (rest : List Char) :
    ∀ c ∈ (sep ++ (t.text ++ rest)).head?, isDigit c = false := by
  cases sep with
  | cons d sep => exact hsep.isDigit_head?
  | nil =>
    obtain ⟨d, ds, hword, -⟩ := t.exists_word
    have hd : isLetter d = true :=
      t.isLetter_of_mem_word (by rw [hword]; exact List.mem_cons_self)
    intro c hc
    rw [Token.text, hword] at hc
    exact Option.some.inj hc ▸ isDigit_of_isLetter hd

theorem findToken?_first (t : Token axis) (u : Token other) (hpre : Plain pre) (hsep : Plain sep) :
    findToken? axis false (pre ++ t.text ++ sep ++ u.text ++ suf) = some t.digits := by
  simp only [List.append_assoc]
  rw [findToken?_append hpre.isLetter, t.findToken?_text (isDigit_head?_append hsep u suf)]

theorem findToken?_second (t : Token axis) (u : Token other) (haxis : other ≠ axis)
    (hpre : Plain pre) (hsep : Plain sep) (hsuf : Plain suf) :
    findToken? other false (pre ++ t.text ++ sep ++ u.text ++ suf) = some u.digits := by
  simp only [List.append_assoc]
  rw [findToken?_append hpre.isLetter, t.findToken?_other haxis, findToken?_append hsep.isLetter,
    u.findToken?_text hsuf.isDigit_head?]

theorem findToken?_only (t : Token axis) (hpre : Plain pre) (hsuf : Plain suf) :
    findToken? axis false (pre ++ t.text ++ suf) = some t.digits := by
  rw [List.append_assoc, findToken?_append hpre.isLetter, t.findToken?_text hsuf.isDigit_head?]

theorem findToken?_absent (t : Token axis) (haxis : other ≠ axis) (hpre : Plain pre)
    (hsuf : Plain suf) : findToken? other false (pre ++ t.text ++ suf) = none := by
  rw [List.append_assoc, findToken?_append hpre.isLetter, t.findToken?_other haxis,
    findToken?_eq_none hsuf.isLetter]

theorem readsIf_token (t : Token axis) (hpre : Plain pre) (hsuf : Plain suf) :
    ReadsIf (pre ++ t.text ++ suf) (IsOrdinal t.value) (axis.address t.value) := by
  obtain ⟨c, hc, hletter⟩ := t.exists_letter
  exact readsIf_alone (by simp [hc]) hletter (findToken?_only t hpre hsuf)
    fun other haxis => findToken?_absent t haxis hpre hsuf

variable (row : Token .row) (column : Token .column)

theorem readsIf_row_column (hpre : Plain pre) (hsep : Plain sep) (hsuf : Plain suf) :
    ReadsIf (pre ++ row.text ++ sep ++ column.text ++ suf)
      (IsOrdinal row.value ∧ IsOrdinal column.value) (.cell row.value column.value) := by
  obtain ⟨c, hc, hletter⟩ := row.exists_letter
  exact readsIf_cell (by simp [hc]) hletter (findToken?_first row column hpre hsep)
    (findToken?_second row column (by decide) hpre hsep hsuf)

theorem readsIf_column_row (hpre : Plain pre) (hsep : Plain sep) (hsuf : Plain suf) :
    ReadsIf (pre ++ column.text ++ sep ++ row.text ++ suf)
      (IsOrdinal row.value ∧ IsOrdinal column.value) (.cell row.value column.value) := by
  obtain ⟨c, hc, hletter⟩ := row.exists_letter
  exact readsIf_cell (by simp [hc]) hletter
    (findToken?_second column row (by decide) hpre hsep hsuf)
    (findToken?_first column row hpre hsep)

/-- A row token and a column token are read as a cell in either order, and one of them alone as a row
or a column, however they are spelled. If the number of a token is out of range the text is invalid. -/
theorem parse_tokens {pre sep suf : List Char} (hpre : Plain pre) (hsep : Plain sep)
    (hsuf : Plain suf) :
    ReadsIf (pre ++ row.text ++ sep ++ column.text ++ suf)
        (IsOrdinal row.value ∧ IsOrdinal column.value) (.cell row.value column.value) ∧
      ReadsIf (pre ++ column.text ++ sep ++ row.text ++ suf)
        (IsOrdinal row.value ∧ IsOrdinal column.value) (.cell row.value column.value) ∧
      ReadsIf (pre ++ row.text ++ suf) (IsOrdinal row.value) (.row row.value) ∧
      ReadsIf (pre ++ column.text ++ suf) (IsOrdinal column.value) (.column column.value) :=
  ⟨readsIf_row_column row column hpre hsep hsuf, readsIf_column_row row column hpre hsep hsuf,
    readsIf_token row hpre hsuf, readsIf_token column hpre hsuf⟩

/-- Tokens that touch each other, in mixed case and with leading zeros, and a number that is one too
large. -/
theorem parse_tokens_touching :
    Plain ['§'] ∧ Plain [] ∧ Plain ['!'] ∧
      parse "§RoWs = 007cOl:5!" = .ok (.cell 7 5) ∧ parse "§cOl:5RoWs = 007!" = .ok (.cell 7 5) ∧
      parse "§RoWs = 007!" = .ok (.row 7) ∧ parse "§cOl:5!" = .ok (.column 5) ∧
      parse "§RoWs = 007C18446744073709551616!" =
        .error (.invalidGridAddress "§RoWs = 007C18446744073709551616!") := by
  have hpre : Plain ['§'] := by decide
  have hsep : Plain [] := by decide
  have hsuf : Plain ['!'] := by decide
  let row : Token .row :=
    ⟨['R', 'o', 'W', 's'], [' '], some '=', [' '], ['0', '0', '7'], by decide,
      List.all_eq_true.mp rfl, by simp, List.all_eq_true.mp rfl, by decide, List.all_eq_true.mp rfl⟩
  let column : Token .column :=
    ⟨['c', 'O', 'l'], [], some ':', [], ['5'], by decide, by simp, by simp, by simp, by decide,
      List.all_eq_true.mp rfl⟩
  let large : Token .column :=
    ⟨['C'], [], none, [], "18446744073709551616".toList, by decide, by simp, by simp, by simp,
      by decide, List.all_eq_true.mp rfl⟩
  obtain ⟨hcell, hcell', hrow, hcolumn⟩ := parse_tokens row column hpre hsep hsuf
  obtain ⟨hinvalid, -⟩ := parse_tokens row large hpre hsep hsuf
  exact ⟨hpre, hsep, hsuf, hcell, hcell', hrow, hcolumn, hinvalid⟩

end ElementQuery.GridAddress
