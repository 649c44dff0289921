import ElementQuery.Text

/-!
# Characters, trimming and numerals

White space, digits and letters are told apart, and what is written in digits is read back.
-/

namespace ElementQuery.Text

/-! ## What trimming keeps

Trimming cuts a piece out of a text that has no white space at its ends, and a text that has none is
its own trimmed form. Any other text loses white space only, so the form in which names are compared,
which has no white space at all, is the same before and after trimming.
-/

theorem trimStart_cons {c : Char} (hc : isBlank c = false) (cs : List Char) :
    trimStart (c :: cs) = c :: cs :=
  List.dropWhile_cons_of_neg (by simp [hc])

theorem trimStart_eq_self {cs : List Char} (hfirst : ∀ c ∈ cs.head?, isBlank c = false) :
    trimStart cs = cs := by
  cases cs with
  | nil => rfl
  | cons c cs => exact trimStart_cons (hfirst c rfl) cs

theorem trimStart_append {cs : List Char} (hblank : ∀ c ∈ cs, isBlank c = true)
    (rest : List Char) : trimStart (cs ++ rest) = trimStart rest :=
  List.dropWhile_append_of_pos hblank

theorem trimEnd_eq_self {cs : List Char} (hlast : ∀ c ∈ cs.getLast?, isBlank c = false) :
    trimEnd cs = cs := by
  have hreverse : trimStart cs.reverse = cs.reverse := by
    apply trimStart_eq_self
    intro c hc
    rw [List.head?_reverse] at hc
    exact hlast c hc
  rw [trimStart] at hreverse
  rw [trimEnd, hreverse, List.reverse_reverse]

theorem trim_eq_self {cs : List Char} (hfirst : ∀ c ∈ cs.head?, isBlank c = false)
    (hlast : ∀ c ∈ cs.getLast?, isBlank c = false) : trim cs = cs := by
  rw [trim, trimStart_eq_self hfirst, trimEnd_eq_self hlast]

theorem trim_cons_of_blank {c : Char} (hc : isBlank c = true) (cs : List Char) :
    trim (c :: cs) = trim cs := by
  rw [trim, trim, trimStart, List.dropWhile_cons_of_pos hc, trimStart]

/-! ### What is left -/

/-- Holds of a text without white space at its ends. -/
def IsTrimmed (cs : List Char) : Prop :=
  (∀ c ∈ cs.head?, isBlank c = false) ∧ ∀ c ∈ cs.getLast?, isBlank c = false

theorem isTrimmed_iff {cs : List Char} :
    IsTrimmed cs ↔ cs.head?.any isBlank = false ∧ cs.getLast?.any isBlank = false := by
  simp only [IsTrimmed, Option.any_eq_false, Option.mem_def]

instance : DecidablePred IsTrimmed := fun _ => decidable_of_decidable_of_iff isTrimmed_iff.symm

theorem IsTrimmed.trim_eq {cs : List Char} (hcs : IsTrimmed cs) : trim cs = cs :=
  trim_eq_self hcs.1 hcs.2

theorem isBlank_of_mem_head?_trimStart {cs : List Char} {c : Char} (hc : c ∈ (trimStart cs).head?) :
    isBlank c = false := by
  have hdrop := List.head?_dropWhile_not isBlank cs
  rw [← trimStart, hc] at hdrop
  exact hdrop

theorem isSuffix_trimStart (cs : List Char) : trimStart cs <:+ cs :=
  List.dropWhile_suffix isBlank

theorem isPrefix_trimEnd (cs : List Char) : trimEnd cs <+: cs := by
  rw [trimEnd, ← List.reverse_suffix, List.reverse_reverse]
  exact isSuffix_trimStart cs.reverse

theorem isInfix_trim (cs : List Char) : trim cs <:+: cs :=
  (isPrefix_trimEnd _).isInfix.trans (isSuffix_trimStart cs).isInfix

theorem isTrimmed_trim (cs : List Char) : IsTrimmed (trim cs) := by
  constructor
  · intro c hc
    obtain ⟨rest, hrest⟩ := isPrefix_trimEnd (trimStart cs)
    have hhead : c ∈ (trimStart cs).head? := by
      rw [← hrest, ← trim, List.head?_append, hc]
      rfl
    exact isBlank_of_mem_head?_trimStart hhead
  · intro c hc
    rw [trim, trimEnd, List.getLast?_reverse] at hc
    exact isBlank_of_mem_head?_trimStart hc

/-! ### The characters that are no white space -/

private theorem filter_trimStart (cs : List Char) :
    (trimStart cs).filter (fun c => !isBlank c) = cs.filter fun c => !isBlank c := by
  induction cs with
  | nil => rfl
  | cons c cs ih =>
    by_cases hc : isBlank c
    · rw [trimStart, List.dropWhile_cons_of_pos hc, List.filter_cons_of_neg (by simp [hc])]
      exact ih
    · rw [trimStart, List.dropWhile_cons_of_neg hc]

private theorem filter_trimEnd (cs : List Char) :
    (trimEnd cs).filter (fun c => !isBlank c) = cs.filter fun c => !isBlank c := by
  have hreverse := filter_trimStart cs.reverse
  rw [trimStart] at hreverse
  rw [trimEnd, List.filter_reverse, hreverse, List.filter_reverse, List.reverse_reverse]

theorem filter_trim (cs : List Char) :
    (trim cs).filter (fun c => !isBlank c) = cs.filter fun c => !isBlank c := by
  rw [trim, filter_trimEnd, filter_trimStart]

/-! ## Letters among the characters

Besides the ASCII letters only the long s and the Kelvin sign fold to an ASCII letter. None of these
is white space or a decimal digit, so where a word ends and what stands after it can be told apart.
-/

section

variable {c : Char}

theorem fold_eq_lowerAscii (hsmall : isSmall (lowerAscii c) = true) : fold c = lowerAscii c := by
  have hlong : c ≠ '\u017F' := by
    rintro rfl
    exact absurd hsmall (by decide)
  have hkelvin : c ≠ '\u212A' := by
    rintro rfl
    exact absurd hsmall (by decide)
  rw [fold, if_neg hlong, lower, if_neg hkelvin]

theorem toNat_of_isLetter (hc : isLetter c = true) :
    (0x41 ≤ c.toNat ∧ c.toNat ≤ 0x7A) ∨ c.toNat = 0x17F ∨ c.toNat = 0x212A := by
  rw [isLetter, fold] at hc
  split at hc
  · next hlong => exact .inr (.inl (by rw [hlong]; decide))
  · rw [lower] at hc
    split at hc
    · next hkelvin => exact .inr (.inr (by rw [hkelvin]; decide))
    · rw [lowerAscii] at hc
      split at hc
      · next hcapital =>
        simp only [isCapital, Bool.and_eq_true, decide_eq_true_eq] at hcapital
        exact .inl (by omega)
      · simp only [isSmall, Bool.and_eq_true, decide_eq_true_eq] at hc
        exact .inl (by omega)

theorem isBlank_of_isLetter (hc : isLetter c = true) : isBlank c = false := by
  have hrange := toNat_of_isLetter hc
  simp only [isBlank, Bool.or_eq_false_iff, Bool.and_eq_false_iff, decide_eq_false_iff_not,
    beq_eq_false_iff_ne]
  omega

theorem isDigit_of_isLetter (hc : isLetter c = true) : isDigit c = false := by
  have hrange := toNat_of_isLetter hc
  have hoff : ∀ r ∈ digitRanges,
      (r.2 < 0x41 ∨ 0x17F < r.1) ∧ (r.2 < 0x212A ∨ 0x212A < r.1) := by decide
  rw [isDigit, List.any_eq_false]
  intro r hr
  have hr := hoff r hr
  simp only [Bool.and_eq_true, decide_eq_true_eq]
  omega

theorem isBlank_of_isDigit (hc : isDigit c = true) : isBlank c = false := by
  rw [isDigit, List.any_eq_true] at hc
  obtain ⟨r, hr, hin⟩ := hc
  have hoff : ∀ r ∈ digitRanges, (0x20 < r.1 ∧ r.2 < 0x85) ∨ (0xA0 < r.1 ∧ r.2 < 0x1680) ∨
      (0x1680 < r.1 ∧ r.2 < 0x2000) ∨ 0x3000 < r.1 := by decide
  have hr := hoff r hr
  simp only [Bool.and_eq_true, decide_eq_true_eq] at hin
  simp only [isBlank, Bool.or_eq_false_iff, Bool.and_eq_false_iff, decide_eq_false_iff_not,
    beq_eq_false_iff_ne]
  omega

end

/-! ## Reading the numbers that are written

A number that is written in decimal digits is read back, whatever its size; with a sign it is read
back if it has sixty-four bits. What is written contains no white space, so trimming leaves it alone.
-/

theorem isAsciiDigit_of_mem_writeNat {n : Nat} {c : Char} (hc : c ∈ writeNat n) :
    isAsciiDigit c = true := by
  have hdigit : c.isDigit = true := Nat.isDigit_of_mem_toDigits (by decide) (by decide) hc
  simp only [Char.isDigit, Bool.and_eq_true, decide_eq_true_eq] at hdigit
  simp only [isAsciiDigit, Bool.and_eq_true, decide_eq_true_eq, Char.toNat]
  exact ⟨by simpa using UInt32.le_iff_toNat_le.mp hdigit.1,
    by simpa using UInt32.le_iff_toNat_le.mp hdigit.2⟩

/-- A run of ASCII digits is read as the number it writes, whether it has leading zeros or not. -/
theorem readNat?_of_isAsciiDigit {digits : List Char} (hne : digits ≠ [])
    (hdigits : ∀ c ∈ digits, isAsciiDigit c = true) :
    readNat? digits = some (Nat.ofDigitChars 10 digits 0) := by
  have hnonempty : digits.isEmpty = false := by simpa using hne
  rw [readNat?, hnonempty, List.all_eq_true.mpr hdigits, Nat.ofDigitChars_eq_foldl]
  rfl

theorem writeNat_ne_nil (n : Nat) : writeNat n ≠ [] :=
  Nat.toDigits_ne_nil

theorem ofDigitChars_writeNat (n : Nat) : Nat.ofDigitChars 10 (writeNat n) 0 = n :=
  Nat.ofDigitChars_ten_toDigits

theorem readNat?_writeNat (n : Nat) : readNat? (writeNat n) = some n := by
  rw [readNat?_of_isAsciiDigit (writeNat_ne_nil n) fun c hc => isAsciiDigit_of_mem_writeNat hc,
    ofDigitChars_writeNat]

private theorem head?_writeNat_ne {n : Nat} {c : Char} (hc : isAsciiDigit c = false) :
    (writeNat n).head? ≠ some c := by
  intro hhead
  rw [isAsciiDigit_of_mem_writeNat (List.mem_of_head? hhead)] at hc
  contradiction

theorem readSigned?_writeInt {i : Int} (hi : isSigned i = true) :
    readSigned? (writeInt i) = some i := by
  cases i with
  | negSucc n =>
    have hread : readSigned? (writeInt (.negSucc n)) =
        (some (Int.negSucc n)).filter isSigned := by
      simp only [writeInt, readSigned?, readNat?_writeNat]
      rfl
    rw [hread, Option.filter_some, if_pos hi]
  | ofNat n =>
    have hread : readSigned? (writeNat n) = (some (Int.ofNat n)).filter isSigned := by
      unfold readSigned?
      split
      · next heq => exact absurd (congrArg List.head? heq) (head?_writeNat_ne (by decide))
      · next heq => exact absurd (congrArg List.head? heq) (head?_writeNat_ne (by decide))
      · rw [readNat?_writeNat]
        rfl
    rw [writeInt, hread, Option.filter_some, if_pos hi]

theorem isBlank_of_mem_writeInt {i : Int} {c : Char} (hc : c ∈ writeInt i) :
    isBlank c = false := by
  have hdigit : ∀ n, c ∈ writeNat n → isBlank c = false := by
    intro n hmem
    have hascii := isAsciiDigit_of_mem_writeNat hmem
    simp only [isAsciiDigit, Bool.and_eq_true, decide_eq_true_eq] at hascii
    simp only [isBlank, Bool.or_eq_false_iff, Bool.and_eq_false_iff, decide_eq_false_iff_not,
      beq_eq_false_iff_ne]
    omega
  cases i with
  | ofNat n => exact hdigit n hc
  | negSucc n =>
    rw [writeInt, List.mem_cons] at hc
    rcases hc with rfl | hmem
    · decide
    · exact hdigit _ hmem

end ElementQuery.Text
