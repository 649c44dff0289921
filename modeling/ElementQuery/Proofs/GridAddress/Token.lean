import ElementQuery.GridAddress
import ElementQuery.Proofs.Text.Character

/-!
# Finding the tokens of a grid address

A token is written as a keyword in letters of any case, white space, perhaps a sign, more white space
and digits. The keyword is all the letters that the token begins with, so it does not matter in which
order the keywords of an axis are tried, although some begin with others.

A search for the tokens of one axis passes over everything else. Text without letters holds no
keyword. A token of the other axis holds none either: its own keyword begins with another letter, and
the letters after that one follow a letter. What comes after the letters is the rest of the token, and
it ends with a digit, so a token may follow it without anything between them.
-/

namespace ElementQuery.GridAddress

open Text

/-- The words that stand for an axis. -/
def Axis.words : Axis → List String
  | .row => ["r", "row", "rows"]
  | .column => ["c", "col", "cols", "column", "columns"]

/-- A token as it is written. -/
structure Token (axis : Axis) where
  word : List Char
  before : List Char
  sign : Option Char
  after : List Char
  digits : List Char
  word_mem : String.ofList (word.map lowerAscii) ∈ axis.words
  before_blank : ∀ c ∈ before, isBlank c = true
  sign_mem : ∀ c ∈ sign, c = ':' ∨ c = '='
  after_blank : ∀ c ∈ after, isBlank c = true
  digits_ne_nil : digits ≠ []
  digits_ascii : ∀ c ∈ digits, isAsciiDigit c = true

/-- What stands between the keyword of a token and the text after the token. -/
def Token.tail {axis : Axis} (t : Token axis) : List Char :=
  t.before ++ t.sign.toList ++ t.after ++ t.digits

def Token.text {axis : Axis} (t : Token axis) : List Char :=
  t.word ++ t.tail

def Token.value {axis : Axis} (t : Token axis) : Nat :=
  Nat.ofDigitChars 10 t.digits 0

/-- The letter that the keywords of an axis begin with. -/
def Axis.initial : Axis → Char
  | .row => 'r'
  | .column => 'c'

/-- The digits behind the keyword of a token. -/
def amount? (rest : List Char) : Option (List Char) :=
  digits? (trimStart (dropSign (trimStart rest)))

variable {axis other : Axis} {cs ds rest word : List Char} {c : Char}

/-! ### Keywords -/

theorem mem_words_iff : String.ofList cs ∈ axis.words ↔ cs ∈ axis.keywords := by
  have hkeywords : (axis.words.map String.toList).Perm axis.keywords := by cases axis <;> decide
  rw [← hkeywords.mem_iff, List.mem_map]
  constructor
  · exact fun hword => ⟨_, hword, String.toList_ofList⟩
  · rintro ⟨word, hword, rfl⟩
    rwa [String.ofList_toList]

theorem isSmall_of_mem_keywords {keyword : List Char} (hkeyword : keyword ∈ axis.keywords)
    (hc : c ∈ keyword) : isSmall c = true := by
  have hall : (axis.keywords.all fun keyword => keyword.all isSmall) = true := by
    cases axis <;> decide
  exact List.all_eq_true.mp (List.all_eq_true.mp hall keyword hkeyword) c hc

theorem head?_of_mem_keywords {keyword : List Char} (hkeyword : keyword ∈ axis.keywords) :
    keyword.head? = some axis.initial := by
  have hall : ∀ keyword ∈ axis.keywords, keyword.head? = some axis.initial := by
    cases axis <;> decide
  exact hall keyword hkeyword

theorem initial_injective (hinitial : axis.initial = other.initial) : axis = other := by
  cases axis <;> cases other <;> first | rfl | exact absurd hinitial (by decide)

theorem isLetter_of_map_fold (hword : word.map fold ∈ axis.keywords) (hc : c ∈ word) :
    isLetter c = true :=
  isSmall_of_mem_keywords hword (List.mem_map_of_mem hc)

theorem dropKeyword?_eq_some_iff {keyword : List Char} :
    dropKeyword? keyword cs = some rest ↔ ∃ word, word.map fold = keyword ∧ cs = word ++ rest := by
  induction keyword generalizing cs with
  | nil => simp [dropKeyword?]
  | cons k ks ih =>
    cases cs with
    | nil =>
      refine iff_of_false (fun hdrop => nomatch hdrop) ?_
      rintro ⟨word, hword, hcs⟩
      rw [(List.append_eq_nil_iff.mp hcs.symm).1] at hword
      contradiction
    | cons c cs =>
      rw [dropKeyword?]
      constructor
      · intro hdrop
        split at hdrop
        · next hfold =>
          obtain ⟨word, rfl, rfl⟩ := ih.mp hdrop
          exact ⟨c :: word, by rw [List.map_cons, hfold], rfl⟩
        · contradiction
      · rintro ⟨word, hword, hcs⟩
        cases word with
        | nil => contradiction
        | cons d word =>
          obtain ⟨rfl, rfl⟩ := List.cons.inj hcs
          obtain ⟨rfl, rfl⟩ := List.cons.inj hword
          rw [if_pos rfl]
          exact ih.mpr ⟨word, rfl, rfl⟩

/-! ### What stands behind a keyword -/

theorem takeWhile_append_eq {p : Char → Bool} (hcs : ∀ c ∈ cs, p c = true)
    (hrest : ∀ c ∈ rest.head?, p c = false) : (cs ++ rest).takeWhile p = cs := by
  have hnone : rest.takeWhile p = [] := by
    cases rest with
    | nil => rfl
    | cons c rest => exact List.takeWhile_cons_of_neg (by simp [hrest c rfl])
  rw [List.takeWhile_append_of_pos hcs, hnone, List.append_nil]

theorem dropSign_cons (hcolon : c ≠ ':') (hequals : c ≠ '=') (cs : List Char) :
    dropSign (c :: cs) = c :: cs := by
  rw [dropSign, if_neg (by simp [hcolon, hequals])]

theorem isLetter_of_amount? (hamount : amount? rest = some ds) :
    ∀ c ∈ rest.head?, isLetter c = false := by
  intro c hc
  obtain ⟨cs, rfl⟩ := List.head?_eq_some_iff.mp hc
  cases hletter : isLetter c with
  | false => rfl
  | true =>
    have htrim : trimStart (c :: cs) = c :: cs := trimStart_cons (isBlank_of_isLetter hletter) cs
    have hcolon : c ≠ ':' := by rintro rfl; exact absurd hletter (by decide)
    have hequals : c ≠ '=' := by rintro rfl; exact absurd hletter (by decide)
    rw [amount?, htrim, dropSign_cons hcolon hequals, htrim, digits?,
      List.takeWhile_cons_of_neg (by simp [isDigit_of_isLetter hletter])] at hamount
    contradiction

/-- The keyword of a token is all the letters that the text begins with. -/
theorem word_unique {word' rest' ds' : List Char} (hword : word.map fold ∈ axis.keywords)
    (hamount : amount? rest = some ds) (hword' : word'.map fold ∈ axis.keywords)
    (hamount' : amount? rest' = some ds') (hsame : word ++ rest = word' ++ rest') :
    word = word' ∧ rest = rest' := by
  have hletters : word = word' :=
    calc word = (word ++ rest).takeWhile isLetter :=
          (takeWhile_append_eq (fun c hc => isLetter_of_map_fold hword hc)
            (isLetter_of_amount? hamount)).symm
      _ = (word' ++ rest').takeWhile isLetter := by rw [hsame]
      _ = word' :=
          takeWhile_append_eq (fun c hc => isLetter_of_map_fold hword' hc)
            (isLetter_of_amount? hamount')
  rw [hletters, List.append_cancel_left_eq] at hsame
  exact ⟨hletters, hsame⟩

theorem dropKeyword?_bind_eq_some_iff {keyword : List Char} :
    (dropKeyword? keyword cs).bind amount? = some ds ↔
      ∃ word rest, word.map fold = keyword ∧ cs = word ++ rest ∧ amount? rest = some ds := by
  rw [Option.bind_eq_some_iff]
  constructor
  · rintro ⟨rest, hdrop, hamount⟩
    obtain ⟨word, hword, hcs⟩ := dropKeyword?_eq_some_iff.mp hdrop
    exact ⟨word, rest, hword, hcs, hamount⟩
  · rintro ⟨word, rest, hword, hcs, hamount⟩
    exact ⟨rest, dropKeyword?_eq_some_iff.mpr ⟨word, hword, hcs⟩, hamount⟩

theorem exists_word_of_tokenAt? (htoken : tokenAt? axis cs = some ds) :
    ∃ word rest, word.map fold ∈ axis.keywords ∧ cs = word ++ rest ∧ amount? rest = some ds := by
  obtain ⟨keyword, hkeyword, hfound⟩ := List.exists_of_findSome?_eq_some htoken
  obtain ⟨word, rest, rfl, hcs, hamount⟩ := dropKeyword?_bind_eq_some_iff.mp hfound
  exact ⟨word, rest, hkeyword, hcs, hamount⟩

theorem tokenAt?_append (hword : word.map fold ∈ axis.keywords) (hamount : amount? rest = some ds) :
    tokenAt? axis (word ++ rest) = some ds := by
  cases htoken : tokenAt? axis (word ++ rest) with
  | none =>
    have hnone := List.findSome?_eq_none_iff.mp htoken _ hword
    exact absurd (hnone.symm.trans (dropKeyword?_bind_eq_some_iff.mpr ⟨word, rest, rfl, rfl, hamount⟩))
      nofun
  | some found =>
    obtain ⟨word', rest', hword', hsame, hamount'⟩ := exists_word_of_tokenAt? htoken
    obtain ⟨-, rfl⟩ := word_unique hword hamount hword' hamount' hsame
    exact hamount'.symm.trans hamount

theorem tokenAt?_eq_none (hc : fold c ≠ axis.initial) : tokenAt? axis (c :: cs) = none := by
  cases htoken : tokenAt? axis (c :: cs) with
  | none => rfl
  | some ds =>
    obtain ⟨word, rest, hword, hcs, -⟩ := exists_word_of_tokenAt? htoken
    have hhead := head?_of_mem_keywords hword
    cases word with
    | nil => contradiction
    | cons d word =>
      obtain ⟨rfl, -⟩ := List.cons.inj hcs
      exact absurd (Option.some.inj hhead) hc

/-! ### Searching -/

theorem findToken?_cons (htoken : tokenAt? axis (c :: cs) = none) (afterLetter : Bool) :
    findToken? axis afterLetter (c :: cs) = findToken? axis (isLetter c) cs := by
  cases afterLetter <;> simp only [findToken?, htoken, if_true, Bool.false_eq_true, if_false]

theorem findToken?_cons_of_afterLetter (c : Char) (cs : List Char) :
    findToken? axis true (c :: cs) = findToken? axis (isLetter c) cs := by
  simp only [findToken?, if_true]

theorem fold_ne_initial (hc : isLetter c = false) : fold c ≠ axis.initial := by
  intro hfold
  rw [isLetter, hfold] at hc
  cases axis <;> exact absurd hc (by decide)

theorem findToken?_append (hcs : ∀ c ∈ cs, isLetter c = false) (rest : List Char) :
    findToken? axis false (cs ++ rest) = findToken? axis false rest := by
  induction cs with
  | nil => rfl
  | cons c cs ih =>
    obtain ⟨hc, hcs⟩ := List.forall_mem_cons.mp hcs
    rw [List.cons_append, findToken?_cons (tokenAt?_eq_none (fold_ne_initial hc)), hc, ih hcs]

theorem findToken?_eq_none (hcs : ∀ c ∈ cs, isLetter c = false) :
    findToken? axis false cs = none := by
  rw [← List.append_nil cs, findToken?_append hcs]
  rfl

theorem findToken?_letters (hcs : ∀ c ∈ cs, isLetter c = true) (rest : List Char) :
    findToken? axis true (cs ++ rest) = findToken? axis true rest := by
  induction cs with
  | nil => rfl
  | cons c cs ih =>
    obtain ⟨hc, hcs⟩ := List.forall_mem_cons.mp hcs
    rw [List.cons_append, findToken?_cons_of_afterLetter, hc, ih hcs]

namespace Token

theorem map_fold_word (t : Token axis) : t.word.map fold ∈ axis.keywords := by
  have hkeyword := mem_words_iff.mp t.word_mem
  have hfold : t.word.map fold = t.word.map lowerAscii :=
    List.map_congr_left fun c hc =>
      fold_eq_lowerAscii (isSmall_of_mem_keywords hkeyword (List.mem_map_of_mem hc))
  rw [hfold]
  exact hkeyword

theorem exists_word (t : Token axis) : ∃ c cs, t.word = c :: cs ∧ fold c = axis.initial := by
  have hhead := head?_of_mem_keywords t.map_fold_word
  cases hword : t.word with
  | nil => rw [hword] at hhead; contradiction
  | cons c cs =>
    rw [hword] at hhead
    exact ⟨c, cs, rfl, Option.some.inj hhead⟩

theorem isLetter_of_mem_word (t : Token axis) (hc : c ∈ t.word) : isLetter c = true :=
  isLetter_of_map_fold t.map_fold_word hc

theorem isDigit_of_mem_digits (t : Token axis) (hc : c ∈ t.digits) : isDigit c = true :=
  isDigit_of_isAsciiDigit (t.digits_ascii c hc)

theorem isLetter_of_mem_tail (t : Token axis) (hc : c ∈ t.tail) : isLetter c = false := by
  cases hletter : isLetter c with
  | false => rfl
  | true =>
    have hblank := isBlank_of_isLetter hletter
    simp only [tail, List.mem_append, Option.mem_toList] at hc
    rcases hc with ((hbefore | hsign) | hafter) | hdigits
    · exact absurd (t.before_blank c hbefore) (by simp [hblank])
    · rcases t.sign_mem c hsign with rfl | rfl <;> exact absurd hletter (by decide)
    · exact absurd (t.after_blank c hafter) (by simp [hblank])
    · exact absurd (t.isDigit_of_mem_digits hdigits) (by simp [isDigit_of_isLetter hletter])

theorem exists_digits (t : Token axis) : ∃ c cs, t.digits = c :: cs ∧ isDigit c = true := by
  obtain ⟨c, cs, hdigits⟩ := List.exists_cons_of_ne_nil t.digits_ne_nil
  exact ⟨c, cs, hdigits, t.isDigit_of_mem_digits (by rw [hdigits]; exact List.mem_cons_self)⟩

theorem trimStart_digits (t : Token axis) (rest : List Char) :
    trimStart (t.after ++ (t.digits ++ rest)) = t.digits ++ rest := by
  obtain ⟨c, cs, hdigits, hdigit⟩ := t.exists_digits
  rw [trimStart_append t.after_blank, hdigits, List.cons_append,
    trimStart_cons (isBlank_of_isDigit hdigit)]

theorem trimStart_dropSign (t : Token axis) (rest : List Char) :
    trimStart (dropSign (trimStart (t.tail ++ rest))) = t.digits ++ rest := by
  have hsplit : t.tail ++ rest =
      t.before ++ (t.sign.toList ++ (t.after ++ (t.digits ++ rest))) := by
    simp only [tail, List.append_assoc]
  rw [hsplit, trimStart_append t.before_blank]
  cases hsign : t.sign with
  | none =>
    obtain ⟨c, cs, hdigits, hdigit⟩ := t.exists_digits
    have hcolon : c ≠ ':' := by rintro rfl; exact absurd hdigit (by decide)
    have hequals : c ≠ '=' := by rintro rfl; exact absurd hdigit (by decide)
    rw [Option.toList_none, List.nil_append, trimStart_digits, hdigits, List.cons_append,
      dropSign_cons hcolon hequals, trimStart_cons (isBlank_of_isDigit hdigit)]
  | some c =>
    have hc := t.sign_mem c hsign
    have hblank : isBlank c = false := by rcases hc with rfl | rfl <;> decide
    rw [Option.toList_some, List.singleton_append, trimStart_cons hblank, dropSign,
      if_pos (by simpa using hc), trimStart_digits]

theorem amount?_tail (t : Token axis) (hrest : ∀ c ∈ rest.head?, isDigit c = false) :
    amount? (t.tail ++ rest) = some t.digits := by
  obtain ⟨c, cs, hdigits, -⟩ := t.exists_digits
  rw [amount?, trimStart_dropSign, digits?,
    takeWhile_append_eq (fun c hc => t.isDigit_of_mem_digits hc) hrest, hdigits]

/-- The search for an axis finds a token of the axis where it stands. -/
theorem findToken?_text (t : Token axis) (hrest : ∀ c ∈ rest.head?, isDigit c = false) :
    findToken? axis false (t.text ++ rest) = some t.digits := by
  have htoken : tokenAt? axis (t.word ++ (t.tail ++ rest)) = some t.digits :=
    tokenAt?_append t.map_fold_word (t.amount?_tail hrest)
  obtain ⟨c, cs, hword, -⟩ := t.exists_word
  rw [text, List.append_assoc, hword, List.cons_append]
  rw [hword, List.cons_append] at htoken
  simp only [findToken?, Bool.false_eq_true, if_false, htoken]

/-- The search for an axis passes over a token of the other axis. -/
theorem findToken?_other (t : Token other) (haxis : axis ≠ other) (rest : List Char) :
    findToken? axis false (t.text ++ rest) = findToken? axis false rest := by
  obtain ⟨c, cs, hword, hinitial⟩ := t.exists_word
  obtain ⟨hc, hcs⟩ := List.forall_mem_cons.mp fun d hd => t.isLetter_of_mem_word (hword ▸ hd)
  have hfirst : fold c ≠ axis.initial := fun hfold =>
    haxis (initial_injective (hfold.symm.trans hinitial))
  obtain ⟨d, ds, htail⟩ : ∃ d ds, t.tail = d :: ds :=
    List.exists_cons_of_ne_nil fun hnil => t.digits_ne_nil (List.append_eq_nil_iff.mp hnil).2
  obtain ⟨hd, hds⟩ := List.forall_mem_cons.mp fun e he => t.isLetter_of_mem_tail (htail ▸ he)
  rw [text, hword, List.cons_append, List.cons_append, findToken?_cons (tokenAt?_eq_none hfirst),
    hc, List.append_assoc, findToken?_letters hcs, htail, List.cons_append,
    findToken?_cons_of_afterLetter, hd, findToken?_append hds]

end Token

end ElementQuery.GridAddress
