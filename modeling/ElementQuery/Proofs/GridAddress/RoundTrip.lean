import ElementQuery.Proofs.GridAddress.Reading
import ElementQuery.Proofs.Query.Condition

/-!
# Reading the text of an address

The text of an address is made of tokens in their plainest form, a word, one blank and the number in
decimal digits, with a comma between the two of a cell. So reading it is a case of reading tokens, and
the address comes back if its numbers are in range. Every address that was read from a text has such
numbers, whether they stood in tokens or as a bare pair, since the same reader of numbers is used for
both.
-/

namespace ElementQuery.GridAddress

open Text

/-- Holds of an address whose numbers a row or a column can have. -/
def InRange (a : GridAddress) : Prop :=
  (∀ r ∈ a.row?, IsOrdinal r) ∧ ∀ c ∈ a.column?, IsOrdinal c

instance : DecidablePred InRange := fun a =>
  inferInstanceAs (Decidable ((∀ r ∈ a.row?, IsOrdinal r) ∧ ∀ c ∈ a.column?, IsOrdinal c))

variable {a : GridAddress} {s : String} {n : Nat}

/-! ### Addresses that were read -/

theorem isOrdinal_of_readOrdinal? {digits : List Char} (hread : readOrdinal? digits = some n) :
    IsOrdinal n :=
  (readOrdinal?_eq_some_iff.mp hread).2

theorem isOrdinal_of_readToken {invalid : Error} {digits : Option (List Char)}
    (hread : readToken invalid digits = .ok (some n)) : IsOrdinal n := by
  rw [readToken.eq_def] at hread
  split at hread
  · cases hread
  · split at hread
    · next hordinal =>
      obtain rfl := Option.some.inj (Except.ok.inj hread)
      exact isOrdinal_of_readOrdinal? hordinal
    · cases hread

theorem inRange_of_parse (hparse : parse s = .ok a) : a.InRange := by
  rw [parse] at hparse
  split at hparse
  · split at hparse
    · next hrow hcolumn =>
      obtain rfl := Except.ok.inj hparse
      simpa [InRange, row?, column?] using
        ⟨isOrdinal_of_readOrdinal? hrow, isOrdinal_of_readOrdinal? hcolumn⟩
    · contradiction
  · obtain ⟨row, hrow, hparse⟩ := bind_eq_ok_iff.mp hparse
    obtain ⟨column, hcolumn, hparse⟩ := bind_eq_ok_iff.mp hparse
    cases row with
    | some r =>
      cases column with
      | some c =>
        obtain rfl := Except.ok.inj hparse
        simpa [InRange, row?, column?] using
          ⟨isOrdinal_of_readToken hrow, isOrdinal_of_readToken hcolumn⟩
      | none =>
        obtain rfl := Except.ok.inj hparse
        simpa [InRange, row?, column?] using isOrdinal_of_readToken hrow
    | none =>
      cases column with
      | some c =>
        obtain rfl := Except.ok.inj hparse
        simpa [InRange, row?, column?] using isOrdinal_of_readToken hcolumn
      | none => contradiction

/-! ### The tokens of a written address -/

def Axis.written : Axis → List Char
  | .row => ['r', 'o', 'w']
  | .column => ['c', 'o', 'l', 'u', 'm', 'n']

def Token.ofNat (axis : Axis) (n : Nat) : Token axis where
  word := axis.written
  before := [' ']
  sign := none
  after := []
  digits := writeNat n
  word_mem := by cases axis <;> decide
  before_blank := List.all_eq_true.mp rfl
  sign_mem := by simp
  after_blank := by simp
  digits_ne_nil := writeNat_ne_nil n
  digits_ascii := fun _ hc => isAsciiDigit_of_mem_writeNat hc

@[simp] theorem Token.text_ofNat (axis : Axis) (n : Nat) :
    (Token.ofNat axis n).text = axis.written ++ ' ' :: writeNat n := rfl

@[simp] theorem Token.value_ofNat (axis : Axis) (n : Nat) : (Token.ofNat axis n).value = n :=
  ofDigitChars_writeNat n

theorem plain_nil : Plain [] := by decide

theorem plain_comma : Plain [',', ' '] := by decide

theorem parse_text (a : GridAddress) :
    parse a.text = if a.InRange then .ok a else .error (.invalidGridAddress a.text) := by
  have hreads : ReadsIf a.text.toList a.InRange a := by
    cases a with
    | cell r c =>
      have hcell := readsIf_row_column (.ofNat .row r) (.ofNat .column c) plain_nil plain_comma
        plain_nil
      simpa [text, Axis.written, InRange, row?, column?, decimal] using hcell
    | row r =>
      have hrow := readsIf_token (.ofNat .row r) plain_nil plain_nil
      simpa [text, Axis.written, Axis.address, InRange, row?, column?, decimal] using hrow
    | column c =>
      have hcolumn := readsIf_token (.ofNat .column c) plain_nil plain_nil
      simpa [text, Axis.written, Axis.address, InRange, row?, column?, decimal] using hcolumn
  rwa [ReadsIf, String.ofList_toList] at hreads

/-- What is read from a text has numbers in range and is read from its own text again; a text that is
no address is reported as it is. An address that was not read comes back from its text if and only if
its numbers are in range. -/
theorem parse_text_of_parse :
    (∀ s, match parse s with
      | .ok a => a.InRange ∧ parse a.text = .ok a
      | .error e => e = .invalidGridAddress s) ∧
    ∀ a, parse a.text = .ok a ↔ a.InRange := by
  have hback : ∀ a : GridAddress, parse a.text = .ok a ↔ a.InRange := by
    intro a
    rw [parse_text]
    split
    · next hrange => exact iff_of_true rfl hrange
    · next hrange => exact iff_of_false (fun heq => nomatch heq) hrange
  refine ⟨fun s => ?_, hback⟩
  split
  · next a hparse =>
    have hrange := inRange_of_parse hparse
    exact ⟨hrange, (hback a).mpr hrange⟩
  · next e hparse => exact error_of_parse hparse

/-- The digits of another script belong to a token, but they have no value. -/
example : parse "row \u0663" = .error (.invalidGridAddress "row \u0663") := by decide +kernel

end ElementQuery.GridAddress
