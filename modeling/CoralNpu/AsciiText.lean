/-
**Texts of lines, words and numbers.**

Assembly text is a list of characters.  This module splits a text into lines and a line into words,
strips the white space around a text, prints numbers the way `printf` does, and reads them back.
Nothing here knows about assembly: the words are whatever stands between separators.

Main definitions:

* `AsciiText.lines`, `AsciiText.tokens`, `AsciiText.strip` — splitting and stripping;
* `AsciiText.decimal`, `AsciiText.hex`, `AsciiText.signed` — printed numbers;
* `AsciiText.parseInt` — reading a number, decimal with an optional sign or hexadecimal.

Main results:

* `AsciiText.lines_append`, `AsciiText.tokens_append` — splitting at a separator;
* `AsciiText.parseInt_decimal`, `AsciiText.parseInt_hex`, `AsciiText.parseInt_signed` — every
  printed number is read back.
-/

import Mathlib.Algebra.Group.Nat.Defs
import Mathlib.Data.Int.Notation

set_option relaxedAutoImplicit false
set_option autoImplicit false

/-- A text. -/
abbrev Text := List Char

namespace AsciiText

/-- Its characters are looked at one by one, and no others. -/
instance decidableForallMem (p : Char → Prop) [DecidablePred p] (text : Text) :
    Decidable (∀ c ∈ text, p c) :=
  List.decidableBAll p text

instance decidableExistsMem (p : Char → Prop) [DecidablePred p] (text : Text) :
    Decidable (∃ c ∈ text, p c) :=
  List.decidableBEx p text

/-! ### Lines, words and white space -/

/-- ASCII white space. -/
def isSpace (c : Char) : Bool :=
  c == ' ' || c == '\t' || c == '\n' || c == '\x0b' || c == '\x0c' || c == '\r'

/-- A text without the white space in front of it. -/
def stripLeft (text : Text) : Text := text.dropWhile isSpace

/-- A text without the white space around it. -/
def strip (text : Text) : Text := (stripLeft (stripLeft text).reverse).reverse

/-- A text up to its first NUL character. -/
def cString (text : Text) : Text := text.takeWhile (· != '\x00')

/-- The non-empty lines of a text. -/
def lines (text : Text) : List Text := (text.splitOnP (· == '\n')).filter (· ≠ [])

/-- The characters between the words of a line. -/
def isSeparator (c : Char) : Bool := isSpace c || c == ',' || c == '(' || c == ')'

/-- The words of a line. -/
def tokens (text : Text) : List Text := (text.splitOnP isSeparator).filter (· ≠ [])

/-- A word: not empty, and without separators. -/
def IsWord (text : Text) : Prop := text ≠ [] ∧ ∀ c ∈ text, isSeparator c = false

instance (text : Text) : Decidable (IsWord text) :=
  @instDecidableAnd _ _ _ (List.decidableBAll _ text)

theorem lines_append (text text' : Text) :
    lines (text ++ '\n' :: text') = lines text ++ lines text' := by
  rw [lines, List.splitOnP_append_cons _ _ (by decide), List.filter_append]
  rfl

theorem lines_of_not_mem {text : Text} (h : '\n' ∉ text) (hne : text ≠ []) :
    lines text = [text] := by
  rw [lines, List.splitOnP_eq_singleton]
  · simp [hne]
  · intro c hc
    simpa using fun heq : c = '\n' => h (heq ▸ hc)

theorem tokens_append (text text' : Text) {c : Char} (hc : isSeparator c = true) :
    tokens (text ++ c :: text') = tokens text ++ tokens text' := by
  rw [tokens, List.splitOnP_append_cons _ _ hc, List.filter_append]
  rfl

@[simp] theorem tokens_nil : tokens [] = [] := rfl

theorem tokens_cons {c : Char} (hc : isSeparator c = true) (text : Text) :
    tokens (c :: text) = tokens text := by
  simpa using tokens_append [] text hc

theorem tokens_of_isWord {text : Text} (h : IsWord text) : tokens text = [text] := by
  rw [tokens, List.splitOnP_eq_singleton h.2]
  simp [h.1]

/-- The first word of a line. -/
theorem tokens_word_append {word text : Text} (h : IsWord word) {c : Char}
    (hc : isSeparator c = true) : tokens (word ++ c :: text) = word :: tokens text := by
  rw [tokens_append _ _ hc, tokens_of_isWord h]
  rfl

theorem isSeparator_of_isSpace {c : Char} (h : isSpace c = true) : isSeparator c = true := by
  simp [isSeparator, h]

/-- A word has no white space. -/
theorem IsWord.isSpace_eq {word : Text} (h : IsWord word) : ∀ c ∈ word, isSpace c = false := by
  intro c hc
  cases hsp : isSpace c with
  | false => rfl
  | true => exact absurd (isSeparator_of_isSpace hsp) (by simp [h.2 c hc])

/-- What is not white space at the start of a text stays when the text is stripped. -/
theorem exists_strip_append {word : Text} (hne : word ≠ []) (hspace : ∀ c ∈ word, isSpace c = false)
    (text : Text) : ∃ rest, strip (word ++ text) = word ++ rest := by
  have hleft : ∀ w rest : Text, w ≠ [] → (∀ c ∈ w, isSpace c = false) →
      stripLeft (w ++ rest) = w ++ rest := by
    intro w rest hne hw
    obtain ⟨c, w, rfl⟩ := List.exists_cons_of_ne_nil hne
    exact List.dropWhile_cons_of_neg (by simp [hw c List.mem_cons_self])
  -- stripping from the right stops at the word at the latest
  have hright : ∀ rest : Text, ∃ kept, stripLeft (rest ++ word.reverse) = kept ++ word.reverse := by
    intro rest
    induction rest with
    | nil =>
        have hstop := hleft word.reverse [] (by simpa using hne) (by simpa using hspace)
        exact ⟨[], by simpa using hstop⟩
    | cons d rest ih =>
        rw [List.cons_append, stripLeft]
        by_cases hd : isSpace d = true
        · rw [List.dropWhile_cons_of_pos hd]
          exact ih
        · rw [List.dropWhile_cons_of_neg hd]
          exact ⟨d :: rest, rfl⟩
  obtain ⟨kept, hkept⟩ := hright text.reverse
  refine ⟨kept.reverse, ?_⟩
  rw [strip, hleft word text hne hspace, List.reverse_append, hkept, List.reverse_append,
    List.reverse_reverse]

/-! ### Numbers -/

/-- `%u`, and `%d` of a number that is not negative. -/
def decimal (n : ℕ) : Text := Nat.toDigits 10 n

/-- `%x`. -/
def hex (n : ℕ) : Text := Nat.toDigits 16 n

/-- `%#x`. -/
def hexAlt (n : ℕ) : Text := if n = 0 then ['0'] else '0' :: 'x' :: hex n

/-- `%d`. -/
def signed (z : ℤ) : Text := if z < 0 then '-' :: decimal z.natAbs else decimal z.natAbs

/-- The value of a digit. -/
def digitValue (c : Char) : Option ℕ :=
  if '0' ≤ c ∧ c ≤ '9' then some (c.toNat - '0'.toNat)
  else if 'a' ≤ c ∧ c ≤ 'f' then some (c.toNat - 'a'.toNat + 10)
  else none

/-- The digits of a number, most significant first, after the digits with value `value`. -/
def parseDigits (base : ℕ) : Text → ℕ → Option ℕ
  | [], value => some value
  | c :: text, value => do
      let digit ← digitValue c
      if digit < base then parseDigits base text (base * value + digit) else none

/-- A number without a sign. -/
def parseNat : Text → Option ℕ
  | '0' :: 'x' :: c :: text => parseDigits 16 (c :: text) 0
  | c :: text => parseDigits 10 (c :: text) 0
  | [] => none

/-- A number. -/
def parseInt : Text → Option ℤ
  | '-' :: text => (parseNat text).map fun n : ℕ => -(n : ℤ)
  | text => (parseNat text).map fun n : ℕ => (n : ℤ)

theorem digitValue_digitChar {d : ℕ} (h : d < 16) : digitValue d.digitChar = some d := by
  have : ∀ d < 16, digitValue d.digitChar = some d := by decide
  exact this d h

theorem parseDigits_append (base : ℕ) (text text' : Text) (value : ℕ) :
    parseDigits base (text ++ text') value =
      (parseDigits base text value).bind (parseDigits base text') := by
  induction text generalizing value with
  | nil => rfl
  | cons c text ih =>
      rw [List.cons_append, parseDigits, parseDigits]
      cases digitValue c with
      | none => rfl
      | some d =>
          simp only [Option.bind_eq_bind, Option.bind_some]
          split
          · exact ih _
          · rfl

/-- Printed digits are read back. -/
theorem parseDigits_toDigits {base : ℕ} (hlo : 1 < base) (hhi : base ≤ 16) (n : ℕ) :
    parseDigits base (Nat.toDigits base n) 0 = some n := by
  induction n using Nat.strongRecOn with
  | _ n ih =>
      rw [Nat.toDigits_eq_if hlo]
      split
      · rename_i hn
        simp [parseDigits, digitValue_digitChar (by omega : n < 16), hn]
      · rename_i hn
        have hmod : n % base < base := Nat.mod_lt _ (by omega)
        rw [parseDigits_append, ih (n / base) (Nat.div_lt_self (by omega) hlo)]
        simp [parseDigits, digitValue_digitChar (by omega : n % base < 16), hmod,
          Nat.div_add_mod]

theorem isSeparator_digitChar {d : ℕ} (h : d < 16) : isSeparator d.digitChar = false := by
  have : ∀ d < 16, isSeparator d.digitChar = false := by decide
  exact this d h

/-- Printed digits are digits. -/
theorem exists_digitChar_of_mem_toDigits {base : ℕ} (hlo : 1 < base) (n : ℕ) {c : Char}
    (hc : c ∈ Nat.toDigits base n) : ∃ d < base, c = d.digitChar := by
  induction n using Nat.strongRecOn with
  | _ n ih =>
      rw [Nat.toDigits_eq_if hlo] at hc
      split at hc
      · rename_i hn
        exact ⟨n, hn, by simpa using hc⟩
      · rcases List.mem_append.1 hc with hc | hc
        · exact ih (n / base) (Nat.div_lt_self (by omega) hlo) hc
        · exact ⟨n % base, Nat.mod_lt _ (by omega), by simpa using hc⟩

theorem isWord_toDigits {base : ℕ} (hlo : 1 < base) (hhi : base ≤ 16) (n : ℕ) :
    IsWord (Nat.toDigits base n) := by
  refine ⟨Nat.toDigits_ne_nil, fun c hc => ?_⟩
  obtain ⟨d, hd, rfl⟩ := exists_digitChar_of_mem_toDigits hlo n hc
  exact isSeparator_digitChar (by omega)

theorem isWord_decimal (n : ℕ) : IsWord (decimal n) := isWord_toDigits (by decide) (by decide) n

theorem isWord_hex (n : ℕ) : IsWord (hex n) := isWord_toDigits (by decide) (by decide) n

theorem isWord_cons {c : Char} (hc : isSeparator c = false) {text : Text} (h : IsWord text) :
    IsWord (c :: text) :=
  ⟨List.cons_ne_nil _ _, by simpa [hc] using h.2⟩

theorem isWord_hexAlt (n : ℕ) : IsWord (hexAlt n) := by
  rw [hexAlt]
  split
  · decide
  · exact isWord_cons (by decide) (isWord_cons (by decide) (isWord_hex n))

theorem isWord_signed (z : ℤ) : IsWord (signed z) := by
  rw [signed]
  split
  · exact isWord_cons (by decide) (isWord_decimal _)
  · exact isWord_decimal _

/-- A printed decimal number is not a hexadecimal one. -/
theorem parseNat_decimal (n : ℕ) : parseNat (decimal n) = some n := by
  have hparse := parseDigits_toDigits (by decide : 1 < 10) (by decide) n
  have hmem : ∀ c ∈ decimal n, c ≠ 'x' := by
    intro c hc
    obtain ⟨d, hd, rfl⟩ := exists_digitChar_of_mem_toDigits (by decide) n hc
    have : ∀ d < 10, d.digitChar ≠ 'x' := by decide
    exact this d hd
  rw [← decimal] at hparse
  revert hparse hmem
  have hne : decimal n ≠ [] := (isWord_decimal n).1
  generalize decimal n = text at hne ⊢
  intro hparse hmem
  rw [parseNat.eq_def]
  split
  · rename_i c text
    exact absurd rfl (hmem 'x' (by simp))
  · exact hparse
  · exact absurd rfl hne

theorem parseNat_hex (n : ℕ) : parseNat ('0' :: 'x' :: hex n) = some n := by
  have hparse := parseDigits_toDigits (by decide : 1 < 16) (by decide) n
  rw [← hex] at hparse
  have hne : hex n ≠ [] := (isWord_hex n).1
  generalize hex n = text at hparse hne ⊢
  cases text with
  | nil => exact absurd rfl hne
  | cons c text => simpa [parseNat] using hparse

theorem parseInt_of_head {c : Char} {text : Text} (h : c ≠ '-') :
    parseInt (c :: text) = (parseNat (c :: text)).map fun n : ℕ => (n : ℤ) := by
  rw [parseInt.eq_def]
  split
  · rename_i heq
    exact absurd (List.cons.inj heq).1 h
  · rfl

theorem parseInt_decimal (n : ℕ) : parseInt (decimal n) = some (n : ℤ) := by
  have hparse := parseNat_decimal n
  obtain ⟨c, text, htext⟩ := List.exists_cons_of_ne_nil (isWord_decimal n).1
  have hc : c ≠ '-' := by
    have hmem : c ∈ Nat.toDigits 10 n := by
      rw [← decimal, htext]
      exact List.mem_cons_self
    obtain ⟨d, hd, rfl⟩ := exists_digitChar_of_mem_toDigits (by decide) n hmem
    have : ∀ d < 10, d.digitChar ≠ '-' := by decide
    exact this d hd
  rw [htext] at hparse ⊢
  rw [parseInt_of_head hc, hparse]
  rfl

theorem parseInt_hex (n : ℕ) : parseInt ('0' :: 'x' :: hex n) = some (n : ℤ) := by
  rw [parseInt_of_head (by decide), parseNat_hex]
  rfl

theorem parseInt_hexAlt (n : ℕ) : parseInt (hexAlt n) = some (n : ℤ) := by
  rw [hexAlt]
  split
  · rename_i hn
    subst hn
    rfl
  · exact parseInt_hex n

theorem parseInt_signed (z : ℤ) : parseInt (signed z) = some z := by
  rw [signed]
  split
  · rename_i hz
    have hneg : -(z.natAbs : ℤ) = z := by omega
    rw [parseInt.eq_def]
    simp only [parseNat_decimal, Option.map_some, hneg]
  · rw [parseInt_decimal, Option.some.injEq]
    omega

end AsciiText
