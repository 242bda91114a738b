/-
**C integers.**

Arithmetic of the integer types of C++, on mathematical integers.  Types narrower than `int` are
promoted to it, signed arithmetic that leaves its type is an error, unsigned arithmetic and
conversions wrap around, and a shift by the width of the type or more is an error.

Main definitions:

* `CInt.Fits` — a value of a signed type;
* `CInt.toSigned`, `CInt.toUnsigned` — conversions;
* `CInt.neg`, `CInt.addSigned`, `CInt.addUnsigned`, `CInt.shl`, `CInt.shr` — the operations;
* `CInt.IntType`, `CInt.IntType.arith` — a type, and the result of an arithmetic operation in it.

Main results:

* `CInt.toSigned_of_fits`, `CInt.toUnsigned_of_lt` — conversions keep the values of their type;
* `CInt.checked_of_fits` and its companions — operations are exact as long as nothing overflows;
* `CInt.shl_toUnsigned` — a signed value shifted by way of the unsigned type;
* `CInt.IntType.arith_of_contains` — a result inside the type is exact.
-/

import Mathlib.Algebra.Order.Ring.Int
import Mathlib.Tactic.Positivity

set_option relaxedAutoImplicit false
set_option autoImplicit false

namespace CInt

/-! ### Values -/

/-- A value of the signed type with `w` bits. -/
def Fits (w : ℕ) (z : ℤ) : Prop := -2 ^ (w - 1) ≤ z ∧ z < 2 ^ (w - 1)

instance (w : ℕ) (z : ℤ) : Decidable (Fits w z) := inferInstanceAs (Decidable (_ ∧ _))

/-- The conversion to the signed type with `w` bits. -/
def toSigned (w : ℕ) (z : ℤ) : ℤ := z.bmod (2 ^ w)

/-- The conversion to the unsigned type with `w` bits. -/
def toUnsigned (w : ℕ) (z : ℤ) : ℤ := z % 2 ^ w

theorem Fits.mono {w w' : ℕ} {z : ℤ} (h : Fits w z) (hle : w ≤ w') : Fits w' z := by
  have hpow : (2 : ℤ) ^ (w - 1) ≤ 2 ^ (w' - 1) := pow_le_pow_right₀ (by decide) (by omega)
  exact ⟨by have := h.1; omega, by have := h.2; omega⟩

theorem two_pow_pred {w : ℕ} (hw : 0 < w) : (2 : ℤ) ^ w = 2 * 2 ^ (w - 1) := by
  obtain ⟨n, rfl⟩ := Nat.exists_eq_succ_of_ne_zero hw.ne'
  rw [pow_succ', Nat.succ_sub_one]

/-- A value of the type is kept. -/
theorem toSigned_of_fits {w : ℕ} (hw : 0 < w) {z : ℤ} (h : Fits w z) : toSigned w z = z := by
  have hpow := two_pow_pred hw
  obtain ⟨hlo, hhi⟩ := h
  have hcast : ((2 ^ w : ℕ) : ℤ) = 2 ^ w := by push_cast; rfl
  exact Int.bmod_eq_of_le (by omega) (by omega)

/-- A value above the type, by less than a period. -/
theorem toSigned_of_ge {w : ℕ} (hw : 0 < w) {z : ℤ} (hlo : 2 ^ (w - 1) ≤ z)
    (hhi : z < 2 ^ w + 2 ^ (w - 1)) : toSigned w z = z - 2 ^ w := by
  have hpow := two_pow_pred hw
  have hcast : ((2 ^ w : ℕ) : ℤ) = 2 ^ w := by push_cast; rfl
  have hperiod : toSigned w z = toSigned w (z - 2 ^ w) := by
    rw [toSigned, toSigned, ← hcast, Int.sub_bmod_right]
  rw [hperiod, toSigned_of_fits hw ⟨by omega, by omega⟩]

/-- A value below the type, by less than a period. -/
theorem toSigned_of_lt_neg {w : ℕ} (hw : 0 < w) {z : ℤ} (hhi : z < -2 ^ (w - 1))
    (hlo : -2 ^ w - 2 ^ (w - 1) ≤ z) : toSigned w z = z + 2 ^ w := by
  have hpow := two_pow_pred hw
  have hcast : ((2 ^ w : ℕ) : ℤ) = 2 ^ w := by push_cast; rfl
  have hperiod : toSigned w z = toSigned w (z + 2 ^ w) := by
    rw [toSigned, toSigned, ← hcast, Int.add_bmod_right]
  rw [hperiod, toSigned_of_fits hw ⟨by omega, by omega⟩]

theorem toUnsigned_of_lt {w : ℕ} {z : ℤ} (hlo : 0 ≤ z) (hhi : z < 2 ^ w) : toUnsigned w z = z :=
  Int.emod_eq_of_lt hlo hhi

/-- Converting to the signed type does not look at what the unsigned type has cut off. -/
theorem toSigned_toUnsigned (w : ℕ) (z : ℤ) : toSigned w (toUnsigned w z) = toSigned w z := by
  have hcast : ((2 ^ w : ℕ) : ℤ) = 2 ^ w := by push_cast; rfl
  rw [toSigned, toUnsigned, ← hcast, Int.emod_bmod]
  rfl

/-- A converted value lies below the end of the type. -/
theorem toSigned_lt {w : ℕ} (hw : 0 < w) (z : ℤ) : toSigned w z < 2 ^ (w - 1) := by
  have hpow := two_pow_pred hw
  have hcast : ((2 ^ w : ℕ) : ℤ) = 2 ^ w := by push_cast; rfl
  have hlt := Int.bmod_lt (x := z) (m := 2 ^ w) (by positivity)
  rw [toSigned]
  omega

/-- Converting does not make a value that is not negative larger. -/
theorem toSigned_le {w : ℕ} {z : ℤ} (h : 0 ≤ z) : toSigned w z ≤ z := by
  have hle : z % ((2 ^ w : ℕ) : ℤ) ≤ z := by
    have hmul : 0 ≤ ((2 ^ w : ℕ) : ℤ) * (z / ((2 ^ w : ℕ) : ℤ)) :=
      mul_nonneg (Int.natCast_nonneg _) (Int.ediv_nonneg h (Int.natCast_nonneg _))
    have hdiv := Int.mul_ediv_add_emod z ((2 ^ w : ℕ) : ℤ)
    omega
  rw [toSigned, Int.bmod_def]
  split
  · exact hle
  · omega

/-! ### Operations -/

/-- The result of signed arithmetic; `none` when it overflows. -/
def checked (w : ℕ) (z : ℤ) : Option ℤ := if Fits w z then some z else none

/-- The width after promotion to `int`. -/
def promoted (w : ℕ) : ℕ := max 32 w

/-- The negation of an `int`. -/
def neg (z : ℤ) : Option ℤ := checked 32 (-z)

/-- A sum of two signed values. -/
def addSigned (w : ℕ) (a b : ℤ) : Option ℤ := checked (promoted w) (a + b)

/-- The result of arithmetic on unsigned values, in `int` when they are narrower. -/
def unsignedResult (w : ℕ) (z : ℤ) : Option ℤ :=
  if w < 32 then checked 32 z else some (toUnsigned w z)

/-- A sum of two unsigned values. -/
def addUnsigned (w : ℕ) (a b : ℤ) : Option ℤ := unsignedResult w (a + b)

/-- The left shift of an unsigned value. -/
def shl (w : ℕ) (a n : ℤ) : Option ℤ :=
  if 0 ≤ n ∧ n < promoted w then unsignedResult w (a * 2 ^ n.toNat) else none

/-- The right shift. -/
def shr (w : ℕ) (a n : ℤ) : Option ℤ :=
  if 0 ≤ n ∧ n < promoted w then some (a >>> n.toNat) else none

theorem checked_of_fits {w : ℕ} {z : ℤ} (h : Fits w z) : checked w z = some z := if_pos h

theorem neg_of_fits {z : ℤ} (h : Fits 32 (-z)) : neg z = some (-z) := checked_of_fits h

theorem addSigned_of_fits {w : ℕ} {a b : ℤ} (h : Fits w (a + b)) :
    addSigned w a b = some (a + b) :=
  checked_of_fits (h.mono (Nat.le_max_right ..))

/-- Arithmetic on unsigned values is exact inside the type. -/
theorem unsignedResult_of_lt {w : ℕ} {z : ℤ} (hlo : 0 ≤ z) (hhi : z < 2 ^ w) :
    unsignedResult w z = some z := by
  rw [unsignedResult]
  split
  · rename_i hw
    have hpow : (2 : ℤ) ^ w ≤ 2 ^ 31 := pow_le_pow_right₀ (by decide) (by omega)
    exact checked_of_fits ⟨by omega, by omega⟩
  · rw [toUnsigned_of_lt hlo hhi]

theorem addUnsigned_of_lt {w : ℕ} {a b : ℤ} (hlo : 0 ≤ a + b) (hhi : a + b < 2 ^ w) :
    addUnsigned w a b = some (a + b) := unsignedResult_of_lt hlo hhi

theorem shl_of_lt {w : ℕ} {a : ℤ} {n : ℕ} (hn : n < promoted w) (hlo : 0 ≤ a)
    (hhi : a * 2 ^ n < 2 ^ w) : shl w a n = some (a * 2 ^ n) := by
  have hin : 0 ≤ (n : ℤ) ∧ (n : ℤ) < promoted w := ⟨Int.natCast_nonneg n, by exact_mod_cast hn⟩
  rw [shl, if_pos hin, Int.toNat_natCast]
  exact unsignedResult_of_lt (by positivity) hhi

theorem shr_of_lt {w : ℕ} {a : ℤ} {n : ℕ} (hn : n < promoted w) :
    shr w a n = some (a / 2 ^ n) := by
  have hin : 0 ≤ (n : ℤ) ∧ (n : ℤ) < promoted w := ⟨Int.natCast_nonneg n, by exact_mod_cast hn⟩
  rw [shr, if_pos hin, Int.toNat_natCast, Int.shiftRight_eq_div_pow]
  push_cast
  rfl

/-- A shift of a signed value by way of the unsigned type. -/
theorem shl_toUnsigned {w n : ℕ} (hn : n < promoted w) (hw : w < 32 → w + n ≤ 31) (a : ℤ) :
    ∃ r, shl w (toUnsigned w a) n = some r ∧ toSigned w r = toSigned w (a * 2 ^ n) := by
  have hin : 0 ≤ (n : ℤ) ∧ (n : ℤ) < promoted w := ⟨Int.natCast_nonneg n, by exact_mod_cast hn⟩
  have hpos : (0 : ℤ) < 2 ^ w := by positivity
  have hvalue : toSigned w (toUnsigned w a * 2 ^ n) = toSigned w (a * 2 ^ n) := by
    have hcast : ((2 ^ w : ℕ) : ℤ) = 2 ^ w := by push_cast; rfl
    rw [toSigned, toSigned, toUnsigned, ← hcast, Int.emod_mul_bmod]
  rw [shl, if_pos hin, Int.toNat_natCast, unsignedResult]
  split
  · rename_i hlt
    refine ⟨_, checked_of_fits ⟨?_, ?_⟩, hvalue⟩
    · have hlo : 0 ≤ toUnsigned w a * 2 ^ n :=
        mul_nonneg (Int.emod_nonneg _ hpos.ne') (by positivity)
      omega
    · have hle : toUnsigned w a * 2 ^ n ≤ (2 ^ w - 1) * 2 ^ n :=
        mul_le_mul_of_nonneg_right (Int.le_sub_one_of_lt (Int.emod_lt_of_pos _ hpos))
          (by positivity)
      have hpow : (2 : ℤ) ^ (w + n) ≤ 2 ^ 31 := pow_le_pow_right₀ (by decide) (hw hlt)
      have hn' : (0 : ℤ) < 2 ^ n := by positivity
      rw [pow_add] at hpow
      rw [sub_mul, one_mul] at hle
      omega
  · exact ⟨_, rfl, by rw [toSigned_toUnsigned, hvalue]⟩

/-! ### Types -/

/-- An integer type. -/
structure IntType where
  bits : ℕ
  signed : Bool
  deriving DecidableEq

namespace IntType

/-- A value of the type. -/
def Contains (t : IntType) (z : ℤ) : Prop :=
  if t.signed then Fits t.bits z else 0 ≤ z ∧ z < 2 ^ t.bits

instance instDecidableContains (t : IntType) (z : ℤ) : Decidable (t.Contains z) :=
  inferInstanceAs (Decidable (if t.signed then Fits t.bits z else 0 ≤ z ∧ z < 2 ^ t.bits))

/-- The least value. -/
def least (t : IntType) : ℤ := if t.signed then -2 ^ (t.bits - 1) else 0

/-- The greatest value. -/
def greatest (t : IntType) : ℤ := if t.signed then 2 ^ (t.bits - 1) - 1 else 2 ^ t.bits - 1

/-- The conversion to the type. -/
def convert (t : IntType) (z : ℤ) : ℤ := if t.signed then toSigned t.bits z else toUnsigned t.bits z

/-- The type in which arithmetic on values of the type is done. -/
def promote (t : IntType) : IntType := if t.bits < 32 then ⟨32, true⟩ else t

/-- The result of an arithmetic operation on values of the type, from the exact one.  With `strict`
a result that leaves the type is an error even if the type is unsigned. -/
def arith (strict : Bool) (t : IntType) (z : ℤ) : Option ℤ :=
  if t.promote.Contains z then some z
  else if strict ∨ t.promote.signed then none
  else some (t.promote.convert z)

/-- The value of a variable of the type after an assignment.  With `strict` a value outside the type
is an error. -/
def assign (strict : Bool) (t : IntType) (z : ℤ) : Option ℤ :=
  if t.Contains z then some z else if strict then none else some (t.convert z)

theorem contains_iff {t : IntType} {z : ℤ} : t.Contains z ↔ t.least ≤ z ∧ z ≤ t.greatest := by
  rw [Contains, least, greatest]
  split <;> simp only [Fits, Int.le_sub_one_iff]

/-- Conversion keeps the values of the type. -/
theorem convert_of_contains {t : IntType} (hpos : 0 < t.bits) {z : ℤ} (h : t.Contains z) :
    t.convert z = z := by
  rw [Contains] at h
  rw [convert]
  split
  · rename_i hsigned
    rw [if_pos hsigned] at h
    exact toSigned_of_fits hpos h
  · rename_i hsigned
    rw [if_neg hsigned] at h
    exact toUnsigned_of_lt h.1 h.2

/-- **A result inside the type is exact.** -/
theorem arith_of_contains {t : IntType} {z : ℤ} (h : t.promote.Contains z) (strict : Bool) :
    t.arith strict z = some z := if_pos h

theorem assign_of_contains {t : IntType} {z : ℤ} (h : t.Contains z) (strict : Bool) :
    t.assign strict z = some z := if_pos h

/-- Unsigned arithmetic wraps around. -/
theorem arith_of_unsigned {t : IntType} (h : ¬ t.promote.signed) (z : ℤ) :
    t.arith false z = some (toUnsigned t.promote.bits z) := by
  rw [arith]
  split
  · rename_i hcontains
    rw [Contains, if_neg h] at hcontains
    rw [toUnsigned_of_lt hcontains.1 hcontains.2]
  · rw [if_neg (by simp [h]), convert, if_neg h]

/-- A strict operation fails when its result leaves the type. -/
theorem arith_strict (t : IntType) (z : ℤ) :
    t.arith true z = if t.promote.Contains z then some z else none := by
  rw [arith]
  split
  · rfl
  · rw [if_pos (Or.inl rfl)]

/-- Values of a type are values of the promoted one. -/
theorem contains_promote {t : IntType} {z : ℤ} (h : t.Contains z) : t.promote.Contains z := by
  rw [promote]
  split
  · rename_i hbits
    rw [Contains] at h
    split at h
    · exact h.mono hbits.le
    · have hpow : (2 : ℤ) ^ t.bits ≤ 2 ^ 31 := pow_le_pow_right₀ (by decide) (by omega)
      have hint : Fits 32 z := ⟨by omega, by omega⟩
      exact hint
  · exact h

end IntType

end CInt
