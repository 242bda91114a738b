/-
**The saturating vector shift.**

`VSha`, `VShl` and their rounding forms shift every element by a signed amount: to the right when it
is positive, to the left with saturation when it is negative.  One template serves six element
types; its arms for signed and for unsigned types differ in their boundary cases.  An element is
shifted in the type twice as wide; the shift amount is an `int`.

Main definitions:

* `CoralNpu.ElementType` — the element types;
* `CoralNpu.vShiftSigned`, `CoralNpu.vShiftUnsigned` — the two arms, on values;
* `CoralNpu.vShiftHelper` — `CoralNPUVShiftHelper`; `none` is an abort or an overflow;
* `CoralNpu.exactShift` — the shift as mathematics has it.

Main results:

* `CoralNpu.vShiftSigned_eq`, `CoralNpu.vShiftUnsigned_eq` — the arms compute the exact shift unless
  they negate the least `int`;
* `CoralNpu.vShiftHelper_exact_iff` — **when the helper is exact**.
-/

import CoralNpu.CInt
import Mathlib.Data.Rat.Floor

set_option relaxedAutoImplicit false
set_option autoImplicit false

namespace CoralNpu

open CInt

/-! ### The helper -/

/-- The element types of the shift. -/
inductive ElementType where
  | int8 | int16 | int32 | uint8 | uint16 | uint32
  deriving DecidableEq

namespace ElementType

/-- `sizeof(T) * 8`. -/
def bits : ElementType → ℕ
  | int8 | uint8 => 8
  | int16 | uint16 => 16
  | int32 | uint32 => 32

/-- `std::is_signed<T>`. -/
def signed : ElementType → Bool
  | int8 | int16 | int32 => true
  | uint8 | uint16 | uint32 => false

/-- The value of an element. -/
def value (t : ElementType) (x : BitVec t.bits) : ℤ := if t.signed then x.toInt else x.toNat

/-- `std::numeric_limits<T>::min()`. -/
def min (t : ElementType) : ℤ := if t.signed then -2 ^ (t.bits - 1) else 0

/-- `std::numeric_limits<T>::max()`. -/
def max (t : ElementType) : ℤ := if t.signed then 2 ^ (t.bits - 1) - 1 else 2 ^ t.bits - 1

end ElementType

/-- The rounding constant, `1 << (shamt - 1)` in the wide type. -/
def roundingBit (cast : ℤ → ℤ) (round : Bool) (shamt : ℤ) : ℤ :=
  if round then cast (2 ^ (shamt - 1).toNat) else 0

/-- `-shamt <= kMaxShiftBit ? -shamt : kMaxShiftBit`, in the unsigned type with `w` bits. -/
def leftAmount (w : ℕ) (shamt : ℤ) : Option ℤ := do
  let negated ← neg shamt
  return toUnsigned w (if negated ≤ w then negated else w)

/-- The shifted value of the arm for signed types, before saturation. -/
def wideShiftSigned (w : ℕ) (round : Bool) (vs1 shamt : ℤ) : Option ℤ :=
  let kMaxShiftBit : ℤ := w
  if vs1 < 0 ∧ shamt ≥ kMaxShiftBit then some (-1 + if round then 1 else 0)
  else if vs1 > 0 ∧ shamt ≥ kMaxShiftBit then some 0
  else if shamt > 0 then do
    let sum ← addSigned (2 * w) vs1 (roundingBit (toSigned (2 * w)) round shamt)
    let shifted ← shr (2 * w) sum shamt
    return toSigned (2 * w) shifted
  else do
    let ushamt ← leftAmount w shamt
    -- `CHECK_LE(ushamt, kMaxShiftBit)` and `CHECK_GE(ushamt, 0)`
    guard (ushamt ≤ kMaxShiftBit ∧ ushamt ≥ 0)
    let shifted ← shl (2 * w) (toUnsigned (2 * w) vs1) ushamt
    return toSigned (2 * w) shifted

/-- The saturation of the arm for signed types. -/
def saturateSigned (w : ℕ) (vs1 shamt shift : ℤ) : ℤ :=
  let kMaxShiftBit : ℤ := w
  let negMax : ℤ := -2 ^ (w - 1)
  let posMax : ℤ := 2 ^ (w - 1) - 1
  if vs1 < 0 ∧ (shamt ≤ -kMaxShiftBit ∨ shift < negMax) then negMax
  else if vs1 > 0 ∧ (shamt ≤ -kMaxShiftBit ∨ shift > posMax) then posMax
  else shift

/-- The arm for signed types. -/
def vShiftSigned (w : ℕ) (round : Bool) (vs1 shamt : ℤ) : Option ℤ :=
  if vs1 = 0 then some 0
  else (wideShiftSigned w round vs1 shamt).map (saturateSigned w vs1 shamt)

/-- The shifted value of the arm for unsigned types, before saturation. -/
def wideShiftUnsigned (w : ℕ) (round : Bool) (vs1 shamt : ℤ) : Option ℤ :=
  let kMaxShiftBit : ℤ := w
  if shamt > kMaxShiftBit then some 0
  else if shamt > 0 then do
    let sum ← addUnsigned (2 * w) vs1 (roundingBit (toUnsigned (2 * w)) round shamt)
    let shifted ← shr (2 * w) sum shamt
    return toUnsigned (2 * w) shifted
  else do
    let ushamt ← leftAmount w shamt
    let shifted ← shl (2 * w) vs1 ushamt
    return toUnsigned (2 * w) shifted

/-- The saturation of the arm for unsigned types. -/
def saturateUnsigned (w : ℕ) (shamt shift : ℤ) : ℤ :=
  let kMaxShiftBit : ℤ := w
  let posMax : ℤ := 2 ^ w - 1
  if shamt < -kMaxShiftBit ∨ shift > posMax then posMax else shift

/-- The arm for unsigned types. -/
def vShiftUnsigned (w : ℕ) (round : Bool) (vs1 shamt : ℤ) : Option ℤ :=
  if vs1 = 0 then some 0
  else (wideShiftUnsigned w round vs1 shamt).map (saturateUnsigned w shamt)

/-- `CoralNPUVShiftHelper`. -/
def vShiftHelper (t : ElementType) (round : Bool) (vs1 vs2 : BitVec t.bits) :
    Option (BitVec t.bits) :=
  (if t.signed then vShiftSigned t.bits round vs1.toInt vs2.toInt
    else vShiftUnsigned t.bits round vs1.toNat vs2.toInt).map (BitVec.ofInt t.bits)

/-! ### The exact shift -/

/-- The exact shift by `s` of a value of a type from `lo` to `hi`. -/
def exactShift (lo hi : ℤ) (round : Bool) (v s : ℤ) : ℤ :=
  if 0 ≤ s then ⌊(v : ℚ) / 2 ^ s.toNat + if round then 1 / 2 else 0⌋
  else Max.max lo (Min.min hi (v * 2 ^ (-s).toNat))

theorem exactShift_zero (lo hi : ℤ) (round : Bool) (v : ℤ) : exactShift lo hi round v 0 = v := by
  rw [exactShift, if_pos (Int.le_refl 0), Int.toNat_zero, pow_zero, div_one]
  cases round with
  | false => simp
  | true =>
      rw [if_pos rfl, Int.floor_intCast_add]
      norm_num

theorem exactShift_of_zero {lo hi : ℤ} (hlo : lo ≤ 0) (hhi : 0 ≤ hi) (round : Bool) (s : ℤ) :
    exactShift lo hi round 0 s = 0 := by
  rw [exactShift]
  split
  · cases round with
    | false => simp
    | true => norm_num
  · rw [zero_mul, min_eq_right hhi, max_eq_right hlo]

theorem exactShift_left (lo hi : ℤ) (round : Bool) (v : ℤ) {n : ℕ} (hn : 0 < n) :
    exactShift lo hi round v (-n) = Max.max lo (Min.min hi (v * 2 ^ n)) := by
  rw [exactShift, if_neg (by omega), neg_neg, Int.toNat_natCast]

/-- A shift to the right is a division, of the value with half a divisor added when it rounds. -/
theorem exactShift_right (lo hi : ℤ) (round : Bool) (v : ℤ) {n : ℕ} (hn : 0 < n) :
    exactShift lo hi round v n = (v + if round then 2 ^ (n - 1) else 0) / 2 ^ n := by
  rw [exactShift, if_pos (Int.natCast_nonneg n), Int.toNat_natCast]
  have hfloor : ∀ x : ℤ, ⌊(x : ℚ) / 2 ^ n⌋ = x / 2 ^ n := by
    intro x
    have h := Rat.floor_intCast_div_natCast x (2 ^ n)
    push_cast at h
    exact h
  cases round with
  | false => simp [hfloor]
  | true =>
      obtain ⟨k, rfl⟩ := Nat.exists_eq_succ_of_ne_zero hn.ne'
      rw [if_pos rfl, if_pos rfl, ← hfloor, Nat.succ_sub_one]
      congr 1
      push_cast
      rw [pow_succ]
      field_simp

section Arms

variable {w : ℕ} {round : Bool} {v : ℤ}

/-- The rounding constant of the code. -/
theorem roundingBit_of_cast {cast : ℤ → ℤ} {n : ℕ} (hcast : cast (2 ^ (n - 1)) = 2 ^ (n - 1))
    (hn : 0 < n) (round : Bool) :
    roundingBit cast round n = if round then 2 ^ (n - 1) else 0 := by
  have hsub : ((n : ℤ) - 1).toNat = n - 1 := by omega
  rw [roundingBit, hsub, hcast]

theorem leftAmount_eq {n : ℕ} (hn : (n : ℤ) < 2 ^ 31) :
    leftAmount w (-n) = some ((Min.min n w : ℕ) : ℤ) := by
  have hw : (w : ℤ) < 2 ^ w := by exact_mod_cast Nat.lt_two_pow_self
  rw [leftAmount, neg_of_fits ⟨by omega, by omega⟩, neg_neg]
  simp only [Option.pure_def, Option.bind_eq_bind, Option.bind_some]
  by_cases hle : n ≤ w
  · rw [if_pos (by exact_mod_cast hle), Nat.min_eq_left hle, toUnsigned_of_lt (by omega) (by omega)]
  · rw [if_neg (by exact_mod_cast hle), Nat.min_eq_right (by omega),
      toUnsigned_of_lt (by omega) hw]

/-- The least `int` has no negation. -/
theorem leftAmount_least : leftAmount w (-2 ^ 31) = none := rfl

/-- The quotient of a value by a power of two that is larger. -/
theorem ediv_two_pow {n : ℕ} {x q : ℤ} (hlo : q * 2 ^ n ≤ x) (hhi : x < q * 2 ^ n + 2 ^ n) :
    x / 2 ^ n = q := (Int.ediv_eq_iff_of_pos (by positivity)).2 ⟨hlo, hhi⟩

/-- The bounds of a quotient. -/
theorem ediv_two_pow_bounds {n : ℕ} {x lo hi : ℤ} (hlo : lo * 2 ^ n ≤ x) (hhi : x < hi * 2 ^ n) :
    lo ≤ x / 2 ^ n ∧ x / 2 ^ n < hi :=
  ⟨(Int.le_ediv_iff_mul_le (by positivity)).2 hlo, (Int.ediv_lt_iff_lt_mul (by positivity)).2 hhi⟩

/-! ### The arm for signed types -/

theorem saturateSigned_of_fits {shamt shift : ℤ} (hshamt : -(w : ℤ) < shamt) (h : Fits w shift) :
    saturateSigned w v shamt shift = shift := by
  obtain ⟨hlo, hhi⟩ := h
  rw [saturateSigned, if_neg (by omega), if_neg (by omega)]

theorem vShiftSigned_of_shift {shamt shift : ℤ} (hv : v ≠ 0)
    (h : wideShiftSigned w round v shamt = some shift) :
    vShiftSigned w round v shamt = some (saturateSigned w v shamt shift) := by
  rw [vShiftSigned, if_neg hv, h, Option.map_some]

/-- A shift to the right by the width or more. -/
theorem vShiftSigned_far {n : ℕ} (hw : 0 < w) (hfits : Fits w v) (hv : v ≠ 0) (hn : w ≤ n) :
    vShiftSigned w round v n =
      some (exactShift (-2 ^ (w - 1)) (2 ^ (w - 1) - 1) round v n) := by
  obtain ⟨hlo, hhi⟩ := hfits
  have hpow := two_pow_pred (w := n) (by omega)
  have hmono : (2 : ℤ) ^ (w - 1) ≤ 2 ^ (n - 1) := pow_le_pow_right₀ (by decide) (by omega)
  have hone : (1 : ℤ) ≤ 2 ^ (w - 1) := one_le_pow₀ (by decide)
  have hge : (n : ℤ) ≥ w := by exact_mod_cast hn
  rw [exactShift_right _ _ _ _ (by omega)]
  by_cases hneg : v < 0
  · have hquotient : (v + if round then 2 ^ (n - 1) else 0) / 2 ^ n =
        -1 + if round then 1 else 0 := by
      apply ediv_two_pow
      · cases round <;> simp <;> omega
      · cases round <;> simp <;> omega
    rw [vShiftSigned_of_shift hv (if_pos ⟨hneg, hge⟩), hquotient]
    refine congrArg some (saturateSigned_of_fits (by omega) ⟨?_, ?_⟩)
    · cases round <;> simp
      omega
    · cases round <;> simp
      omega
  · have hquotient : (v + if round then 2 ^ (n - 1) else 0) / 2 ^ n = 0 := by
      apply ediv_two_pow
      · cases round <;> simp <;> omega
      · cases round <;> simp <;> omega
    have hshift : wideShiftSigned w round v n = some 0 := by
      rw [wideShiftSigned, if_neg (by omega), if_pos ⟨by omega, hge⟩]
    rw [vShiftSigned_of_shift hv hshift, hquotient]
    exact congrArg some (saturateSigned_of_fits (by omega) ⟨by omega, by omega⟩)

/-- A shift to the right by less than the width. -/
theorem vShiftSigned_right {n : ℕ} (hfits : Fits w v) (hv : v ≠ 0) (hpos : 0 < n) (hn : n < w) :
    vShiftSigned w round v n =
      some (exactShift (-2 ^ (w - 1)) (2 ^ (w - 1) - 1) round v n) := by
  obtain ⟨hlo, hhi⟩ := hfits
  have hpow := two_pow_pred (w := n) hpos
  have hmono : (2 : ℤ) ^ n ≤ 2 ^ (w - 1) := pow_le_pow_right₀ (by decide) (by omega)
  have hwide : (2 : ℤ) ^ w ≤ 2 ^ (2 * w - 1) := pow_le_pow_right₀ (by decide) (by omega)
  have hw := two_pow_pred (w := w) (by omega)
  have hone : (1 : ℤ) ≤ 2 ^ (n - 1) := one_le_pow₀ (by decide)
  have hlt : (n : ℤ) < w := by exact_mod_cast hn
  have hbit : roundingBit (toSigned (2 * w)) round n = if round then 2 ^ (n - 1) else 0 :=
    roundingBit_of_cast (toSigned_of_fits (by omega) ⟨by omega, by omega⟩) hpos round
  -- the sum lies in the wide type, the quotient in the type itself
  have hsum : Fits (2 * w) (v + if round then 2 ^ (n - 1) else 0) := by
    constructor <;> · split <;> omega
  have hbounds : Fits w ((v + if round then 2 ^ (n - 1) else 0) / 2 ^ n) := by
    apply ediv_two_pow_bounds
    · have hle : (-2 ^ (w - 1) : ℤ) * 2 ^ n ≤ -2 ^ (w - 1) * 1 :=
        mul_le_mul_of_nonpos_left (by omega) (by omega)
      split <;> omega
    · have hge : (2 : ℤ) ^ (w - 1) * 2 ^ n = 2 ^ (w - 1) * 2 ^ (n - 1) + 2 ^ (w - 1) * 2 ^
          (n - 1) := by
        rw [hpow]
        ring
      have hfirst : (2 : ℤ) ^ (w - 1) * 1 ≤ 2 ^ (w - 1) * 2 ^ (n - 1) :=
        mul_le_mul_of_nonneg_left hone (by omega)
      have hsecond : 1 * (2 : ℤ) ^ (n - 1) ≤ 2 ^ (w - 1) * 2 ^ (n - 1) :=
        mul_le_mul_of_nonneg_right (by omega) (by omega)
      split <;> omega
  have hshamt : -(w : ℤ) < n := by omega
  rw [exactShift_right _ _ _ _ hpos]
  refine (vShiftSigned_of_shift hv ?_).trans (congrArg some (saturateSigned_of_fits hshamt hbounds))
  rw [wideShiftSigned, if_neg (by omega), if_neg (by omega), if_pos (by exact_mod_cast hpos), hbit,
    addSigned_of_fits hsum, Option.bind_eq_bind, Option.bind_some,
    shr_of_lt (lt_of_lt_of_le (by omega) (Nat.le_max_right ..))]
  exact congrArg some (toSigned_of_fits (by omega) (hbounds.mono (by omega)))

/-- A shift to the left. -/
theorem vShiftSigned_left {n : ℕ} (hw : 0 < w) (hpromoted : 2 * w < 32 → 3 * w ≤ 31)
    (hfits : Fits w v) (hv : v ≠ 0) (hn : (n : ℤ) < 2 ^ 31) :
    vShiftSigned w round v (-n) =
      some (exactShift (-2 ^ (w - 1)) (2 ^ (w - 1) - 1) round v (-n)) := by
  obtain ⟨hlo, hhi⟩ := hfits
  obtain ⟨r, hshl, hr⟩ := shl_toUnsigned (w := 2 * w) (n := Min.min n w)
    (lt_of_lt_of_le (by omega) (Nat.le_max_right ..)) (by omega) v
  have hpow : (2 : ℤ) ^ (2 * w - 1) = 2 ^ (w - 1) * 2 ^ w := by
    rw [← pow_add]
    congr 1
    omega
  have hmin : (2 : ℤ) ^ Min.min n w ≤ 2 ^ w := pow_le_pow_right₀ (by decide) (Nat.min_le_right ..)
  have hone : (1 : ℤ) ≤ 2 ^ Min.min n w := one_le_pow₀ (by decide)
  have hwide : Fits (2 * w) (v * 2 ^ Min.min n w) := by
    rw [Fits, hpow]
    constructor
    · nlinarith
    · nlinarith
  have hshift : vShiftSigned w round v (-n) =
      some (saturateSigned w v (-n) (v * 2 ^ Min.min n w)) := by
    refine vShiftSigned_of_shift hv ?_
    rw [wideShiftSigned, if_neg (by omega), if_neg (by omega), if_neg (by omega), leftAmount_eq hn]
    simp only [Option.bind_eq_bind, Option.bind_some, hshl, Option.pure_def]
    rw [guard, if_pos ⟨by omega, by omega⟩]
    simp only [Option.pure_def, Option.bind_some, hr, toSigned_of_fits (by omega : 0 < 2 * w) hwide]
  rw [hshift]
  congr 1
  rcases Nat.eq_zero_or_pos n with rfl | hpos
  · simp only [Nat.zero_min, pow_zero, mul_one, Int.natCast_zero, neg_zero, exactShift_zero]
    exact saturateSigned_of_fits (by omega) ⟨hlo, hhi⟩
  · have hpow' := two_pow_pred hw
    rw [exactShift_left _ _ _ _ hpos, saturateSigned]
    rcases Nat.lt_or_ge n w with hlt | hge
    · -- the value in the wide type decides
      rw [Nat.min_eq_left hlt.le]
      have hneg : v < 0 → v * 2 ^ n < 0 := fun h => mul_neg_of_neg_of_pos h (by positivity)
      have hnonneg : 0 ≤ v → 0 ≤ v * 2 ^ n := fun h => mul_nonneg h (by positivity)
      generalize v * 2 ^ n = shifted at *
      split_ifs <;> omega
    · -- the amount alone says that the value saturates
      have hfar : (2 : ℤ) ^ w ≤ 2 ^ n := pow_le_pow_right₀ (by decide) hge
      have hneg : v < 0 → v * 2 ^ n ≤ -1 * 2 ^ n := fun h =>
        mul_le_mul_of_nonneg_right (by omega) (by positivity)
      have hposv : 0 < v → 1 * 2 ^ n ≤ v * 2 ^ n := fun h =>
        mul_le_mul_of_nonneg_right (by omega) (by positivity)
      generalize v * 2 ^ n = shifted at *
      split_ifs <;> omega

/-- **The arm for signed types computes the exact shift**, unless it negates the least `int`. -/
theorem vShiftSigned_eq {s : ℤ} (hw : 0 < w) (hpromoted : 2 * w < 32 → 3 * w ≤ 31)
    (hfits : Fits w v) (hs : -2 ^ 31 < s) :
    vShiftSigned w round v s = some (exactShift (-2 ^ (w - 1)) (2 ^ (w - 1) - 1) round v s) := by
  by_cases hv : v = 0
  · have hone : (1 : ℤ) ≤ 2 ^ (w - 1) := one_le_pow₀ (by decide)
    subst hv
    rw [exactShift_of_zero (by omega) (by omega), vShiftSigned, if_pos rfl]
  rcases Int.le_total s 0 with hneg | hnonneg
  · obtain ⟨n, rfl⟩ := Int.exists_eq_neg_ofNat hneg
    exact vShiftSigned_left hw hpromoted hfits hv (by omega)
  · obtain ⟨n, rfl⟩ := Int.eq_ofNat_of_zero_le hnonneg
    rcases Nat.lt_or_ge n w with hlt | hge
    · rcases Nat.eq_zero_or_pos n with rfl | hpos
      · exact vShiftSigned_left (n := 0) hw hpromoted hfits hv (by decide)
      · exact vShiftSigned_right hfits hv hpos hlt
    · exact vShiftSigned_far hw hfits hv hge

/-! ### The arm for unsigned types -/

theorem saturateUnsigned_of_le {shamt shift : ℤ} (hshamt : -(w : ℤ) ≤ shamt) (h : shift < 2 ^ w) :
    saturateUnsigned w shamt shift = shift := by
  rw [saturateUnsigned, if_neg (by omega)]

theorem vShiftUnsigned_of_shift {shamt shift : ℤ} (hv : v ≠ 0)
    (h : wideShiftUnsigned w round v shamt = some shift) :
    vShiftUnsigned w round v shamt = some (saturateUnsigned w shamt shift) := by
  rw [vShiftUnsigned, if_neg hv, h, Option.map_some]

/-- A shift to the right. -/
theorem vShiftUnsigned_right {n : ℕ} (hw : 0 < w) (hlo : 0 < v) (hhi : v < 2 ^ w) (hpos : 0 < n) :
    vShiftUnsigned w round v n = some (exactShift 0 (2 ^ w - 1) round v n) := by
  have hpow := two_pow_pred hpos
  have hone : (1 : ℤ) ≤ 2 ^ (n - 1) := one_le_pow₀ (by decide)
  have hshamt : -(w : ℤ) ≤ n := by omega
  rw [exactShift_right _ _ _ _ hpos]
  rcases Nat.lt_or_ge w n with hlt | hge
  · -- beyond the width nothing is left
    have hmono : (2 : ℤ) ^ w ≤ 2 ^ (n - 1) := pow_le_pow_right₀ (by decide) (by omega)
    have hquotient : (v + if round then 2 ^ (n - 1) else 0) / 2 ^ n = 0 := by
      apply ediv_two_pow <;> · split <;> omega
    rw [vShiftUnsigned_of_shift (by omega) (if_pos (by exact_mod_cast hlt)), hquotient]
    exact congrArg some (saturateUnsigned_of_le hshamt (by positivity))
  · have hmono : (2 : ℤ) ^ n ≤ 2 ^ w := pow_le_pow_right₀ (by decide) hge
    have hwide : (2 : ℤ) * 2 ^ w ≤ 2 ^ (2 * w) := by
      rw [← pow_succ']
      exact pow_le_pow_right₀ (by decide) (by omega)
    have hbit : roundingBit (toUnsigned (2 * w)) round n = if round then 2 ^ (n - 1) else 0 :=
      roundingBit_of_cast (toUnsigned_of_lt (by omega) (by omega)) hpos round
    have hsum : 0 ≤ (v + if round then 2 ^ (n - 1) else 0) ∧
        (v + if round then 2 ^ (n - 1) else 0) < 2 ^ (2 * w) := by
      constructor <;> · split <;> omega
    have hbounds : 0 ≤ (v + if round then 2 ^ (n - 1) else 0) / 2 ^ n ∧
        (v + if round then 2 ^ (n - 1) else 0) / 2 ^ n < 2 ^ w := by
      apply ediv_two_pow_bounds
      · rw [zero_mul]
        exact hsum.1
      · have hfirst : (2 : ℤ) ^ w * 1 ≤ 2 ^ w * 2 ^ (n - 1) :=
          mul_le_mul_of_nonneg_left hone (by positivity)
        have hsecond : 1 * (2 : ℤ) ^ (n - 1) ≤ 2 ^ w * 2 ^ (n - 1) :=
          mul_le_mul_of_nonneg_right (one_le_pow₀ (by decide)) (by positivity)
        have hproduct : (2 : ℤ) ^ w * 2 ^ n = 2 ^ w * 2 ^ (n - 1) + 2 ^ w * 2 ^ (n - 1) := by
          rw [hpow]
          ring
        split <;> omega
    refine (vShiftUnsigned_of_shift (by omega) ?_).trans
      (congrArg some (saturateUnsigned_of_le hshamt hbounds.2))
    rw [wideShiftUnsigned, if_neg (by omega), if_pos (by exact_mod_cast hpos), hbit,
      addUnsigned_of_lt hsum.1 hsum.2, Option.bind_eq_bind, Option.bind_some,
      shr_of_lt (lt_of_lt_of_le (by omega) (Nat.le_max_right ..))]
    exact congrArg some (toUnsigned_of_lt hbounds.1 (by omega))

/-- A shift to the left. -/
theorem vShiftUnsigned_left {n : ℕ} (hw : 0 < w) (hlo : 0 < v) (hhi : v < 2 ^ w)
    (hn : (n : ℤ) < 2 ^ 31) :
    vShiftUnsigned w round v (-n) = some (exactShift 0 (2 ^ w - 1) round v (-n)) := by
  have hmin : (2 : ℤ) ^ Min.min n w ≤ 2 ^ w := pow_le_pow_right₀ (by decide) (Nat.min_le_right ..)
  have hwide : v * 2 ^ Min.min n w < 2 ^ (2 * w) := by
    have hle : v * 2 ^ Min.min n w ≤ v * 2 ^ w := mul_le_mul_of_nonneg_left hmin (by omega)
    have hlt : v * 2 ^ w < 2 ^ w * 2 ^ w := mul_lt_mul_of_pos_right hhi (by positivity)
    rw [two_mul, pow_add]
    omega
  have hnonneg : 0 ≤ v * 2 ^ Min.min n w := mul_nonneg (by omega) (by positivity)
  have hshift : vShiftUnsigned w round v (-n) =
      some (saturateUnsigned w (-n) (v * 2 ^ Min.min n w)) := by
    refine vShiftUnsigned_of_shift (by omega) ?_
    rw [wideShiftUnsigned, if_neg (by omega), if_neg (by omega), leftAmount_eq hn,
      Option.bind_eq_bind, Option.bind_some,
      shl_of_lt (lt_of_lt_of_le (by omega) (Nat.le_max_right ..)) (by omega) hwide]
    exact congrArg some (toUnsigned_of_lt hnonneg hwide)
  rw [hshift]
  congr 1
  rcases Nat.eq_zero_or_pos n with rfl | hpos
  · simp only [Nat.zero_min, pow_zero, mul_one, Int.natCast_zero, neg_zero, exactShift_zero]
    exact saturateUnsigned_of_le (by omega) hhi
  · rw [exactShift_left _ _ _ _ hpos, saturateUnsigned]
    rcases Nat.lt_or_ge n w with hlt | hge
    · rw [Nat.min_eq_left hlt.le] at hnonneg ⊢
      generalize v * 2 ^ n = shifted at *
      split_ifs <;> omega
    · have hfar : (2 : ℤ) ^ w ≤ 2 ^ n := pow_le_pow_right₀ (by decide) hge
      have hvalue : 1 * 2 ^ n ≤ v * 2 ^ n := mul_le_mul_of_nonneg_right (by omega) (by positivity)
      have hvalue' : 1 * 2 ^ w ≤ v * 2 ^ w := mul_le_mul_of_nonneg_right (by omega) (by positivity)
      rw [Nat.min_eq_right hge]
      generalize v * 2 ^ n = shifted at *
      split_ifs <;> omega

/-- **The arm for unsigned types computes the exact shift**, unless it negates the least `int`. -/
theorem vShiftUnsigned_eq {s : ℤ} (hw : 0 < w) (hlo : 0 ≤ v) (hhi : v < 2 ^ w) (hs : -2 ^ 31 < s) :
    vShiftUnsigned w round v s = some (exactShift 0 (2 ^ w - 1) round v s) := by
  by_cases hv : v = 0
  · have hone : (1 : ℤ) ≤ 2 ^ w := one_le_pow₀ (by decide)
    subst hv
    rw [exactShift_of_zero (by omega) (by omega), vShiftUnsigned, if_pos rfl]
  rcases Int.le_total s 0 with hneg | hnonneg
  · obtain ⟨n, rfl⟩ := Int.exists_eq_neg_ofNat hneg
    exact vShiftUnsigned_left hw (by omega) hhi (by omega)
  · obtain ⟨n, rfl⟩ := Int.eq_ofNat_of_zero_le hnonneg
    rcases Nat.eq_zero_or_pos n with rfl | hpos
    · exact vShiftUnsigned_left (n := 0) hw (by omega) hhi (by decide)
    · exact vShiftUnsigned_right hw (by omega) hhi hpos

end Arms

/-! ### When the helper is exact -/

namespace ElementType

variable (t : ElementType)

theorem bits_pos : 0 < t.bits := by cases t <;> decide

/-- A result of the right size is the value of an element. -/
theorem value_ofInt {z : ℤ} (hlo : t.min ≤ z) (hhi : z ≤ t.max) :
    t.value (BitVec.ofInt t.bits z) = z := by
  have hpow := two_pow_pred t.bits_pos
  have hcast : ((2 ^ t.bits : ℕ) : ℤ) = 2 ^ t.bits := by push_cast; rfl
  rw [min] at hlo
  rw [max] at hhi
  rw [value]
  split
  · rename_i hsigned
    rw [if_pos hsigned] at hlo hhi
    rw [BitVec.toInt_ofInt]
    exact toSigned_of_fits t.bits_pos ⟨hlo, by omega⟩
  · rename_i hsigned
    rw [if_neg hsigned] at hlo hhi
    rw [BitVec.toNat_ofInt, hcast, Int.emod_eq_of_lt hlo (by omega), Int.toNat_of_nonneg hlo]

end ElementType

/-- The exact shift stays in the type. -/
theorem exactShift_mem {lo hi v : ℤ} (hlo : lo ≤ 0) (hhi : 0 ≤ hi) (hv : lo ≤ v ∧ v ≤ hi)
    (round : Bool) (s : ℤ) :
    lo ≤ exactShift lo hi round v s ∧ exactShift lo hi round v s ≤ hi := by
  rcases Int.lt_or_le s 0 with hneg | hnonneg
  · rw [exactShift, if_neg (by omega)]
    omega
  obtain ⟨n, rfl⟩ := Int.eq_ofNat_of_zero_le hnonneg
  rcases Nat.eq_zero_or_pos n with rfl | hpos
  · rw [Int.natCast_zero, exactShift_zero]
    exact hv
  · have hpow := two_pow_pred hpos
    have hone : (1 : ℤ) ≤ 2 ^ (n - 1) := one_le_pow₀ (by decide)
    have hfirst : lo * 2 ^ n ≤ lo * 1 := mul_le_mul_of_nonpos_left (by omega) hlo
    have hsecond : hi * 1 ≤ hi * 2 ^ n := mul_le_mul_of_nonneg_left (by omega) hhi
    have hbounds : lo ≤ (v + if round then 2 ^ (n - 1) else 0) / 2 ^ n ∧
        (v + if round then 2 ^ (n - 1) else 0) / 2 ^ n < hi + 1 := by
      apply ediv_two_pow_bounds
      · split <;> omega
      · rw [add_mul, one_mul]
        split <;> omega
    rw [exactShift_right _ _ _ _ hpos]
    omega

namespace ElementType

variable (t : ElementType)

theorem min_le_zero_le_max : t.min ≤ 0 ∧ 0 ≤ t.max := by cases t <;> decide

theorem value_mem (x : BitVec t.bits) : t.min ≤ t.value x ∧ t.value x ≤ t.max := by
  have hlo := BitVec.le_toInt x
  have hhi := BitVec.toInt_lt (x := x)
  have hcast : ((2 ^ t.bits : ℕ) : ℤ) = 2 ^ t.bits := by push_cast; rfl
  have hlt : (x.toNat : ℤ) < ((2 ^ t.bits : ℕ) : ℤ) := by exact_mod_cast x.isLt
  rw [value, min, max]
  split <;> omega

/-- Only zero has the value zero. -/
theorem value_eq_zero {x : BitVec t.bits} : t.value x = 0 ↔ x = 0 := by
  rw [value]
  split
  · rw [← BitVec.toInt_inj]
    exact Iff.of_eq (congrArg _ BitVec.toInt_zero.symm)
  · rw [Int.natCast_eq_zero, ← BitVec.toNat_inj]
    rfl

end ElementType

/-- The helper on values. -/
theorem vShiftHelper_eq {t : ElementType} {round : Bool} {vs1 vs2 : BitVec t.bits}
    (hs : -2 ^ 31 < vs2.toInt) :
    vShiftHelper t round vs1 vs2 = some (BitVec.ofInt t.bits
      (exactShift t.min t.max round (t.value vs1) vs2.toInt)) := by
  have hmem := t.value_mem vs1
  have hpromoted : 2 * t.bits < 32 → 3 * t.bits ≤ 31 := by cases t <;> decide
  rw [ElementType.value, ElementType.min, ElementType.max] at hmem ⊢
  rw [vShiftHelper]
  split
  · rename_i hsigned
    rw [if_pos hsigned, if_pos hsigned, if_pos hsigned] at hmem
    rw [vShiftSigned_eq t.bits_pos hpromoted ⟨hmem.1, by omega⟩ hs, Option.map_some]
  · rename_i hsigned
    rw [if_neg hsigned, if_neg hsigned, if_neg hsigned] at hmem
    rw [vShiftUnsigned_eq t.bits_pos hmem.1 (by omega) hs, Option.map_some]

/-- A shift of something by the least `int` fails. -/
theorem vShiftHelper_least {t : ElementType} (round : Bool) {vs1 vs2 : BitVec t.bits} (hv : vs1 ≠ 0)
    (hs : vs2.toInt = -2 ^ 31) : vShiftHelper t round vs1 vs2 = none := by
  have hpos := t.bits_pos
  have hsigned : vs1.toInt ≠ 0 := by
    intro h
    exact hv (BitVec.toInt_inj.1 (h.trans BitVec.toInt_zero.symm))
  have hunsigned : (vs1.toNat : ℤ) ≠ 0 := by
    intro h
    exact hv (BitVec.eq_of_toNat_eq (Int.natCast_eq_zero.1 h))
  rw [vShiftHelper, hs]
  split
  · rw [vShiftSigned, if_neg hsigned, wideShiftSigned, if_neg (by omega), if_neg (by omega),
      if_neg (by omega), leftAmount_least]
    rfl
  · rw [vShiftUnsigned, if_neg hunsigned, wideShiftUnsigned, if_neg (by omega), if_neg (by omega),
      leftAmount_least]
    rfl

/-- **The helper is exact**: it does not fail, and its result is the exact shift. -/
def IsExact (t : ElementType) (round : Bool) (vs1 vs2 : BitVec t.bits) : Prop :=
  ∃ result, vShiftHelper t round vs1 vs2 = some result ∧
    t.value result = exactShift t.min t.max round (t.value vs1) vs2.toInt

/-- **When the helper is exact**: when there is nothing to shift, or the amount is not the least
`int`. -/
theorem vShiftHelper_exact_iff (t : ElementType) (round : Bool) (vs1 vs2 : BitVec t.bits) :
    IsExact t round vs1 vs2 ↔ vs1 = 0 ∨ vs2.toInt ≠ -2 ^ 31 := by
  obtain ⟨hlo, hhi⟩ := t.min_le_zero_le_max
  constructor
  · rintro ⟨result, hresult, -⟩
    by_contra hnot
    rw [not_or, not_not] at hnot
    rw [vShiftHelper_least round hnot.1 hnot.2] at hresult
    cases hresult
  · intro h
    by_cases hs : vs2.toInt = -2 ^ 31
    · -- the shift of zero comes before all else
      have hzero : vs1 = 0 := h.resolve_right (not_not.2 hs)
      subst hzero
      have hvalue : t.value 0 = 0 := t.value_eq_zero.2 rfl
      refine ⟨BitVec.ofInt t.bits 0, ?_, ?_⟩
      · rw [vShiftHelper]
        split <;> simp [vShiftSigned, vShiftUnsigned]
      · rw [hvalue, exactShift_of_zero hlo hhi, t.value_ofInt hlo hhi]
    · have hle : -2 ^ 31 ≤ vs2.toInt := by
        have hbound := BitVec.le_toInt vs2
        cases t <;> exact le_trans (by decide) hbound
      obtain ⟨hmin, hmax⟩ := exactShift_mem hlo hhi (t.value_mem vs1) round vs2.toInt
      exact ⟨_, vShiftHelper_eq (by omega), t.value_ofInt hmin hmax⟩

/-- The least `int` as the amount of a shift to the left. -/
theorem not_isExact_int32 :
    ¬ ∀ (t : ElementType) (round : Bool) (vs1 vs2 : BitVec t.bits), IsExact t round vs1 vs2 := by
  intro h
  obtain ⟨result, hresult, -⟩ := h .int32 false 1 0x80000000
  rw [vShiftHelper_least (t := .int32) false (by decide) (by decide)] at hresult
  cases hresult

example : vShiftHelper .int8 true (-5) 1 = some (-2) := by decide
example : exactShift (-128) 127 true (-5) 1 = -2 := by decide +kernel

end CoralNpu
