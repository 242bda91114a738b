/-
**The fixed-point operations on elements.**

Saturating, halving and high-half arithmetic of the vector instructions, with multiply-accumulate
and the absolute difference.  Addition and subtraction work in the unsigned type of the same width
and detect overflow by signs; the other operations compute in a type twice as wide.  That type has
room for every intermediate value, but for a difference: an unsigned halving subtraction wraps
around below zero, and the bits it returns are right nevertheless.

Main definitions:

* `CoralNpu.ElementType.wide`, `CoralNpu.ElementType.makeUnsigned` — derived types;
* `CoralNpu.vAddsHelper` and its companions — the element operations; with `strict` an intermediate
  value outside its type is an error, also when the type is unsigned;
* `CoralNpu.FixedPointOp` — the operations in one type, with `CoralNpu.FixedPointOp.evaluate`,
  `CoralNpu.FixedPointOp.exact` and `CoralNpu.FixedPointOp.IsExact`.

Main results:

* `CoralNpu.wide_contains_mul_add` — the wide type has room for a product and an addend;
* `CoralNpu.vAddsHelper_eq` and its companions — the operations are exact;
* `CoralNpu.fixedPoint_exact` — **all operations are exact, and where an intermediate value wraps
  around**.
-/

import CoralNpu.CoralNpuVectorExecute

set_option relaxedAutoImplicit false
set_option autoImplicit false

namespace CoralNpu

open CInt

/-! ### The element operations -/

namespace ElementType

/-- `WideType<T>`. -/
def wide (t : ElementType) : IntType where
  bits := 2 * t.bits
  signed := t.signed

/-- `std::make_unsigned<T>`. -/
def makeUnsigned : ElementType → ElementType
  | int8 | uint8 => uint8
  | int16 | uint16 => uint16
  | int32 | uint32 => uint32

end ElementType

/-- The element with the nearest value. -/
def saturate (t : ElementType) (z : ℤ) : BitVec t.bits :=
  BitVec.ofInt t.bits (Max.max t.min (Min.min t.max z))

/-- `VAddsHelper`. -/
def vAddsHelper (t : ElementType) (vs1 vs2 : BitVec t.bits) : BitVec t.bits :=
  let sum := vs1 + vs2
  if t.value (vs1 ^^^ vs2) ≥ 0 ∧ t.value (sum ^^^ vs1) < 0 then
    if t.value vs1 > 0 then BitVec.ofInt t.bits t.max else BitVec.ofInt t.bits t.min
  else sum

/-- `VAddsuHelper`. -/
def vAddsuHelper (t : ElementType) (vs1 vs2 : BitVec t.bits) : BitVec t.bits :=
  let sum := vs1 + vs2
  if t.value sum < t.value vs1 then BitVec.ofInt t.bits t.max else sum

/-- `VSubsHelper`. -/
def vSubsHelper (t : ElementType) (vs1 vs2 : BitVec t.bits) : BitVec t.bits :=
  let sub := vs1 - vs2
  if t.value (vs1 ^^^ vs2) < 0 ∧ t.value (sub ^^^ vs2) ≥ 0 then
    if t.value vs2 < 0 then BitVec.ofInt t.bits t.max else BitVec.ofInt t.bits t.min
  else sub

/-- The operation of `CoralNPUVSubsu`. -/
def vSubsu (t : ElementType) (vs1 vs2 : BitVec t.bits) : BitVec t.bits :=
  if t.value vs1 < t.value vs2 then 0 else vs1 - vs2

/-- The operation of `CoralNPUVAbsd`. -/
def vAbsd (t : ElementType) (vs1 vs2 : BitVec t.bits) : BitVec t.makeUnsigned.bits :=
  let uvs1 := vs1.setWidth t.makeUnsigned.bits
  let uvs2 := vs2.setWidth t.makeUnsigned.bits
  if t.value vs1 > t.value vs2 then uvs1 - uvs2 else uvs2 - uvs1

section Wide

variable (strict : Bool) (t : ElementType)

/-- `CoralNPUVHaddHelper`. -/
def vHaddHelper (round : Bool) (vs1 vs2 : BitVec t.bits) : Option (BitVec t.bits) := do
  let sum ← t.wide.arith strict (t.value vs1 + t.value vs2)
  let rounded ← t.wide.arith strict (sum + if round then 1 else 0)
  return BitVec.ofInt t.bits (rounded >>> (1 : ℕ))

/-- `CoralNPUVHsubHelper`. -/
def vHsubHelper (round : Bool) (vs1 vs2 : BitVec t.bits) : Option (BitVec t.bits) := do
  let difference ← t.wide.arith strict (t.value vs1 - t.value vs2)
  let rounded ← t.wide.arith strict (difference + if round then 1 else 0)
  return BitVec.ofInt t.bits (rounded >>> (1 : ℕ))

/-- The product of two elements, in a variable of the wide type. -/
def wideProduct (vs1 vs2 : BitVec t.bits) : Option ℤ := do
  let product ← t.wide.arith strict (t.value vs1 * t.value vs2)
  t.wide.assign strict product

/-- `+=` on a variable of the wide type. -/
def wideAdd (result rnd : ℤ) : Option ℤ := do
  let sum ← t.wide.arith strict (result + rnd)
  t.wide.assign strict sum

/-- The operation of `CoralNPUVMuls`. -/
def vMuls (vs1 vs2 : BitVec t.bits) : Option (BitVec t.bits) := do
  let result ← wideProduct strict t vs1 vs2
  if t.signed then return BitVec.ofInt t.bits (Max.max t.min (Min.min t.max result))
  else return BitVec.ofInt t.bits (Min.min t.max result)

/-- `CoralNPUVMulhHelper`. -/
def vMulhHelper (round : Bool) (vs1 vs2 : BitVec t.bits) : Option (BitVec t.bits) := do
  let n := t.bits
  let product ← wideProduct strict t vs1 vs2
  let result ← wideAdd strict t product (if round then t.wide.convert (2 ^ (n - 1)) else 0)
  return BitVec.ofInt t.bits (result >>> n)

/-- `CoralNPUVDmulhHelper`. -/
def vDmulhHelper (round roundNeg : Bool) (vs1 vs2 : BitVec t.bits) : Option (BitVec t.bits) := do
  let n := t.bits
  let product ← wideProduct strict t vs1 vs2
  let rnd :=
    if product < 0 ∧ roundNeg then t.wide.convert ((-0x40000000 : ℤ) >>> (32 - n))
    else t.wide.convert ((0x40000000 : ℤ) >>> (32 - n))
  let result ← (if round then wideAdd strict t product rnd else some product)
  if t.value vs1 = t.min ∧ t.value vs2 = t.min then return BitVec.ofInt t.bits t.max
  else return BitVec.ofInt t.bits (result >>> (n - 1))

/-- The operation of `CoralNPUVMacc`. -/
def vMacc (vd vs1 vs2 : BitVec t.bits) : Option (BitVec t.bits) := do
  let product ← t.wide.arith strict (t.value vs1 * t.value vs2)
  let sum ← t.wide.arith strict (t.value vd + product)
  return BitVec.ofInt t.bits sum

/-- The operation of `CoralNPUVMadd`. -/
def vMadd (vd vs1 vs2 : BitVec t.bits) : Option (BitVec t.bits) := do
  let product ← t.wide.arith strict (t.value vd * t.value vs2)
  let sum ← t.wide.arith strict (t.value vs1 + product)
  return BitVec.ofInt t.bits sum

end Wide

/-! ### Values of elements -/

namespace ElementType

variable {t : ElementType}

theorem value_of_signed (hsigned : t.signed) (x : BitVec t.bits) : t.value x = x.toInt :=
  if_pos hsigned

theorem value_of_unsigned (hsigned : ¬ t.signed) (x : BitVec t.bits) : t.value x = x.toNat :=
  if_neg hsigned

/-- An element is given by its value. -/
theorem ofInt_value (x : BitVec t.bits) : BitVec.ofInt t.bits (t.value x) = x := by
  rw [value]
  split
  · exact BitVec.ofInt_toInt
  · rw [BitVec.ofInt_natCast, BitVec.ofNat_toNat, BitVec.setWidth_eq]

theorem ofInt_add_value (x y : BitVec t.bits) :
    BitVec.ofInt t.bits (t.value x + t.value y) = x + y := by
  rw [BitVec.ofInt_add, ofInt_value, ofInt_value]

theorem ofInt_sub_value (x y : BitVec t.bits) :
    BitVec.ofInt t.bits (t.value x - t.value y) = x - y := by
  rw [ofInt_sub, ofInt_value, ofInt_value]

/-- The limits of a signed type. -/
theorem min_max_of_signed (hsigned : t.signed) :
    t.min = -2 ^ (t.bits - 1) ∧ t.max = 2 ^ (t.bits - 1) - 1 :=
  ⟨if_pos hsigned, if_pos hsigned⟩

/-- The limits of an unsigned type. -/
theorem min_max_of_unsigned (hsigned : ¬ t.signed) : t.min = 0 ∧ t.max = 2 ^ t.bits - 1 :=
  ⟨if_neg hsigned, if_neg hsigned⟩

end ElementType

/-- A value of the type is the value of the nearest element. -/
theorem saturate_of_mem {t : ElementType} {z : ℤ} (hlo : t.min ≤ z) (hhi : z ≤ t.max) :
    saturate t z = BitVec.ofInt t.bits z := by
  rw [saturate, min_eq_right hhi, max_eq_right hlo]

theorem saturate_of_gt {t : ElementType} {z : ℤ} (h : t.max < z) :
    saturate t z = BitVec.ofInt t.bits t.max := by
  obtain ⟨hlo, hhi⟩ := t.min_le_zero_le_max
  rw [saturate, min_eq_left h.le, max_eq_right (hlo.trans hhi)]

theorem saturate_of_lt {t : ElementType} {z : ℤ} (h : z < t.min) :
    saturate t z = BitVec.ofInt t.bits t.min := by
  rw [saturate, max_eq_left (min_le_of_right_le h.le)]

/-- The value of the nearest element. -/
theorem value_saturate (t : ElementType) (z : ℤ) :
    t.value (saturate t z) = Max.max t.min (Min.min t.max z) := by
  obtain ⟨hlo, hhi⟩ := t.min_le_zero_le_max
  exact t.value_ofInt (le_max_left ..) (max_le (hlo.trans hhi) (min_le_left ..))

/-- An exclusive or is negative when exactly one operand is. -/
theorem toInt_xor_neg_iff {w : ℕ} (x y : BitVec w) :
    (x ^^^ y).toInt < 0 ↔ ¬ (x.toInt < 0 ↔ y.toInt < 0) := by
  have hmsb := BitVec.msb_xor (x := x) (y := y)
  rw [BitVec.msb_eq_toInt, BitVec.msb_eq_toInt, BitVec.msb_eq_toInt] at hmsb
  by_cases hx : x.toInt < 0 <;> by_cases hy : y.toInt < 0 <;> simpa [hx, hy] using hmsb

/-! ### Saturating addition and subtraction -/

section Saturating

variable {t : ElementType}

theorem value_xor_neg_iff (hsigned : t.signed) (x y : BitVec t.bits) :
    t.value (x ^^^ y) < 0 ↔ ¬ (t.value x < 0 ↔ t.value y < 0) := by
  simp only [ElementType.value_of_signed hsigned, toInt_xor_neg_iff]

/-- Signed addition saturates: the sum wraps around exactly when its sign is not that of equal
signs. -/
theorem vAddsHelper_eq (hsigned : t.signed) (vs1 vs2 : BitVec t.bits) :
    vAddsHelper t vs1 vs2 = saturate t (t.value vs1 + t.value vs2) := by
  obtain ⟨hmin, hmax⟩ := ElementType.min_max_of_signed hsigned
  have hpow := two_pow_pred t.bits_pos
  have hx := t.value_mem vs1
  have hy := t.value_mem vs2
  have hsum : t.value (vs1 + vs2) = toSigned t.bits (t.value vs1 + t.value vs2) := by
    simp only [ElementType.value_of_signed hsigned, BitVec.toInt_add, toSigned]
  rw [vAddsHelper]
  simp only [ge_iff_le, ← not_lt, value_xor_neg_iff hsigned]
  rcases lt_or_ge (t.value vs1 + t.value vs2) t.min with hlt | hge
  · have hwrap := hsum.trans (toSigned_of_lt_neg t.bits_pos (by omega) (by omega))
    rw [if_pos (by omega), if_neg (by omega), saturate_of_lt hlt]
  rcases le_or_gt (t.value vs1 + t.value vs2) t.max with hle | hgt
  · have hexact := hsum.trans (toSigned_of_fits t.bits_pos ⟨by omega, by omega⟩)
    rw [if_neg (by omega), saturate_of_mem hge hle, ElementType.ofInt_add_value]
  · have hwrap := hsum.trans (toSigned_of_ge t.bits_pos (by omega) (by omega))
    rw [if_pos (by omega), if_pos (by omega), saturate_of_gt hgt]

/-- Signed subtraction saturates. -/
theorem vSubsHelper_eq (hsigned : t.signed) (vs1 vs2 : BitVec t.bits) :
    vSubsHelper t vs1 vs2 = saturate t (t.value vs1 - t.value vs2) := by
  obtain ⟨hmin, hmax⟩ := ElementType.min_max_of_signed hsigned
  have hpow := two_pow_pred t.bits_pos
  have hx := t.value_mem vs1
  have hy := t.value_mem vs2
  have hsub : t.value (vs1 - vs2) = toSigned t.bits (t.value vs1 - t.value vs2) := by
    simp only [ElementType.value_of_signed hsigned, BitVec.toInt_sub, toSigned]
  rw [vSubsHelper]
  simp only [ge_iff_le, ← not_lt, value_xor_neg_iff hsigned]
  rcases lt_or_ge (t.value vs1 - t.value vs2) t.min with hlt | hge
  · have hwrap := hsub.trans (toSigned_of_lt_neg t.bits_pos (by omega) (by omega))
    rw [if_pos (by omega), if_neg (by omega), saturate_of_lt hlt]
  rcases le_or_gt (t.value vs1 - t.value vs2) t.max with hle | hgt
  · have hexact := hsub.trans (toSigned_of_fits t.bits_pos ⟨by omega, by omega⟩)
    rw [if_neg (by omega), saturate_of_mem hge hle, ElementType.ofInt_sub_value]
  · have hwrap := hsub.trans (toSigned_of_ge t.bits_pos (by omega) (by omega))
    rw [if_pos (by omega), if_pos (by omega), saturate_of_gt hgt]

/-- Unsigned addition saturates: a sum that wraps around is less than an operand. -/
theorem vAddsuHelper_eq (hsigned : ¬ t.signed) (vs1 vs2 : BitVec t.bits) :
    vAddsuHelper t vs1 vs2 = saturate t (t.value vs1 + t.value vs2) := by
  obtain ⟨hmin, hmax⟩ := ElementType.min_max_of_unsigned hsigned
  have hx := t.value_mem vs1
  have hy := t.value_mem vs2
  have hsum : t.value (vs1 + vs2) = (t.value vs1 + t.value vs2) % 2 ^ t.bits := by
    simp only [ElementType.value_of_unsigned hsigned, BitVec.toNat_add]
    push_cast
    rfl
  rw [vAddsuHelper]
  rcases le_or_gt (t.value vs1 + t.value vs2) t.max with hle | hgt
  · have hexact := hsum.trans (Int.emod_eq_of_lt (by omega) (by omega))
    rw [if_neg (by omega), saturate_of_mem (by omega) hle, ElementType.ofInt_add_value]
  · have hwrap : t.value (vs1 + vs2) = t.value vs1 + t.value vs2 - 2 ^ t.bits := by
      rw [hsum, ← Int.sub_emod_right]
      exact Int.emod_eq_of_lt (by omega) (by omega)
    rw [if_pos (by omega), saturate_of_gt hgt]

/-- Unsigned subtraction saturates. -/
theorem vSubsu_eq (hsigned : ¬ t.signed) (vs1 vs2 : BitVec t.bits) :
    vSubsu t vs1 vs2 = saturate t (t.value vs1 - t.value vs2) := by
  obtain ⟨hmin, hmax⟩ := ElementType.min_max_of_unsigned hsigned
  have hx := t.value_mem vs1
  have hy := t.value_mem vs2
  rw [vSubsu]
  split
  · rw [saturate_of_lt (by omega), hmin]
    rfl
  · rw [saturate_of_mem (by omega) (by omega), ElementType.ofInt_sub_value]

/-- The absolute difference. -/
theorem value_vAbsd (t : ElementType) (vs1 vs2 : BitVec t.bits) :
    t.makeUnsigned.value (vAbsd t vs1 vs2) = |t.value vs1 - t.value vs2| := by
  obtain ⟨hxlo, hxhi⟩ := t.value_mem vs1
  obtain ⟨hylo, hyhi⟩ := t.value_mem vs2
  have hcast : ∀ x : BitVec t.bits,
      x.setWidth t.makeUnsigned.bits = BitVec.ofInt t.makeUnsigned.bits (t.value x) := by
    intro x
    have hbits : t.makeUnsigned.bits = t.bits := by cases t <;> rfl
    rw [hbits, BitVec.setWidth_eq, ElementType.ofInt_value]
  have hmin : t.makeUnsigned.min = 0 := by cases t <;> rfl
  have hmax : t.max - t.min = t.makeUnsigned.max := by cases t <;> rfl
  -- both differences are taken modulo the width, and the one taken is not negative
  have hdifference : ∀ x y : BitVec t.bits, 0 ≤ t.value x - t.value y →
      t.value x - t.value y ≤ t.makeUnsigned.max →
      t.makeUnsigned.value (x.setWidth t.makeUnsigned.bits - y.setWidth t.makeUnsigned.bits) =
        t.value x - t.value y := by
    intro x y hlo hhi
    rw [hcast, hcast, ← ofInt_sub]
    exact t.makeUnsigned.value_ofInt (hmin.trans_le hlo) hhi
  rw [vAbsd]
  split
  · rw [hdifference vs1 vs2 (by omega) (by omega), abs_of_pos (by omega)]
  · rw [hdifference vs2 vs1 (by omega) (by omega), abs_of_nonpos (by omega), neg_sub]

end Saturating

/-! ### Room in the wide type -/

section Wide

variable {t : ElementType}

/-- The product of two magnitudes. -/
theorem abs_mul_le {a b m n : ℤ} (ha : |a| ≤ m) (hb : |b| ≤ n) : |a * b| ≤ m * n := by
  rw [abs_mul]
  exact mul_le_mul ha hb (abs_nonneg b) ((abs_nonneg a).trans ha)

/-- Bounds of a product of two elements. -/
def productBounds (t : ElementType) : ℤ × ℤ :=
  if t.signed then (-(2 ^ (t.bits - 1) * 2 ^ (t.bits - 1)), 2 ^ (t.bits - 1) * 2 ^ (t.bits - 1))
  else (0, t.max * t.max)

theorem productBounds_mem (vs1 vs2 : BitVec t.bits) :
    (productBounds t).1 ≤ t.value vs1 * t.value vs2 ∧
      t.value vs1 * t.value vs2 ≤ (productBounds t).2 := by
  obtain ⟨hxlo, hxhi⟩ := t.value_mem vs1
  obtain ⟨hylo, hyhi⟩ := t.value_mem vs2
  by_cases hsigned : t.signed
  · obtain ⟨hmin, hmax⟩ := ElementType.min_max_of_signed hsigned
    rw [productBounds, if_pos hsigned, ← abs_le]
    exact abs_mul_le (abs_le.2 ⟨by omega, by omega⟩) (abs_le.2 ⟨by omega, by omega⟩)
  · obtain ⟨hmin, hmax⟩ := ElementType.min_max_of_unsigned hsigned
    rw [hmin] at hxlo hylo
    rw [productBounds, if_neg hsigned]
    exact ⟨mul_nonneg hxlo hylo, mul_le_mul hxhi hyhi hylo (hxlo.trans hxhi)⟩

/-- **The wide type has room for a product and an addend.** -/
theorem wide_contains_mul_add (vs1 vs2 : BitVec t.bits) {c : ℤ} (hlo : t.min ≤ c)
    (hhi : c ≤ 2 ^ (t.bits - 1)) : t.wide.Contains (t.value vs1 * t.value vs2 + c) := by
  obtain ⟨hproductlo, hproducthi⟩ := productBounds_mem vs1 vs2
  have hleast : t.wide.least ≤ (productBounds t).1 + t.min := by cases t <;> decide
  have hgreatest : (productBounds t).2 + 2 ^ (t.bits - 1) ≤ t.wide.greatest := by
    cases t <;> decide
  exact IntType.contains_iff.2 ⟨by omega, by omega⟩

/-- The product of two elements does not overflow. -/
theorem wideProduct_eq (strict : Bool) (vs1 vs2 : BitVec t.bits) :
    wideProduct strict t vs1 vs2 = some (t.value vs1 * t.value vs2) := by
  have hcontains := wide_contains_mul_add vs1 vs2 t.min_le_zero_le_max.1 (by positivity)
  rw [add_zero] at hcontains
  rw [wideProduct, IntType.arith_of_contains (IntType.contains_promote hcontains)]
  exact IntType.assign_of_contains hcontains strict

/-- Adding something of the size of an element to a product does not overflow. -/
theorem wideAdd_eq (strict : Bool) (vs1 vs2 : BitVec t.bits) {c : ℤ} (hlo : t.min ≤ c)
    (hhi : c ≤ 2 ^ (t.bits - 1)) :
    wideAdd strict t (t.value vs1 * t.value vs2) c = some (t.value vs1 * t.value vs2 + c) := by
  have hcontains := wide_contains_mul_add vs1 vs2 hlo hhi
  rw [wideAdd, IntType.arith_of_contains (IntType.contains_promote hcontains)]
  exact IntType.assign_of_contains hcontains strict

/-- A value that has room in the wide type, halved. -/
theorem halve_eq (strict round : Bool) {z : ℤ} (hlo : t.wide.promote.least ≤ z)
    (hhi : z + 1 ≤ t.wide.promote.greatest) :
    (do
      let value ← t.wide.arith strict z
      let rounded ← t.wide.arith strict (value + if round then 1 else 0)
      return BitVec.ofInt t.bits (rounded >>> (1 : ℕ))) =
      some (BitVec.ofInt t.bits ((z + if round then 1 else 0) / 2)) := by
  have hround : 0 ≤ (if round then 1 else 0 : ℤ) ∧ (if round then 1 else 0 : ℤ) ≤ 1 := by
    cases round <;> decide
  have hvalue :=
    IntType.arith_of_contains (t := t.wide) (IntType.contains_iff.2 ⟨hlo, by omega⟩) strict
  have hrounded := IntType.arith_of_contains (t := t.wide) (z := z + if round then 1 else 0)
    (IntType.contains_iff.2 ⟨by omega, by omega⟩) strict
  simp only [hvalue, hrounded, Option.bind_eq_bind, Option.bind_some, Option.pure_def,
    Int.shiftRight_eq_div_pow]
  rfl

/-- The halving addition. -/
theorem vHaddHelper_eq (strict : Bool) (round : Bool) (vs1 vs2 : BitVec t.bits) :
    vHaddHelper strict t round vs1 vs2 =
      some (BitVec.ofInt t.bits ((t.value vs1 + t.value vs2 + if round then 1 else 0) / 2)) := by
  obtain ⟨hxlo, hxhi⟩ := t.value_mem vs1
  obtain ⟨hylo, hyhi⟩ := t.value_mem vs2
  have hleast : t.wide.promote.least ≤ 2 * t.min := by cases t <;> decide
  have hgreatest : 2 * t.max + 1 ≤ t.wide.promote.greatest := by cases t <;> decide
  exact halve_eq strict round (by omega) (by omega)

/-- Where the halving subtraction leaves its wide type: an unsigned difference below zero, of types
that are not computed in `int`. -/
def HsubWraps (t : ElementType) (vs1 vs2 : BitVec t.bits) : Prop :=
  (t = .uint16 ∨ t = .uint32) ∧ t.value vs1 < t.value vs2

instance instDecidableHsubWraps (t : ElementType) (vs1 vs2 : BitVec t.bits) :
    Decidable (HsubWraps t vs1 vs2) := inferInstanceAs (Decidable (_ ∧ _))

/-- The halving subtraction stays in its wide type otherwise. -/
theorem vHsubHelper_of_not_wraps (strict : Bool) (round : Bool) {vs1 vs2 : BitVec t.bits}
    (h : ¬ HsubWraps t vs1 vs2) :
    vHsubHelper strict t round vs1 vs2 =
      some (BitVec.ofInt t.bits ((t.value vs1 - t.value vs2 + if round then 1 else 0) / 2)) := by
  obtain ⟨hxlo, hxhi⟩ := t.value_mem vs1
  obtain ⟨hylo, hyhi⟩ := t.value_mem vs2
  have hleast : t.wide.promote.least ≤ t.value vs1 - t.value vs2 := by
    by_cases ht : t = .uint16 ∨ t = .uint32
    · have hle : t.value vs2 ≤ t.value vs1 := not_lt.1 fun hlt => h ⟨ht, hlt⟩
      have hzero : t.wide.promote.least = 0 := by rcases ht with rfl | rfl <;> rfl
      omega
    · have hroom : t.wide.promote.least ≤ t.min - t.max := by
        cases t <;> first | exact absurd (by decide) ht | decide
      omega
  have hgreatest : t.max - t.min + 1 ≤ t.wide.promote.greatest := by cases t <;> decide
  exact halve_eq strict round hleast (by omega)

/-- The halving subtraction, also where it wraps around: the bits it returns are right. -/
theorem vHsubHelper_eq (round : Bool) (vs1 vs2 : BitVec t.bits) :
    vHsubHelper false t round vs1 vs2 =
      some (BitVec.ofInt t.bits ((t.value vs1 - t.value vs2 + if round then 1 else 0) / 2)) := by
  by_cases hwraps : HsubWraps t vs1 vs2
  · obtain ⟨ht, -⟩ := hwraps
    have hunsigned : ¬ t.wide.promote.signed := by rcases ht with rfl | rfl <;> decide
    simp only [vHsubHelper, IntType.arith_of_unsigned hunsigned, Option.bind_eq_bind,
      Option.bind_some, Option.pure_def, Int.shiftRight_eq_div_pow]
    generalize t.value vs1 - t.value vs2 = z
    generalize (if round then 1 else 0 : ℤ) = r
    refine congrArg some (BitVec.eq_of_toNat_eq ?_)
    rw [BitVec.toNat_ofInt, BitVec.toNat_ofInt]
    rcases ht with rfl | rfl
    · simp only [toUnsigned, ElementType.wide, ElementType.bits, IntType.promote]
      norm_num
      omega
    · simp only [toUnsigned, ElementType.wide, ElementType.bits, IntType.promote]
      norm_num
      omega
  · exact vHsubHelper_of_not_wraps false round hwraps

/-- Where it wraps around, it leaves its wide type. -/
theorem vHsubHelper_of_wraps (round : Bool) {vs1 vs2 : BitVec t.bits} (h : HsubWraps t vs1 vs2) :
    vHsubHelper true t round vs1 vs2 = none := by
  obtain ⟨ht, hlt⟩ := h
  have hleast : t.wide.promote.least = 0 := by rcases ht with rfl | rfl <;> rfl
  rw [vHsubHelper, IntType.arith_strict, if_neg]
  · rfl
  · intro hcontains
    have hge := (IntType.contains_iff.1 hcontains).1
    omega

/-- The saturating multiplication. -/
theorem vMuls_eq (strict : Bool) (vs1 vs2 : BitVec t.bits) :
    vMuls strict t vs1 vs2 = some (saturate t (t.value vs1 * t.value vs2)) := by
  rw [vMuls, wideProduct_eq, Option.bind_eq_bind, Option.bind_some, saturate]
  split
  · rfl
  · rename_i hsigned
    have hmin : t.min = 0 := (ElementType.min_max_of_unsigned hsigned).1
    have hmax : 0 ≤ t.max := t.min_le_zero_le_max.2
    have hx := (t.value_mem vs1).1
    have hy := (t.value_mem vs2).1
    rw [hmin] at hx hy
    rw [hmin, max_eq_right (le_min hmax (mul_nonneg hx hy))]
    rfl

/-- The high half of a product, rounded, is in the type. -/
theorem mulh_mem (round : Bool) (vs1 vs2 : BitVec t.bits) :
    t.min ≤ (t.value vs1 * t.value vs2 + if round then 2 ^ (t.bits - 1) else 0) / 2 ^ t.bits ∧
      (t.value vs1 * t.value vs2 + if round then 2 ^ (t.bits - 1) else 0) / 2 ^ t.bits <
        t.max + 1 := by
  obtain ⟨hproductlo, hproducthi⟩ := productBounds_mem vs1 vs2
  have hlo : t.min * 2 ^ t.bits ≤ (productBounds t).1 := by cases t <;> decide
  have hhi : (productBounds t).2 + 2 ^ (t.bits - 1) < (t.max + 1) * 2 ^ t.bits := by
    cases t <;> decide
  have hpow : (0 : ℤ) ≤ 2 ^ (t.bits - 1) := by positivity
  exact ediv_two_pow_bounds (by split <;> omega) (by split <;> omega)

/-- The high half of the product. -/
theorem vMulhHelper_eq (strict : Bool) (round : Bool) (vs1 vs2 : BitVec t.bits) :
    vMulhHelper strict t round vs1 vs2 = some (BitVec.ofInt t.bits
      ((t.value vs1 * t.value vs2 + if round then 2 ^ (t.bits - 1) else 0) / 2 ^ t.bits)) := by
  have hconvert : t.wide.convert (2 ^ (t.bits - 1)) = 2 ^ (t.bits - 1) := by cases t <;> decide
  have hmin : t.min ≤ 0 := t.min_le_zero_le_max.1
  have hpow : (0 : ℤ) ≤ 2 ^ (t.bits - 1) := by positivity
  have hadd := wideAdd_eq strict vs1 vs2 (c := if round then 2 ^ (t.bits - 1) else 0)
    (by split <;> omega) (by split <;> omega)
  simp only [vMulhHelper, wideProduct_eq, hconvert, hadd, Option.bind_eq_bind, Option.bind_some,
    Option.pure_def, Int.shiftRight_eq_div_pow]
  push_cast
  rfl

/-- The rounding constant of the doubling multiplication, before doubling. -/
def dmulhRounding (t : ElementType) (round roundNeg : Bool) (product : ℤ) : ℤ :=
  if round then if product < 0 ∧ roundNeg then -2 ^ (t.bits - 2) else 2 ^ (t.bits - 2) else 0

theorem abs_dmulhRounding_le (t : ElementType) (round roundNeg : Bool) (product : ℤ) :
    |dmulhRounding t round roundNeg product| ≤ 2 ^ (t.bits - 2) := by
  have hpow : (0 : ℤ) ≤ 2 ^ (t.bits - 2) := by positivity
  rw [dmulhRounding, abs_le]
  split
  · split <;> omega
  · omega

/-- The high half of a doubled product, rounded, is in the type but for the product of the least
value with itself. -/
theorem dmulh_mem (hsigned : t.signed) {vs1 vs2 : BitVec t.bits}
    (h : ¬ (t.value vs1 = t.min ∧ t.value vs2 = t.min)) (round roundNeg : Bool) (product : ℤ) :
    t.min ≤ (t.value vs1 * t.value vs2 + dmulhRounding t round roundNeg product) / 2 ^
      (t.bits - 1) ∧
      (t.value vs1 * t.value vs2 + dmulhRounding t round roundNeg product) / 2 ^ (t.bits - 1) <
        t.max + 1 := by
  obtain ⟨hxlo, hxhi⟩ := t.value_mem vs1
  obtain ⟨hylo, hyhi⟩ := t.value_mem vs2
  obtain ⟨hmin, hmax⟩ := ElementType.min_max_of_signed hsigned
  have hrounding := abs_le.1 (abs_dmulhRounding_le t round roundNeg product)
  have hproduct : |t.value vs1 * t.value vs2| ≤ 2 ^ (t.bits - 1) * (2 ^ (t.bits - 1) - 1) := by
    by_cases hx : t.value vs1 = t.min
    · have hy : t.value vs2 ≠ t.min := fun hy => h ⟨hx, hy⟩
      exact abs_mul_le (abs_le.2 ⟨by omega, by omega⟩) (abs_le.2 ⟨by omega, by omega⟩)
    · rw [mul_comm (2 ^ (t.bits - 1) : ℤ)]
      exact abs_mul_le (abs_le.2 ⟨by omega, by omega⟩) (abs_le.2 ⟨by omega, by omega⟩)
  rw [abs_le] at hproduct
  have hlo : t.min * 2 ^ (t.bits - 1) ≤
      -(2 ^ (t.bits - 1) * (2 ^ (t.bits - 1) - 1)) - 2 ^ (t.bits - 2) := by
    cases t <;> first | exact absurd hsigned (by decide) | decide
  have hhi : 2 ^ (t.bits - 1) * (2 ^ (t.bits - 1) - 1) + 2 ^ (t.bits - 2) <
      (t.max + 1) * 2 ^ (t.bits - 1) := by
    cases t <;> first | exact absurd hsigned (by decide) | decide
  exact ediv_two_pow_bounds (by omega) (by omega)

/-- The high half of the doubled product. -/
theorem vDmulhHelper_eq (strict : Bool) (hsigned : t.signed) (round roundNeg : Bool)
    (vs1 vs2 : BitVec t.bits) :
    vDmulhHelper strict t round roundNeg vs1 vs2 = some (BitVec.ofInt t.bits
      (if t.value vs1 = t.min ∧ t.value vs2 = t.min then t.max
        else (t.value vs1 * t.value vs2 +
          dmulhRounding t round roundNeg (t.value vs1 * t.value vs2)) / 2 ^ (t.bits - 1))) := by
  have hconvert : t.wide.convert ((0x40000000 : ℤ) >>> (32 - t.bits)) = 2 ^ (t.bits - 2) := by
    cases t <;> decide
  have hconvertneg : t.wide.convert ((-0x40000000 : ℤ) >>> (32 - t.bits)) = -2 ^ (t.bits - 2) := by
    cases t <;> first | exact absurd hsigned (by decide) | decide
  have hmin : t.min ≤ -2 ^ (t.bits - 2) := by
    cases t <;> first | exact absurd hsigned (by decide) | decide
  have hpow : (2 : ℤ) ^ (t.bits - 2) ≤ 2 ^ (t.bits - 1) := by cases t <;> decide
  have hadd : ∀ c : ℤ, |c| ≤ 2 ^ (t.bits - 2) →
      wideAdd strict t (t.value vs1 * t.value vs2) c = some (t.value vs1 * t.value vs2 + c) := by
    intro c hc
    rw [abs_le] at hc
    exact wideAdd_eq strict vs1 vs2 (by omega) (by omega)
  have hresult : (if round then wideAdd strict t (t.value vs1 * t.value vs2)
        (if t.value vs1 * t.value vs2 < 0 ∧ roundNeg then -2 ^ (t.bits - 2) else 2 ^ (t.bits - 2))
      else some (t.value vs1 * t.value vs2)) =
      some (t.value vs1 * t.value vs2 +
        dmulhRounding t round roundNeg (t.value vs1 * t.value vs2)) := by
    have hrounding := abs_dmulhRounding_le t round roundNeg (t.value vs1 * t.value vs2)
    rw [dmulhRounding] at hrounding ⊢
    cases round with
    | false => simp
    | true => exact hadd _ hrounding
  simp only [vDmulhHelper, wideProduct_eq, hconvert, hconvertneg, Option.bind_eq_bind,
    Option.bind_some, Option.pure_def]
  rw [hresult, Option.bind_some, Int.shiftRight_eq_div_pow]
  split
  · rfl
  · push_cast
    rfl

/-- A sum with a product of elements, which both are in `int` or in the wide type. -/
theorem arith_mul_add (strict : Bool) (x y z : BitVec t.bits) (hsigned : t.signed) :
    t.wide.arith strict (t.value z + t.value x * t.value y) =
      some (t.value z + t.value x * t.value y) := by
  obtain ⟨hlo, hhi⟩ := t.value_mem z
  have hmax := (ElementType.min_max_of_signed hsigned).2
  have hcontains := wide_contains_mul_add x y hlo (by omega)
  rw [add_comm] at hcontains
  exact IntType.arith_of_contains (IntType.contains_promote hcontains) strict

theorem arith_mul (strict : Bool) (x y : BitVec t.bits) :
    t.wide.arith strict (t.value x * t.value y) = some (t.value x * t.value y) := by
  have hcontains := wide_contains_mul_add x y t.min_le_zero_le_max.1 (by positivity)
  rw [add_zero] at hcontains
  exact IntType.arith_of_contains (IntType.contains_promote hcontains) strict

/-- Multiply-accumulate. -/
theorem vMacc_eq (strict : Bool) (hsigned : t.signed) (vd vs1 vs2 : BitVec t.bits) :
    vMacc strict t vd vs1 vs2 =
      some (BitVec.ofInt t.bits (t.value vd + t.value vs1 * t.value vs2)) := by
  rw [vMacc, arith_mul, Option.bind_eq_bind, Option.bind_some, arith_mul_add strict _ _ _ hsigned]
  rfl

/-- Multiply-add. -/
theorem vMadd_eq (strict : Bool) (hsigned : t.signed) (vd vs1 vs2 : BitVec t.bits) :
    vMadd strict t vd vs1 vs2 =
      some (BitVec.ofInt t.bits (t.value vs1 + t.value vd * t.value vs2)) := by
  rw [vMadd, arith_mul, Option.bind_eq_bind, Option.bind_some, arith_mul_add strict _ _ _ hsigned]
  rfl

end Wide

/-! ### The operations in one type -/

/-- The fixed-point operations. -/
inductive FixedPointOp where
  | adds | addsu | subs | subsu
  | hadd (round : Bool) | hsub (round : Bool)
  | muls | mulh (round : Bool) | dmulh (round roundNeg : Bool)
  | macc | madd | absd
  deriving DecidableEq

namespace FixedPointOp

/-- The types with which an operation is instantiated. -/
def Supports : FixedPointOp → ElementType → Bool
  | adds, t | subs, t | dmulh _ _, t | macc, t | madd, t => t.signed
  | addsu, t | subsu, t => !t.signed
  | _, _ => true

/-- The type of the result. -/
def resultType : FixedPointOp → ElementType → ElementType
  | absd, t => t.makeUnsigned
  | _, t => t

/-- The operation on elements. -/
def evaluate (strict : Bool) : (op : FixedPointOp) → (t : ElementType) →
    (vd vs1 vs2 : BitVec t.bits) → Option (BitVec (op.resultType t).bits)
  | adds, t, _, vs1, vs2 => some (vAddsHelper t vs1 vs2)
  | addsu, t, _, vs1, vs2 => some (vAddsuHelper t vs1 vs2)
  | subs, t, _, vs1, vs2 => some (vSubsHelper t vs1 vs2)
  | subsu, t, _, vs1, vs2 => some (vSubsu t vs1 vs2)
  | hadd round, t, _, vs1, vs2 => vHaddHelper strict t round vs1 vs2
  | hsub round, t, _, vs1, vs2 => vHsubHelper strict t round vs1 vs2
  | muls, t, _, vs1, vs2 => vMuls strict t vs1 vs2
  | mulh round, t, _, vs1, vs2 => vMulhHelper strict t round vs1 vs2
  | dmulh round roundNeg, t, _, vs1, vs2 => vDmulhHelper strict t round roundNeg vs1 vs2
  | macc, t, vd, vs1, vs2 => vMacc strict t vd vs1 vs2
  | madd, t, vd, vs1, vs2 => vMadd strict t vd vs1 vs2
  | absd, t, _, vs1, vs2 => some (vAbsd t vs1 vs2)

/-- The exact result, for the values of the operands; `d` is the old value of the destination. -/
def exact (t : ElementType) (d a b : ℤ) : FixedPointOp → ℤ
  | adds | addsu => Max.max t.min (Min.min t.max (a + b))
  | subs | subsu => Max.max t.min (Min.min t.max (a - b))
  | hadd round => ⌊((a + b + if round then 1 else 0 : ℤ) : ℚ) / 2⌋
  | hsub round => ⌊((a - b + if round then 1 else 0 : ℤ) : ℚ) / 2⌋
  | muls => Max.max t.min (Min.min t.max (a * b))
  | mulh round => ⌊((a * b + if round then 2 ^ (t.bits - 1) else 0 : ℤ) : ℚ) / 2 ^ t.bits⌋
  | dmulh round roundNeg =>
      if a = t.min ∧ b = t.min then t.max
      else
        let rnd := if round then
          if a * b < 0 ∧ roundNeg then -2 ^ (t.bits - 1) else 2 ^ (t.bits - 1) else 0
        ⌊((2 * a * b + rnd : ℤ) : ℚ) / 2 ^ t.bits⌋
  | macc => d + a * b
  | madd => a + d * b
  | absd => |a - b|

/-- An operation whose result is reduced to the type. -/
def IsReduced : FixedPointOp → Bool
  | hsub _ | macc | madd => true
  | _ => false

/-- **The result is exact**: it has the exact value, or its bits when it is reduced to the type. -/
def IsExact (op : FixedPointOp) (t : ElementType) (vd vs1 vs2 : BitVec t.bits)
    (result : BitVec (op.resultType t).bits) : Prop :=
  let z := op.exact t (t.value vd) (t.value vs1) (t.value vs2)
  if op.IsReduced then result = BitVec.ofInt _ z else (op.resultType t).value result = z

end FixedPointOp

/-- Division rounds down. -/
theorem floor_div_two_pow (x : ℤ) (n : ℕ) : ⌊(x : ℚ) / 2 ^ n⌋ = x / 2 ^ n := by
  have h := Rat.floor_intCast_div_natCast x (2 ^ n)
  push_cast at h
  exact h

theorem floor_div_two (x : ℤ) : ⌊(x : ℚ) / 2⌋ = x / 2 := by
  simpa using floor_div_two_pow x 1

/-- The doubled product and the doubled rounding constant, over a doubled divisor. -/
theorem dmulh_doubled (t : ElementType) (round roundNeg : Bool) (p q : ℤ) :
    (p * q + dmulhRounding t round roundNeg (p * q)) / 2 ^ (t.bits - 1) =
      (2 * p * q + if round then
        if p * q < 0 ∧ roundNeg then -2 ^ (t.bits - 1) else 2 ^ (t.bits - 1) else 0) / 2 ^
          t.bits := by
  have hdouble : (2 : ℤ) ^ (t.bits - 1) = 2 * 2 ^ (t.bits - 2) := by cases t <;> decide
  rw [two_pow_pred t.bits_pos, ← Int.mul_ediv_mul_of_pos _ _ (two_pos : (0 : ℤ) < 2)]
  congr 1
  rw [mul_add, mul_assoc, dmulhRounding, hdouble]
  split
  · split <;> ring
  · ring

/-- Every operation computes its exact result. -/
theorem FixedPointOp.evaluate_exact (op : FixedPointOp) (t : ElementType) (h : op.Supports t)
    (vd vs1 vs2 : BitVec t.bits) :
    ∃ result, op.evaluate false t vd vs1 vs2 = some result ∧ op.IsExact t vd vs1 vs2 result := by
  cases op with
  | adds =>
      refine ⟨_, rfl, ?_⟩
      show t.value (vAddsHelper t vs1 vs2) = _
      rw [vAddsHelper_eq h, value_saturate]
      rfl
  | addsu =>
      refine ⟨_, rfl, ?_⟩
      show t.value (vAddsuHelper t vs1 vs2) = _
      rw [vAddsuHelper_eq (by simpa [Supports] using h), value_saturate]
      rfl
  | subs =>
      refine ⟨_, rfl, ?_⟩
      show t.value (vSubsHelper t vs1 vs2) = _
      rw [vSubsHelper_eq h, value_saturate]
      rfl
  | subsu =>
      refine ⟨_, rfl, ?_⟩
      show t.value (vSubsu t vs1 vs2) = _
      rw [vSubsu_eq (by simpa [Supports] using h), value_saturate]
      rfl
  | hadd round =>
      obtain ⟨hxlo, hxhi⟩ := t.value_mem vs1
      obtain ⟨hylo, hyhi⟩ := t.value_mem vs2
      refine ⟨_, vHaddHelper_eq false round vs1 vs2, ?_⟩
      show t.value _ = _
      rw [t.value_ofInt (by split <;> omega) (by split <;> omega), exact, floor_div_two]
  | hsub round =>
      refine ⟨_, vHsubHelper_eq round vs1 vs2, ?_⟩
      show _ = BitVec.ofInt t.bits (exact t _ _ _ (hsub round))
      rw [exact, floor_div_two]
  | muls => exact ⟨_, vMuls_eq false vs1 vs2, value_saturate t _⟩
  | mulh round =>
      obtain ⟨hlo, hhi⟩ := mulh_mem round vs1 vs2
      refine ⟨_, vMulhHelper_eq false round vs1 vs2, ?_⟩
      show t.value _ = _
      rw [t.value_ofInt hlo (Int.lt_add_one_iff.1 hhi), exact, floor_div_two_pow]
  | dmulh round roundNeg =>
      refine ⟨_, vDmulhHelper_eq false h round roundNeg vs1 vs2, ?_⟩
      show t.value _ = _
      rw [exact]
      split
      · exact t.value_ofInt (t.min_le_zero_le_max.1.trans t.min_le_zero_le_max.2) le_rfl
      · rename_i hnot
        obtain ⟨hlo, hhi⟩ := dmulh_mem h hnot round roundNeg (t.value vs1 * t.value vs2)
        rw [t.value_ofInt hlo (Int.lt_add_one_iff.1 hhi), floor_div_two_pow, dmulh_doubled]
  | macc => exact ⟨_, vMacc_eq false h vd vs1 vs2, rfl⟩
  | madd => exact ⟨_, vMadd_eq false h vd vs1 vs2, rfl⟩
  | absd => exact ⟨_, rfl, value_vAbsd t vs1 vs2⟩

/-- Where an intermediate value of an operation leaves its wide type. -/
def FixedPointOp.Wraps (t : ElementType) (vs1 vs2 : BitVec t.bits) : FixedPointOp → Prop
  | hsub _ => HsubWraps t vs1 vs2
  | _ => False

/-- Elsewhere evaluation is strict. -/
theorem FixedPointOp.evaluate_strict (op : FixedPointOp) (t : ElementType) (h : op.Supports t)
    (vd : BitVec t.bits) {vs1 vs2 : BitVec t.bits} (hwraps : ¬ op.Wraps t vs1 vs2) :
    op.evaluate true t vd vs1 vs2 = op.evaluate false t vd vs1 vs2 := by
  cases op with
  | adds | addsu | subs | subsu | absd => rfl
  | hadd round =>
    exact (vHaddHelper_eq true round vs1 vs2).trans (vHaddHelper_eq false round vs1 vs2).symm
  | hsub round =>
      exact (vHsubHelper_of_not_wraps true round hwraps).trans (vHsubHelper_eq round vs1 vs2).symm
  | muls => exact (vMuls_eq true vs1 vs2).trans (vMuls_eq false vs1 vs2).symm
  | mulh round =>
    exact (vMulhHelper_eq true round vs1 vs2).trans (vMulhHelper_eq false round vs1 vs2).symm
  | dmulh round roundNeg =>
      exact (vDmulhHelper_eq true h round roundNeg vs1 vs2).trans
        (vDmulhHelper_eq false h round roundNeg vs1 vs2).symm
  | macc => exact (vMacc_eq true h vd vs1 vs2).trans (vMacc_eq false h vd vs1 vs2).symm
  | madd => exact (vMadd_eq true h vd vs1 vs2).trans (vMadd_eq false h vd vs1 vs2).symm

/-- **The fixed-point operations are exact**, and no intermediate value leaves its wide type but
where an unsigned difference is below zero. -/
theorem fixedPoint_exact (op : FixedPointOp) (t : ElementType) (h : op.Supports t)
    (vd vs1 vs2 : BitVec t.bits) :
    (∃ result, op.evaluate false t vd vs1 vs2 = some result ∧ op.IsExact t vd vs1 vs2 result) ∧
      (¬ op.Wraps t vs1 vs2 → op.evaluate true t vd vs1 vs2 = op.evaluate false t vd vs1 vs2) ∧
      (op.Wraps t vs1 vs2 → op.evaluate true t vd vs1 vs2 = none) := by
  refine ⟨op.evaluate_exact t h vd vs1 vs2, op.evaluate_strict t h vd, ?_⟩
  intro hwraps
  cases op with
  | hsub round => exact vHsubHelper_of_wraps round hwraps
  | _ => exact absurd hwraps not_false

/-- The doubling multiplication of the least value with itself. -/
theorem fixedPoint_exact_dmulh :
    (FixedPointOp.dmulh true true).IsExact .int8 0 (-128) (-128) 127 := by
  obtain ⟨⟨result, hresult, hexact⟩, -⟩ :=
    fixedPoint_exact (.dmulh true true) .int8 rfl 0 (-128) (-128)
  have hvalue : (FixedPointOp.dmulh true true).evaluate false .int8 0 (-128) (-128) = some 127 := by
    decide
  obtain rfl := Option.some.inj (hvalue.symm.trans hresult)
  exact hexact

/-- A halving subtraction of 16 bits that leaves its wide type. -/
theorem not_strict_vHsub :
    ¬ ∀ (op : FixedPointOp) (t : ElementType), op.Supports t → ∀ vd vs1 vs2 : BitVec t.bits,
      ∃ result, op.evaluate true t vd vs1 vs2 = some result ∧ op.IsExact t vd vs1 vs2 result := by
  intro h
  obtain ⟨result, hresult, -⟩ := h (.hsub false) .uint16 rfl 0 0 1
  have hwraps : HsubWraps .uint16 0 1 := ⟨Or.inl rfl, by decide⟩
  have hnone := vHsubHelper_of_wraps false hwraps
  cases hnone.symm.trans hresult

end CoralNpu
