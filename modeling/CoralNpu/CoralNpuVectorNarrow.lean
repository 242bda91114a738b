/-
**The narrowing shifts.**

`VSrans`, `VSransu` and `VSraqs` shift elements to the right, with or without rounding, and saturate
them to a type that is two or four times narrower.  The elements of a source group fill every second
or every fourth element of the destination: the groups are interleaved, and a group has as many
registers as the instruction has operations.

Main definitions:

* `CoralNpu.NarrowTypes` — the pairs of types;
* `CoralNpu.vSransHelper`, `CoralNpu.coralNPUVSrans` — the helper and the instruction;
* `CoralNpu.roundShift` — the shift as mathematics has it.

Main results:

* `CoralNpu.vSransHelper_eq` — the helper computes the saturated exact shift;
* `CoralNpu.vSransSource_eq` — the element from which an element of the destination comes;
* `CoralNpu.vSrans_executes` — **every element of the result**.
-/

import CoralNpu.CoralNpuVectorFixedPoint

set_option relaxedAutoImplicit false
set_option autoImplicit false

namespace CoralNpu

open CInt

/-! ### The helper -/

/-- The types with which the narrowing shifts are instantiated. -/
inductive NarrowTypes where
  | int8FromInt16 | int16FromInt32 | uint8FromUint16 | uint16FromUint32
  | int8FromInt32 | uint8FromUint32
  deriving DecidableEq

namespace NarrowTypes

/-- The narrow type. -/
def td : NarrowTypes → ElementType
  | int8FromInt16 | int8FromInt32 => .int8
  | int16FromInt32 => .int16
  | uint8FromUint16 | uint8FromUint32 => .uint8
  | uint16FromUint32 => .uint16

/-- The type of the source. -/
def ts : NarrowTypes → ElementType
  | int8FromInt16 => .int16
  | int16FromInt32 | int8FromInt32 => .int32
  | uint8FromUint16 => .uint16
  | uint16FromUint32 | uint8FromUint32 => .uint32

end NarrowTypes

/-- `CoralNPUVSransHelper`. -/
def vSransHelper (p : NarrowTypes) (round : Bool) (vs1 : BitVec p.ts.bits)
    (vs2 : BitVec p.td.bits) :
    Option (BitVec p.td.bits) := do
  let vs2 := vs2 &&& BitVec.ofNat p.td.bits (p.ts.bits - 1)
  let amount := p.td.value vs2
  let rounding := if vs2 ≠ 0 ∧ round then p.ts.wide.convert (2 ^ (amount - 1).toNat) else 0
  let sum ← p.ts.wide.arith false (p.ts.value vs1 + rounding)
  let res ← shr p.ts.wide.bits sum amount
  if res < p.td.min then return BitVec.ofInt p.td.bits p.td.min
  else if res > p.td.max then return BitVec.ofInt p.td.bits p.td.max
  else if vs1 = 0 then return 0
  else return BitVec.ofInt p.td.bits res

/-- `CoralNPUVSrans`. -/
def coralNPUVSrans (p : NarrowTypes) (round scalar stripMine : Bool) (inst : VectorOperands) :
    VectorFile → Option VectorFile :=
  coralNPUBinaryVectorOp false false scalar stripMine
    (fun _ vs1 (vs2 : BitVec p.td.bits) => vSransHelper p round vs1 vs2)
    (vSransOpGetArg1 p.td.size p.ts.size) (commonBinaryOpGetArg2 p.td.size p.td.size) inst

/-! ### The exact shift -/

/-- The value shifted to the right, rounded down or to the nearest. -/
def roundShift (round : Bool) (v : ℤ) (s : ℕ) : ℤ := ⌊(v : ℚ) / 2 ^ s + if round then 1 / 2 else 0⌋

theorem roundShift_eq_exactShift (lo hi : ℤ) (round : Bool) (v : ℤ) (s : ℕ) :
    roundShift round v s = exactShift lo hi round v s := by
  rw [exactShift, if_pos (Int.natCast_nonneg s), Int.toNat_natCast, roundShift]

theorem roundShift_zero (round : Bool) (v : ℤ) : roundShift round v 0 = v := by
  rw [roundShift_eq_exactShift 0 0]
  exact exactShift_zero 0 0 round v

theorem roundShift_pos (round : Bool) (v : ℤ) {s : ℕ} (hs : 0 < s) :
    roundShift round v s = (v + if round then 2 ^ (s - 1) else 0) / 2 ^ s := by
  rw [roundShift_eq_exactShift 0 0, exactShift_right 0 0 round v hs]

theorem roundShift_of_zero (round : Bool) (s : ℕ) : roundShift round 0 s = 0 := by
  rw [roundShift_eq_exactShift 0 0, exactShift_of_zero le_rfl le_rfl]

/-! ### The helper is exact -/

/-- The amount of a shift. -/
theorem value_shiftAmount (p : NarrowTypes) (vs2 : BitVec p.td.bits) :
    p.td.value (vs2 &&& BitVec.ofNat p.td.bits (p.ts.bits - 1)) = (vs2.toNat % p.ts.bits : ℕ) := by
  have hmask : (vs2 &&& BitVec.ofNat p.td.bits (p.ts.bits - 1)).toNat = vs2.toNat % p.ts.bits := by
    rw [BitVec.toNat_and, BitVec.toNat_ofNat]
    cases p
    · exact Nat.and_two_pow_sub_one_eq_mod vs2.toNat 4
    · exact Nat.and_two_pow_sub_one_eq_mod vs2.toNat 5
    · exact Nat.and_two_pow_sub_one_eq_mod vs2.toNat 4
    · exact Nat.and_two_pow_sub_one_eq_mod vs2.toNat 5
    · exact Nat.and_two_pow_sub_one_eq_mod vs2.toNat 5
    · exact Nat.and_two_pow_sub_one_eq_mod vs2.toNat 5
  have hsmall : 2 * (vs2.toNat % p.ts.bits) < 2 ^ p.td.bits := by
    have hlt := Nat.mod_lt vs2.toNat p.ts.bits_pos
    have hbits : 2 * p.ts.bits ≤ 2 ^ p.td.bits := by cases p <;> decide
    omega
  rw [ElementType.value]
  split
  · rw [BitVec.toInt_eq_toNat_of_lt (by rw [hmask]; exact hsmall), hmask]
  · rw [hmask]

/-- The wide type has room for the rounding constant. -/
theorem wide_contains_sum (p : NarrowTypes) (vs1 : BitVec p.ts.bits) {rounding : ℤ}
    (hlo : 0 ≤ rounding) (hhi : rounding ≤ 2 ^ (p.ts.bits - 2)) :
    p.ts.wide.promote.Contains (p.ts.value vs1 + rounding) := by
  obtain ⟨hmin, hmax⟩ := p.ts.value_mem vs1
  have hleast : p.ts.wide.promote.least ≤ p.ts.min := by cases p <;> decide
  have hgreatest : p.ts.max + 2 ^ (p.ts.bits - 2) ≤ p.ts.wide.promote.greatest := by
    cases p <;> decide
  exact IntType.contains_iff.2 ⟨by omega, by omega⟩

/-- The rounding constant in the wide type. -/
theorem wide_convert_two_pow (p : NarrowTypes) {n : ℕ} (hn : n ≤ p.ts.bits - 2) :
    p.ts.wide.convert (2 ^ n) = 2 ^ n := by
  have hpow : (2 : ℤ) ^ n ≤ 2 ^ (p.ts.bits - 2) := pow_le_pow_right₀ (by decide) hn
  have hleast : p.ts.wide.least ≤ 0 := by cases p <;> decide
  have hgreatest : 2 ^ (p.ts.bits - 2) ≤ p.ts.wide.greatest := by cases p <;> decide
  have hpos : (0 : ℤ) < 2 ^ n := by positivity
  exact IntType.convert_of_contains (by cases p <;> decide)
    (IntType.contains_iff.2 ⟨by omega, by omega⟩)

/-- The sum of the helper does not overflow, and shifting it gives the exact shift. -/
theorem wideSum_shifted (p : NarrowTypes) (round : Bool) (vs1 : BitVec p.ts.bits) {n : ℕ}
    (hn : n < p.ts.bits) :
    ∃ rounding, (if ¬ n = 0 ∧ round then p.ts.wide.convert (2 ^ ((n : ℤ) - 1).toNat) else 0) =
      rounding ∧
      p.ts.wide.promote.Contains (p.ts.value vs1 + rounding) ∧
      (p.ts.value vs1 + rounding) / 2 ^ n = roundShift round (p.ts.value vs1) n := by
  refine ⟨_, rfl, ?_⟩
  rcases Nat.eq_zero_or_pos n with rfl | hpos
  · rw [if_neg (by simp), roundShift_zero]
    exact ⟨wide_contains_sum p vs1 le_rfl (by positivity), by simp⟩
  · have hsub : ((n : ℤ) - 1).toNat = n - 1 := by omega
    have hpow : (2 : ℤ) ^ (n - 1) ≤ 2 ^ (p.ts.bits - 2) := pow_le_pow_right₀ (by decide) (by omega)
    rw [roundShift_pos _ _ hpos, hsub, wide_convert_two_pow p (by omega)]
    cases round with
    | false => exact ⟨wide_contains_sum p vs1 (by simp) (by simp), by simp⟩
    | true =>
        rw [if_pos ⟨hpos.ne', rfl⟩, if_pos rfl]
        exact ⟨wide_contains_sum p vs1 (by positivity) hpow, rfl⟩

/-- **The helper computes the saturated exact shift.** -/
theorem vSransHelper_eq (p : NarrowTypes) (round : Bool) (vs1 : BitVec p.ts.bits)
    (vs2 : BitVec p.td.bits) :
    vSransHelper p round vs1 vs2 =
      some (saturate p.td (roundShift round (p.ts.value vs1) (vs2.toNat % p.ts.bits))) := by
  have hlt : vs2.toNat % p.ts.bits < p.ts.bits := Nat.mod_lt _ p.ts.bits_pos
  have hamount := value_shiftAmount p vs2
  have hzero : vs2 &&& BitVec.ofNat p.td.bits (p.ts.bits - 1) = 0 ↔ vs2.toNat % p.ts.bits = 0 := by
    rw [← p.td.value_eq_zero, hamount, Int.natCast_eq_zero]
  generalize vs2.toNat % p.ts.bits = n at hlt hamount hzero
  have hpromoted : n < promoted p.ts.wide.bits := by
    have hle : p.ts.bits ≤ promoted p.ts.wide.bits := by cases p <;> decide
    omega
  obtain ⟨rounding, hrounding, hcontains, hdiv⟩ := wideSum_shifted p round vs1 hlt
  rw [vSransHelper]
  simp only [hamount, ne_eq, hzero, hrounding, IntType.arith_of_contains hcontains,
    shr_of_lt hpromoted, hdiv, Option.bind_eq_bind, Option.bind_some, Option.pure_def]
  obtain ⟨hmin, hmax⟩ := p.td.min_le_zero_le_max
  split
  · rw [saturate_of_lt (by omega)]
  · split
    · rw [saturate_of_gt (by omega)]
    · split
      · rename_i hvs1
        rw [hvs1, p.ts.value_eq_zero.2 rfl, roundShift_of_zero, saturate_of_mem hmin hmax]
        rfl
      · rw [saturate_of_mem (by omega) (by omega)]

/-! ### The elements of the result -/

/-- The source group from which element `e` of a destination comes. -/
def narrowGroup (p : NarrowTypes) (e : ℕ) : ℕ :=
  if p.ts.size = 2 * p.td.size then e % 2 else [0, 2, 1, 3].getD (e % 4) 0

/-- The source element of element `e` of operation `k`, when there are `n` operations. -/
def vSransSource (p : NarrowTypes) (vs1 n k e : ℕ) (file : VectorFile) : BitVec p.ts.bits :=
  element p.ts (file (vs1 + (narrowGroup p e * n + k))) (e * p.td.size / p.ts.size)

/-- The element from which an element of the destination comes. -/
theorem vSransSource_eq (p : NarrowTypes) (inst : VectorOperands) (file : VectorFile)
    (scalar : Bool) (n k : ℕ) {e : ℕ} (he : e < p.td.eltsPerRegister) (r : ℕ) :
    inst.getInstructionSource p.ts file (vSransOpGetArg1 p.td.size p.ts.size scalar n k e r) =
      vSransSource p inst.vs1 n k e file := by
  have hlt : e * p.td.size / p.ts.size < p.ts.eltsPerRegister := by
    cases p <;> revert e <;> decide
  have hindex : vSransOpGetArg1 p.td.size p.ts.size scalar n k e r = .element 0 p.ts.size
      ((narrowGroup p e * n + k) * p.ts.eltsPerRegister + e * p.td.size / p.ts.size) := by
    have hfactor : p.ts.size / p.td.size = 2 ↔ p.ts.size = 2 * p.td.size := by cases p <;> decide
    simp only [vSransOpGetArg1, narrowGroup, hfactor, ElementType.eltsPerRegister]
    split
    · rcases Nat.mod_two_eq_zero_or_one e with heven | hodd
      · simp [heven]
      · simp only [hodd, if_true]
        congr 1
        ring
    · congr 1
      ring
  rw [hindex]
  exact groupElement_mul_add p.ts file inst.vs1 _ hlt

/-- **Every element of the result of a narrowing shift.** -/
theorem vSrans_executes (p : NarrowTypes) (round stripMine : Bool) (inst : VectorOperands)
    (file : VectorFile) :
    ∃ file', coralNPUVSrans p round inst.vs2.isScalar stripMine inst file = some file' ∧
      Executes p.td (opsOf stripMine) 1 inst.vd (fun k _ e s =>
        saturate p.td
          (roundShift round (p.ts.value (vSransSource p inst.vs1 (opsOf stripMine) k e s))
          ((inst.vs2.operationElement p.td s k e).toNat % p.ts.bits))) file file' := by
  have hdest : destRegsPerOp false false p.td.size p.td.size = 1 := if_neg (by simp)
  obtain ⟨file', hrun, hexecutes⟩ := element_binaryVectorOp false false inst.vs2.isScalar stripMine
    (fun _ vs1 (vs2 : BitVec p.td.bits) =>
      saturate p.td (roundShift round (p.ts.value vs1) (vs2.toNat % p.ts.bits)))
    (vSransOpGetArg1 p.td.size p.ts.size) (commonBinaryOpGetArg2 p.td.size p.td.size) inst file
  refine ⟨file', ?_, ?_⟩
  · simp only [coralNPUVSrans, vSransHelper_eq]
    exact hrun
  · rw [hdest] at hexecutes
    refine hexecutes.congr fun k _ r hr e he s => ?_
    obtain rfl : r = 0 := Nat.lt_one_iff.1 hr
    rw [vSransSource_eq p inst s _ _ k he, getInstructionSource_arg2 p.td inst s _ k he]

example : vSransHelper .int8FromInt16 true 0x00ff 2 = some 64 := by decide

end CoralNpu
