/-
**Conversions to bfloat16.**

A bfloat16 is the upper half of a single.  Three implementations of `fcvt.bf16.s` cut a single and
increment the upper half as the rounding mode says: `Fcvtbf16s`, `CoralNPUFcvtBf16S` of the M3
instructions, and `CoralNPUM3ZfbfminFcvtBf16S`, its override.  The first two round with a function
that other instructions use too.

Main definitions:

* `CoralNpu.bfloat16`, `CoralNpu.binary32` — the formats;
* `CoralNpu.roundBFloat16`, `CoralNpu.fcvtbf16s` — the first implementation;
* `CoralNpu.M3.roundBFloat16`, `CoralNpu.M3.convertF32ToBF16`, `CoralNpu.M3.fcvtBf16S` — that of the
  M3 instructions;
* `CoralNpu.Zfbfmin.fcvtBf16S` — the override;
* `CoralNpu.CorrectlyRounded` — what they should return.

Main results:

* `CoralNpu.increments_iff` — when the upper half is incremented;
* `CoralNpu.correctlyRounded_cut` — **cutting and incrementing is rounding**;
* `CoralNpu.conversions_round` — **every implementation rounds**.
-/

import CoralNpu.FloatRounding
import Mathlib.Data.BitVec
import Mathlib.Tactic.IntervalCases

set_option relaxedAutoImplicit false
set_option autoImplicit false

namespace CoralNpu

open FloatRounding

/-! ### The formats -/

/-- bfloat16. -/
def bfloat16 : Format := ⟨7, -133, 0x7f80⟩

/-- The singles. -/
def binary32 : Format := ⟨23, -149, 0x7f800000⟩

theorem widen_bfloat16 : bfloat16.widen 16 = binary32 := rfl

/-- The value of a single that is no NaN; infinity counts as the number above the largest finite
one. -/
def floatValue (bits : BitVec 32) : ℚ :=
  signed (bits.getLsbD 31) (binary32.value (bits.toNat % 2 ^ 31))

/-- The value of a bfloat16. -/
def bfloatValue (bits : BitVec 16) : ℚ :=
  signed (bits.getLsbD 15) (bfloat16.value (bits.toNat % 2 ^ 15))

/-- `FPTypeInfo<float>::IsNaN`. -/
def FloatIsNaN (bits : BitVec 32) : Prop :=
  bits &&& 0x7f800000 = 0x7f800000 ∧ bits &&& 0x7fffff ≠ 0

/-- `FPTypeInfo<float>::IsSNaN`. -/
def FloatIsSNaN (bits : BitVec 32) : Prop := FloatIsNaN bits ∧ bits &&& 0x400000 = 0

instance : DecidablePred FloatIsNaN := fun _ => inferInstanceAs (Decidable (_ ∧ _))

instance : DecidablePred FloatIsSNaN := fun _ => inferInstanceAs (Decidable (_ ∧ _))

/-- `BF16Info::IsNaN`. -/
def BF16IsNaN (val : BitVec 16) : Prop := val &&& 0x7f80 = 0x7f80 ∧ val &&& 0x7f ≠ 0

instance : DecidablePred BF16IsNaN := fun _ => inferInstanceAs (Decidable (_ ∧ _))

/-! ### Modes, flags and registers -/

/-- `FPRoundingMode`. -/
def kRoundToNearest : BitVec 32 := 0

@[inherit_doc kRoundToNearest] def kRoundTowardsZero : BitVec 32 := 1

@[inherit_doc kRoundToNearest] def kRoundDown : BitVec 32 := 2

@[inherit_doc kRoundToNearest] def kRoundUp : BitVec 32 := 3

@[inherit_doc kRoundToNearest] def kRoundToNearestTiesToMax : BitVec 32 := 4

@[inherit_doc kRoundToNearest] def kDynamic : BitVec 32 := 7

/-- `FPExceptions`. -/
def kInexact : BitVec 32 := 1

@[inherit_doc kInexact] def kUnderflow : BitVec 32 := 2

@[inherit_doc kInexact] def kOverflow : BitVec 32 := 4

@[inherit_doc kInexact] def kInvalidOp : BitVec 32 := 16

/-- The mode with a number. -/
def roundingMode (rm : BitVec 32) : Option Mode :=
  if rm = kRoundToNearest then some .nearestEven
  else if rm = kRoundTowardsZero then some .towardZero
  else if rm = kRoundDown then some .down
  else if rm = kRoundUp then some .up
  else if rm = kRoundToNearestTiesToMax then some .nearestAway
  else none

/-- `RiscVFPState`: the rounding mode of `frm`, and whether it is valid. -/
structure RiscVFPState where
  getRoundingMode : BitVec 32
  roundingModeValid : Bool

/-- The rounding mode that is in force. -/
def effectiveMode (instRm : BitVec 32) (fpState : RiscVFPState) : Option Mode :=
  if instRm = kDynamic then
    if fpState.roundingModeValid then roundingMode fpState.getRoundingMode else none
  else roundingMode instRm

/-- What the conversions read of the state: the field `fs` of `mstatus` and the floating-point
state, which may be missing. -/
structure FloatState where
  fs : BitVec 2
  rvFp : Option RiscVFPState

/-- What a conversion does: nothing is defined for a missing floating-point state, nothing happens,
an illegal instruction is trapped, or a register is written and flags are raised. -/
inductive FcvtOutcome where
  | undefined
  | ignored
  | trap
  | done (fd : BitVec 64) (fflags : BitVec 32)

/-- A single in a register. -/
def boxed (bits : BitVec 32) : BitVec 64 := 0xffffffff00000000 ||| bits.setWidth 64

/-- `(bits >> i) & 1`, as a `bool`. -/
def bitAt {w : ℕ} (bits : BitVec w) (i : ℕ) : Bool := (bits >>> i) &&& 1 != 0

/-- `GetNaNBoxedSource`, for a single in a register of 64 bits. -/
def getNaNBoxedSource (rs1 : BitVec 64) : BitVec 32 :=
  if (rs1.sshiftRight 32) ≠ -1 then 0x7fc00000 else rs1.setWidth 32

/-! ### The first implementation -/

/-- `RoundBFloat16`. -/
def roundBFloat16 (bits instRm : BitVec 32) (fpState : Option RiscVFPState) (fflags : BitVec 32) :
    BitVec 16 × BitVec 32 :=
  let sign := bitAt bits 31
  let l := bitAt bits 16
  let g := bitAt bits 15
  let s := bits &&& 0x7fff != 0
  let rm :=
    if instRm = 7 then (fpState.map RiscVFPState.getRoundingMode).getD kRoundToNearest else instRm
  let increment :=
    if g || s then
      if rm = kRoundToNearest then g && (l || s)
      else if rm = kRoundTowardsZero then false
      else if rm = kRoundUp then !sign && (g || s)
      else if rm = kRoundDown then sign && (g || s)
      else if rm = kRoundToNearestTiesToMax then g
      else false
    else false
  let fflags := if g || s then fflags ||| kInexact else fflags
  let exp := (bits >>> 23) &&& 0xff
  let resBits := if increment then (bits >>> 16) + 1 else bits >>> 16
  let fflags :=
    if increment && (resBits &&& 0x7f80 == 0x7f80 && exp != 0xff) then
      fflags ||| (kOverflow ||| kInexact)
    else fflags
  (resBits.setWidth 16, fflags)

/-- `Fcvtbf16s`. -/
def fcvtbf16s (vs2 : BitVec 64) (instRm : BitVec 32) (state : FloatState) : FcvtOutcome :=
  match state.rvFp with
  | none => .trap
  | some fpState =>
      if instRm = 5 ∨ instRm = 6 then .trap
      else if instRm = 7 ∧ ¬ fpState.roundingModeValid then .trap
      else
        let (bits, fflags) :=
          if vs2 >>> 32 ≠ 0xffffffff then ((0x7fc00000, 0) : BitVec 32 × BitVec 32)
          else
            let bits : BitVec 32 := (vs2 &&& 0xffffffff).setWidth 32
            let exp := (bits >>> 23) &&& 0xff
            let frac := bits &&& 0x7fffff
            if exp = 0xff ∧ frac ≠ 0 then
              (0x7fc00000, if frac &&& 0x400000 = 0 then kInvalidOp else 0)
            else (bits, 0)
        let (result, fflags) := roundBFloat16 bits instRm (some fpState) fflags
        .done (0xffffffffffff0000 ||| result.setWidth 64) fflags

/-- `ConvertF32ToBF16` of the vector instructions. -/
def convertF32ToBF16 (bits : BitVec 32) (fpState : Option RiscVFPState) (fflags : BitVec 32) :
    BitVec 16 × BitVec 32 :=
  let exp := (bits >>> 23) &&& 0xff
  let frac := bits &&& 0x7fffff
  if exp = 0xff ∧ frac ≠ 0 then
    let fflags := if frac &&& 0x400000 = 0 then fflags ||| kInvalidOp else fflags
    roundBFloat16 0x7fc00000 7 fpState fflags
  else roundBFloat16 bits 7 fpState fflags

/-! ### The M3 instructions -/

namespace M3

/-- `RoundBFloat16`. -/
def roundBFloat16 (bits instRm : BitVec 32) (fpState : Option RiscVFPState) (fflags : BitVec 32) :
    BitVec 16 × BitVec 32 :=
  let sign := bitAt bits 31
  let lsb := bitAt bits 16
  let guardBit := bitAt bits 15
  let stickyBit := bits &&& 0x7fff != 0
  let rm :=
    if instRm = kDynamic then (fpState.map RiscVFPState.getRoundingMode).getD kRoundToNearest
      else instRm
  let increment :=
    if guardBit || stickyBit then
      if rm = kRoundToNearest then guardBit && (lsb || stickyBit)
      else if rm = kRoundUp then !sign && (guardBit || stickyBit)
      else if rm = kRoundDown then sign && (guardBit || stickyBit)
      else if rm = kRoundToNearestTiesToMax then guardBit
      else false
    else false
  let fflags := if guardBit || stickyBit then fflags ||| kInexact else fflags
  let exp := (bits &&& 0x7f800000) >>> 23
  let resBits := if increment then (bits >>> 16) + 1 else bits >>> 16
  let fflags :=
    if increment && (resBits &&& 0x7f80 == 0x7f80 && exp != 0xff) then
      fflags ||| (kOverflow ||| kInexact)
    else fflags
  let fflags :=
    if (guardBit || stickyBit) && resBits &&& 0x7f80 == 0 then fflags ||| kUnderflow else fflags
  (resBits.setWidth 16, fflags)

/-- `ConvertF32ToBF16`. -/
def convertF32ToBF16 (bits rmVal : BitVec 32) (fpState : Option RiscVFPState) (fflags : BitVec 32) :
    BitVec 16 × BitVec 32 :=
  if FloatIsNaN bits then (0x7fc0, if FloatIsSNaN bits then fflags ||| kInvalidOp else fflags)
  else roundBFloat16 bits rmVal fpState fflags

/-- `CoralNPUFcvtBf16S`. -/
def fcvtBf16S (fs1 : BitVec 64) (rmVal : BitVec 32) (state : FloatState) : FcvtOutcome :=
  if state.fs = 0 then .trap
  else if rmVal > kRoundToNearestTiesToMax ∧ rmVal ≠ kDynamic then .trap
  else
    let convert (rm : BitVec 32) : FcvtOutcome :=
      let (bf16, fflags) := convertF32ToBF16 (getNaNBoxedSource fs1) rm state.rvFp 0
      .done (bf16.setWidth 64 ||| 0xffffffffffff0000) fflags
    if rmVal = kDynamic then
      match state.rvFp with
      | none => .undefined
      | some fpState =>
        if ¬ fpState.roundingModeValid then .trap else convert fpState.getRoundingMode
    else convert rmVal

end M3

/-! ### The override -/

namespace Zfbfmin

/-- The bits and flags of `CoralNPUM3ZfbfminFcvtBf16S`, for a rounding mode. -/
def convert (f rm : BitVec 32) : BitVec 16 × BitVec 32 :=
  if f &&& 0x7f800000 = 0x7f800000 ∧ f &&& 0x007fffff ≠ 0 then
    (0x7fc0, if f &&& 0x00400000 = 0 then kInvalidOp else 0)
  else
    let sign := f >>> 31 != 0
    let rBit := bitAt f 15
    let sBit := f &&& 0x7fff != 0
    let lBit := bitAt f 16
    let fflags := if rBit || sBit then kInexact else 0
    let increment :=
      if rm = 0 then rBit && (lBit || sBit)
      else if rm = 1 then false
      else if rm = 2 then sign && (rBit || sBit)
      else if rm = 3 then !sign && (rBit || sBit)
      else if rm = 4 then rBit
      else false
    let upper := if increment then (f >>> 16) + 1 else f >>> 16
    let expBefore := (f >>> 23) &&& 0xff
    let expAfter := (upper >>> 7) &&& 0xff
    let fflags :=
      if expBefore < 0xff ∧ expAfter = 0xff then fflags ||| (kOverflow ||| kInexact)
      else if expAfter = 0 ∧ fflags &&& kInexact ≠ 0 then fflags ||| kUnderflow
      else fflags
    (upper.setWidth 16, fflags)

/-- `CoralNPUM3ZfbfminFcvtBf16S`. -/
def fcvtBf16S (frs1 : BitVec 64) (rm : BitVec 32) (state : FloatState) : FcvtOutcome :=
  match state.rvFp with
  | none => .trap
  | some rvFp =>
      if state.fs = 0 then .trap
      else if rm = 7 ∧ ¬ rvFp.roundingModeValid then .trap
      else
        let rm := if rm = 7 then rvFp.getRoundingMode else rm
        if rm = 5 ∨ rm = 6 ∨ rm > 7 then .trap
        else
          let (bf16, fflags) := convert (getNaNBoxedSource frs1) rm
          .done (0xffffffffffff0000 ||| bf16.setWidth 64) fflags

end Zfbfmin

/-! ### Cutting and incrementing -/

/-- The upper half is incremented. -/
def increments (mode : Mode) (bits : BitVec 32) : Bool :=
  let sticky := bits &&& 0x7fff != 0
  match mode with
  | .nearestEven => bitAt bits 15 && (bitAt bits 16 || sticky)
  | .towardZero => false
  | .down => bitAt bits 31 && (bitAt bits 15 || sticky)
  | .up => !bitAt bits 31 && (bitAt bits 15 || sticky)
  | .nearestAway => bitAt bits 15

/-- The upper half, incremented if need be, as the conversions compute it. -/
def upperHalf (mode : Mode) (bits : BitVec 32) : BitVec 32 :=
  if increments mode bits then (bits >>> 16) + 1 else bits >>> 16

/-- **What a conversion should return**: the canonical NaN for a NaN, and a number with the sign of
the single that its value is rounded to. -/
def CorrectlyRounded (mode : Mode) (bits : BitVec 32) (result : BitVec 16) : Prop :=
  if FloatIsNaN bits then result = 0x7fc0
  else ¬ BF16IsNaN result ∧ result.getLsbD 15 = bits.getLsbD 31 ∧
    Rounds bfloat16.numbers bfloat16.evens mode (floatValue bits) (bfloatValue result)

/-- The index of the bfloat16 below a single. -/
def cut (bits : BitVec 32) : ℕ := bits.toNat % 2 ^ 31 / 2 ^ 16

/-- What is cut off. -/
def rest (bits : BitVec 32) : ℕ := bits.toNat % 2 ^ 16

/-- The index of the number that the upper half stands for. -/
def rounded (mode : Mode) (bits : BitVec 32) : ℕ := cut bits + if increments mode bits then 1 else 0

/-- The flags of a number that is cut; only some implementations know of underflow. -/
def cutFlags (underflow : Bool) (mode : Mode) (bits : BitVec 32) : BitVec 32 :=
  (if rest bits = 0 then 0 else kInexact) |||
    ((if rest bits ≠ 0 ∧ rounded mode bits = 0x7f80 then kOverflow else 0) |||
      if underflow ∧ rest bits ≠ 0 ∧ rounded mode bits < 0x80 then kUnderflow else 0)

/-- The result of every conversion. -/
def narrowed (mode : Mode) (bits : BitVec 32) : BitVec 16 :=
  if FloatIsNaN bits then 0x7fc0 else (upperHalf mode bits).setWidth 16

/-- The flags of every conversion, but for underflow, which some do not know. -/
def narrowFlags (underflow : Bool) (mode : Mode) (bits : BitVec 32) : BitVec 32 :=
  if FloatIsNaN bits then if FloatIsSNaN bits then kInvalidOp else 0
    else cutFlags underflow mode bits

section Cut

variable {mode : Mode} {bits : BitVec 32}

/-- A field of a word. -/
theorem toNat_and_field {w k i : ℕ} {x mask : BitVec w} (hmask : mask.toNat = (2 ^ k - 1) * 2 ^ i) :
    (x &&& mask).toNat = x.toNat / 2 ^ i % 2 ^ k * 2 ^ i := by
  rw [BitVec.toNat_and, hmask, ← Nat.shiftLeft_eq, ← Nat.shiftLeft_eq, ← Nat.shiftRight_eq_div_pow]
  apply Nat.eq_of_testBit_eq
  intro j
  rw [Nat.testBit_and, Nat.testBit_shiftLeft, Nat.testBit_shiftLeft, Nat.testBit_mod_two_pow,
    Nat.testBit_shiftRight, Nat.testBit_two_pow_sub_one]
  by_cases hj : i ≤ j
  · rw [Nat.add_sub_cancel' hj]
    simp [hj, Bool.and_comm]
  · simp [hj]

theorem and_ne_zero_iff {x mask : BitVec 32} {k : ℕ} (hmask : mask.toNat = 2 ^ k - 1) :
    (x &&& mask != 0) = true ↔ x.toNat % 2 ^ k ≠ 0 := by
  rw [bne_iff_ne, ne_eq, ← BitVec.toNat_inj, BitVec.toNat_and, hmask,
    Nat.and_two_pow_sub_one_eq_mod]
  rfl

theorem bitAt_iff {i : ℕ} : bitAt bits i = true ↔ bits.toNat / 2 ^ i % 2 = 1 := by
  rw [bitAt, and_ne_zero_iff (k := 1) rfl, BitVec.toNat_ushiftRight, Nat.shiftRight_eq_div_pow]
  omega

theorem bitAt_eq_getLsbD {i : ℕ} : bitAt bits i = bits.getLsbD i := by
  rw [Bool.eq_iff_iff, bitAt_iff, BitVec.getLsbD, Nat.testBit_eq_decide_div_mod_eq,
    decide_eq_true_iff]

theorem sticky_iff : (bits &&& 0x7fff != 0) = true ↔ rest bits % 2 ^ 15 ≠ 0 := by
  rw [and_ne_zero_iff (k := 15) rfl, rest]
  omega

theorem guard_iff : bitAt bits 15 = true ↔ 2 ^ 15 ≤ rest bits := by
  rw [bitAt_iff, rest]
  omega

theorem lsb_iff : bitAt bits 16 = true ↔ Odd (cut bits) := by
  rw [bitAt_iff, cut, Nat.odd_iff]
  omega

theorem rest_lt (bits : BitVec 32) : rest bits < 2 ^ 16 := Nat.mod_lt _ (Nat.two_pow_pos 16)

theorem cut_add_rest (bits : BitVec 32) : cut bits * 2 ^ 16 + rest bits = bits.toNat % 2 ^ 31 := by
  rw [cut, rest]
  omega

/-- Something is cut off. -/
theorem inexact_iff : (bitAt bits 15 || bits &&& 0x7fff != 0) = true ↔ 0 < rest bits := by
  rw [Bool.or_eq_true, guard_iff, sticky_iff]
  omega

/-- A single is a NaN from the first number behind infinity on. -/
theorem floatIsNaN_iff : FloatIsNaN bits ↔ 0x7f800000 < bits.toNat % 2 ^ 31 := by
  have hexp : bits &&& 0x7f800000 = 0x7f800000 ↔ bits.toNat / 2 ^ 23 % 2 ^ 8 = 255 := by
    rw [← BitVec.toNat_inj, toNat_and_field (k := 8) (i := 23) rfl]
    exact Nat.mul_left_inj (c := 255) (Nat.two_pow_pos 23).ne'
  have hfrac : bits &&& 0x7fffff ≠ 0 ↔ bits.toNat % 2 ^ 23 ≠ 0 := by
    rw [← bne_iff_ne, and_ne_zero_iff (k := 23) rfl]
  rw [FloatIsNaN, hexp, hfrac]
  omega

/-- **When the upper half is incremented.** -/
theorem increments_iff : increments mode bits = true ↔
    (mode.under (bits.getLsbD 31)).AwayParts (Odd (cut bits)) 15 (rest bits) := by
  have hguard : bitAt bits 15 = true ↔ 2 ^ 15 ≤ rest bits := guard_iff
  have hsticky : (bits &&& 0x7fff != 0) = true ↔ rest bits % 2 ^ 15 ≠ 0 := sticky_iff
  have hlsb : bitAt bits 16 = true ↔ Odd (cut bits) := lsb_iff
  have hinexact : (bitAt bits 15 || bits &&& 0x7fff != 0) = true ↔ 0 < rest bits := inexact_iff
  have hsign : bitAt bits 31 = bits.getLsbD 31 := bitAt_eq_getLsbD
  have hlt : rest bits < 2 ^ 16 := rest_lt bits
  cases mode with
  | nearestEven =>
      simp only [increments, Mode.under, Mode.AwayParts, Bool.and_eq_true, Bool.or_eq_true, hguard,
        hlsb, hsticky]
      constructor
      · rintro ⟨hle, hodd | hne⟩
        · exact hle.lt_or_eq.imp id fun heq => ⟨heq.symm, hodd⟩
        · exact Or.inl (by omega)
      · rintro (hlt | ⟨heq, hodd⟩)
        · exact ⟨hlt.le, Or.inr (by omega)⟩
        · exact ⟨heq.ge, Or.inl hodd⟩
  | towardZero => simp [increments, Mode.under, Mode.AwayParts]
  | down =>
      cases hneg : bits.getLsbD 31 <;>
        simp only [increments, Mode.under, Mode.AwayParts, hsign, hneg, hinexact, Bool.and_eq_true,
          true_and, Bool.false_and, Bool.false_eq_true, if_true, if_false]
  | up =>
      cases hneg : bits.getLsbD 31 <;>
        simp only [increments, Mode.under, Mode.AwayParts, hsign, hneg, hinexact, Bool.and_eq_true,
          true_and, Bool.false_and, Bool.not_true, Bool.not_false, Bool.false_eq_true,
          if_true, if_false]
  | nearestAway => exact hguard

/-- Nothing is added to what is precise. -/
theorem not_increments (h : rest bits = 0) : increments mode bits = false := by
  rw [← Bool.not_eq_true, increments_iff, h]
  generalize mode.under (bits.getLsbD 31) = under
  intro haway
  cases under with
  | nearestEven => exact absurd haway (by simp [Mode.AwayParts])
  | towardZero => exact haway
  | down => exact haway
  | up => exact absurd haway (lt_irrefl 0)
  | nearestAway => exact absurd haway (by simp [Mode.AwayParts])

theorem cut_le (hnan : ¬ FloatIsNaN bits) :
    cut bits < 0x7f80 ∨ cut bits = 0x7f80 ∧ rest bits = 0 := by
  rw [floatIsNaN_iff, ← cut_add_rest] at hnan
  omega

theorem rounded_le (mode : Mode) (hnan : ¬ FloatIsNaN bits) : rounded mode bits ≤ 0x7f80 := by
  rcases cut_le hnan with hlt | ⟨heq, hrest⟩
  · rw [rounded]
    split <;> omega
  · rw [rounded, not_increments hrest, heq]
    rfl

/-- The upper half: a sign, and an index. -/
theorem toNat_upperHalf (hnan : ¬ FloatIsNaN bits) :
    (upperHalf mode bits).toNat = (bits.getLsbD 31).toNat * 2 ^ 15 + rounded mode bits := by
  have hle := rounded_le mode hnan
  have hsign : (bits.getLsbD 31).toNat = bits.toNat / 2 ^ 31 := by
    have hlt := bits.isLt
    rw [BitVec.getLsbD, Nat.testBit_eq_decide_div_mod_eq]
    rcases Nat.lt_or_ge bits.toNat (2 ^ 31) with hlow | hhigh
    · rw [Nat.div_eq_of_lt hlow]
      rfl
    · rw [Nat.div_eq_of_lt_le (k := 1) (by omega) (by omega)]
      rfl
  have hshift : (bits >>> 16).toNat = bits.toNat / 2 ^ 31 * 2 ^ 15 + cut bits := by
    rw [BitVec.toNat_ushiftRight, Nat.shiftRight_eq_div_pow, cut]
    omega
  have hlt : bits.toNat / 2 ^ 31 < 2 := Nat.div_lt_of_lt_mul bits.isLt
  rw [hsign]
  rw [rounded] at hle ⊢
  rw [upperHalf]
  split
  next h =>
    rw [if_pos h] at hle
    rw [BitVec.toNat_add, hshift, show (1 : BitVec 32).toNat = 1 from rfl]
    omega
  next h => rw [hshift, Nat.add_zero]

theorem upperHalf_setWidth (mode : Mode) (hnan : ¬ FloatIsNaN bits) :
    ((upperHalf mode bits).setWidth 16).toNat =
      (bits.getLsbD 31).toNat * 2 ^ 15 + rounded mode bits := by
  have hle := rounded_le mode hnan
  have hsign := Bool.toNat_lt (bits.getLsbD 31)
  rw [BitVec.toNat_setWidth, toNat_upperHalf hnan]
  omega

/-- The value of a bfloat16 with a sign and an index. -/
theorem bfloatValue_of_toNat {val : BitVec 16} {neg : Bool} {n : ℕ} (hn : n < 2 ^ 15)
    (h : val.toNat = neg.toNat * 2 ^ 15 + n) :
    val.getLsbD 15 = neg ∧ val.toNat % 2 ^ 15 = n := by
  have hbit : val.getLsbD 15 = decide (val.toNat / 2 ^ 15 % 2 = 1) := by
    rw [BitVec.getLsbD, Nat.testBit_eq_decide_div_mod_eq]
  rw [hbit, h]
  cases neg with
  | false =>
      simp only [Bool.toNat_false]
      exact ⟨decide_eq_false (by omega), by omega⟩
  | true =>
      simp only [Bool.toNat_true]
      exact ⟨decide_eq_true (by omega), by omega⟩

theorem bf16IsNaN_iff {val : BitVec 16} : BF16IsNaN val ↔ 0x7f80 < val.toNat % 2 ^ 15 := by
  have hexp : val &&& 0x7f80 = 0x7f80 ↔ val.toNat / 2 ^ 7 % 2 ^ 8 = 255 := by
    rw [← BitVec.toNat_inj, toNat_and_field (k := 8) (i := 7) rfl]
    exact Nat.mul_left_inj (c := 255) (Nat.two_pow_pos 7).ne'
  have hfrac : val &&& 0x7f ≠ 0 ↔ val.toNat % 2 ^ 7 ≠ 0 := by
    rw [ne_eq, ← BitVec.toNat_inj, toNat_and_field (k := 7) (i := 0) rfl]
    simp
  rw [BF16IsNaN, hexp, hfrac]
  omega

/-- **Cutting and incrementing is rounding.** -/
theorem correctlyRounded_cut (hnan : ¬ FloatIsNaN bits) :
    CorrectlyRounded mode bits ((upperHalf mode bits).setWidth 16) := by
  have hle := rounded_le mode hnan
  obtain ⟨hsign, hindex⟩ := bfloatValue_of_toNat (by omega) (upperHalf_setWidth mode hnan)
  rw [CorrectlyRounded, if_neg hnan]
  refine ⟨by rw [bf16IsNaN_iff, hindex]; omega, hsign, ?_⟩
  rw [bfloatValue, hsign, hindex, floatValue, ← cut_add_rest, ← widen_bfloat16]
  rcases cut_le hnan with hlt | ⟨heq, hrest⟩
  · obtain ⟨haway, hnot⟩ := bfloat16.rounds_widen mode (bits.getLsbD 31) hlt (rest_lt bits)
    rw [Mode.away_div_iff, ← increments_iff] at haway hnot
    rw [rounded]
    split
    next h => exact haway h
    next h => exact hnot h
  · rw [rounded, not_increments hrest, hrest, heq, if_neg Bool.false_ne_true, Nat.add_zero,
      Nat.add_zero]
    exact Format.rounds_widen_self (F := bfloat16) le_rfl

end Cut

/-! ### The implementations -/

/-- The number of a mode. -/
def modeNumber : Mode → BitVec 32
  | .nearestEven => kRoundToNearest
  | .towardZero => kRoundTowardsZero
  | .down => kRoundDown
  | .up => kRoundUp
  | .nearestAway => kRoundToNearestTiesToMax

section Implementations

variable {mode : Mode} {bits rm instRm : BitVec 32} {fpState : RiscVFPState}

theorem eq_modeNumber (h : roundingMode rm = some mode) : rm = modeNumber mode := by
  unfold roundingMode at h
  repeat' split at h
  all_goals first
    | (obtain rfl := Option.some.inj h; assumption)
    | exact absurd h (by simp)

theorem effectiveMode_dynamic (h : effectiveMode kDynamic fpState = some mode) :
    fpState.roundingModeValid = true ∧ fpState.getRoundingMode = modeNumber mode := by
  rw [effectiveMode, if_pos rfl] at h
  split at h
  next hvalid => exact ⟨hvalid, eq_modeNumber h⟩
  next => exact absurd h (by simp)

theorem effectiveMode_static (hne : instRm ≠ kDynamic)
    (h : effectiveMode instRm fpState = some mode) :
    instRm = modeNumber mode := by
  rw [effectiveMode, if_neg hne] at h
  exact eq_modeNumber h

/-- Where nothing is cut off, no mode increments. -/
theorem increments_of_precise (h : (bitAt bits 15 || bits &&& 0x7fff != 0) = false) :
    increments mode bits = false := by
  have hrest : rest bits = 0 := by
    by_contra hne
    rw [inexact_iff.2 (Nat.pos_of_ne_zero hne)] at h
    exact Bool.noConfusion h
  exact not_increments hrest

/-- The first implementations ask for a mode only where something is cut off. -/
theorem ite_inexact_eq_increments {increment : Bool} (h : increment = increments mode bits) :
    (if (bitAt bits 15 || bits &&& 0x7fff != 0) then increment else false) =
      increments mode bits := by
  split
  next hinexact => exact h
  next hprecise => rw [increments_of_precise (Bool.not_eq_true _ ▸ hprecise)]

/-- The mode in the first implementation. -/
theorem rm_eq (h : effectiveMode instRm fpState = some mode) :
    (if instRm = kDynamic then
      ((some fpState).map RiscVFPState.getRoundingMode).getD kRoundToNearest
      else instRm) = modeNumber mode := by
  by_cases hdynamic : instRm = kDynamic
  · subst hdynamic
    rw [if_pos rfl]
    exact (effectiveMode_dynamic h).2
  · rw [if_neg hdynamic]
    exact effectiveMode_static hdynamic h

theorem inexact_eq : (bitAt bits 15 || bits &&& 0x7fff != 0) = decide (rest bits ≠ 0) := by
  rw [Bool.eq_iff_iff, inexact_iff, decide_eq_true_iff, Nat.pos_iff_ne_zero]

/-- The exponent field of the upper half. -/
theorem toNat_upperHalf_and (hnan : ¬ FloatIsNaN bits) :
    (upperHalf mode bits &&& 0x7f80).toNat = rounded mode bits / 2 ^ 7 * 2 ^ 7 := by
  have hle := rounded_le mode hnan
  rw [toNat_and_field (k := 8) (i := 7) rfl, toNat_upperHalf hnan]
  omega

theorem upperHalf_and_eq_iff (hnan : ¬ FloatIsNaN bits) :
    upperHalf mode bits &&& 0x7f80 = 0x7f80 ↔ rounded mode bits = 0x7f80 := by
  have hle := rounded_le mode hnan
  rw [← BitVec.toNat_inj, toNat_upperHalf_and hnan,
    show (0x7f80 : BitVec 32).toNat = 0x7f80 from rfl]
  omega

theorem upperHalf_and_eq_zero_iff (hnan : ¬ FloatIsNaN bits) :
    upperHalf mode bits &&& 0x7f80 = 0 ↔ rounded mode bits < 0x80 := by
  rw [← BitVec.toNat_inj, toNat_upperHalf_and hnan, show (0 : BitVec 32).toNat = 0 from rfl]
  omega

/-- The exponent field of the single. -/
theorem toNat_exp (bits : BitVec 32) : ((bits >>> 23) &&& 0xff).toNat = cut bits / 2 ^ 7 := by
  rw [toNat_and_field (k := 8) (i := 0) rfl, BitVec.toNat_ushiftRight,
    Nat.shiftRight_eq_div_pow, cut]
  omega

/-- A single whose upper half is infinity is infinity, or finite and rounded away from zero. -/
theorem rest_ne_zero_iff (hnan : ¬ FloatIsNaN bits) (h : rounded mode bits = 0x7f80) :
    (increments mode bits = true ↔ rest bits ≠ 0) ∧ (cut bits < 0x7f80 ↔ rest bits ≠ 0) := by
  rw [rounded] at h
  rcases cut_le hnan with hlt | ⟨heq, hrest⟩
  · split at h
    next hincr =>
      have hrest : rest bits ≠ 0 := fun hrest => by
        rw [not_increments hrest] at hincr
        exact Bool.noConfusion hincr
      exact ⟨iff_of_true hincr hrest, iff_of_true hlt hrest⟩
    next => omega
  · rw [not_increments hrest, hrest, heq]
    exact ⟨iff_of_false Bool.false_ne_true (fun h => h rfl),
      iff_of_false (lt_irrefl _) (fun h => h rfl)⟩

/-- A finite number is rounded to infinity. -/
theorem overflow_eq (mode : Mode) (hnan : ¬ FloatIsNaN bits) {exp : BitVec 32}
    (hexp : exp.toNat = cut bits / 2 ^ 7) :
    (increments mode bits && (upperHalf mode bits &&& 0x7f80 == 0x7f80 && exp != 0xff)) =
      decide (rest bits ≠ 0 ∧ rounded mode bits = 0x7f80) := by
  rw [Bool.eq_iff_iff, Bool.and_eq_true, Bool.and_eq_true, beq_iff_eq, upperHalf_and_eq_iff hnan,
    bne_iff_ne, ne_eq, ← BitVec.toNat_inj, hexp, decide_eq_true_iff,
    show (0xff : BitVec 32).toNat = 0xff from rfl]
  constructor
  · rintro ⟨hincr, hinfinity, -⟩
    exact ⟨(rest_ne_zero_iff hnan hinfinity).1.1 hincr, hinfinity⟩
  · rintro ⟨hrest, hinfinity⟩
    have hlt := (rest_ne_zero_iff hnan hinfinity).2.2 hrest
    exact ⟨(rest_ne_zero_iff hnan hinfinity).1.2 hrest, hinfinity, by omega⟩

/-- The first implementation. -/
theorem roundBFloat16_eq (hnan : ¬ FloatIsNaN bits) (h : effectiveMode instRm fpState = some mode)
    (fflags : BitVec 32) :
    roundBFloat16 bits instRm (some fpState) fflags =
      ((upperHalf mode bits).setWidth 16, fflags ||| cutFlags false mode bits) := by
  have hrm := rm_eq h
  rw [kDynamic] at hrm
  have hincr : (if (bitAt bits 15 || bits &&& 0x7fff != 0) then
      if modeNumber mode = kRoundToNearest then
        bitAt bits 15 && (bitAt bits 16 || bits &&& 0x7fff != 0)
      else if modeNumber mode = kRoundTowardsZero then false
      else if modeNumber mode = kRoundUp then
        !bitAt bits 31 && (bitAt bits 15 || bits &&& 0x7fff != 0)
      else if modeNumber mode = kRoundDown then
        bitAt bits 31 && (bitAt bits 15 || bits &&& 0x7fff != 0)
      else if modeNumber mode = kRoundToNearestTiesToMax then bitAt bits 15
      else false
    else false) = increments mode bits :=
    ite_inexact_eq_increments (by cases mode <;> rfl)
  simp only [roundBFloat16, hrm, hincr]
  have hover := overflow_eq mode hnan (toNat_exp bits)
  rw [upperHalf] at hover ⊢
  rw [hover, inexact_eq]
  refine Prod.ext rfl ?_
  by_cases hrest : rest bits = 0
  · simp [cutFlags, hrest]
  by_cases hinfinity : rounded mode bits = 0x7f80
  · simp only [cutFlags, hrest, hinfinity, ne_eq, not_false_eq_true, and_self, decide_true, if_true,
      if_false, Bool.false_eq_true, false_and, BitVec.or_assoc]
    rfl
  · simp [cutFlags, hrest, hinfinity]

/-- That of the M3 instructions. -/
theorem M3.roundBFloat16_eq (hnan : ¬ FloatIsNaN bits)
    (h : effectiveMode instRm fpState = some mode) (fflags : BitVec 32) :
    M3.roundBFloat16 bits instRm (some fpState) fflags =
      ((upperHalf mode bits).setWidth 16, fflags ||| cutFlags true mode bits) := by
  have hincr : (if (bitAt bits 15 || bits &&& 0x7fff != 0) then
      if modeNumber mode = kRoundToNearest then
        bitAt bits 15 && (bitAt bits 16 || bits &&& 0x7fff != 0)
      else if modeNumber mode = kRoundUp then
        !bitAt bits 31 && (bitAt bits 15 || bits &&& 0x7fff != 0)
      else if modeNumber mode = kRoundDown then
        bitAt bits 31 && (bitAt bits 15 || bits &&& 0x7fff != 0)
      else if modeNumber mode = kRoundToNearestTiesToMax then bitAt bits 15
      else false
    else false) = increments mode bits :=
    ite_inexact_eq_increments (by cases mode <;> rfl)
  simp only [M3.roundBFloat16, rm_eq h, hincr]
  have hexp : ((bits &&& 0x7f800000) >>> 23).toNat = cut bits / 2 ^ 7 := by
    rw [BitVec.toNat_ushiftRight, toNat_and_field (k := 8) (i := 23) rfl,
      Nat.shiftRight_eq_div_pow, cut]
    omega
  have hover := overflow_eq mode hnan hexp
  have hsubnormal : (upperHalf mode bits &&& 0x7f80 == 0) = decide (rounded mode bits < 0x80) := by
    rw [Bool.eq_iff_iff, beq_iff_eq, upperHalf_and_eq_zero_iff hnan, decide_eq_true_iff]
  rw [upperHalf] at hover hsubnormal ⊢
  rw [hover, hsubnormal, inexact_eq]
  refine Prod.ext rfl ?_
  by_cases hrest : rest bits = 0
  · simp [cutFlags, hrest]
  by_cases hinfinity : rounded mode bits = 0x7f80
  · simp [cutFlags, hrest, hinfinity, BitVec.or_assoc]
    rfl
  by_cases hsmall : rounded mode bits < 0x80
  · simp [cutFlags, hrest, hinfinity, hsmall, BitVec.or_assoc]
  · simp [cutFlags, hrest, hinfinity, hsmall]

/-- The override. -/
theorem Zfbfmin.convert_eq (hnan : ¬ FloatIsNaN bits) :
    Zfbfmin.convert bits (modeNumber mode) =
      ((upperHalf mode bits).setWidth 16, cutFlags true mode bits) := by
  have hincr : (if modeNumber mode = 0 then bitAt bits 15 && (bitAt bits 16 || bits &&& 0x7fff != 0)
      else if modeNumber mode = 1 then false
      else if modeNumber mode = 2 then bits >>> 31 != 0 && (bitAt bits 15 || bits &&& 0x7fff != 0)
      else if modeNumber mode = 3 then
        !(bits >>> 31 != 0) && (bitAt bits 15 || bits &&& 0x7fff != 0)
      else if modeNumber mode = 4 then bitAt bits 15
      else false) = increments mode bits := by
    have hsign : (bits >>> 31 != 0) = bitAt bits 31 := by
      rw [Bool.eq_iff_iff, bitAt_iff, bne_iff_ne, ne_eq, ← BitVec.toNat_inj,
        BitVec.toNat_ushiftRight, Nat.shiftRight_eq_div_pow,
        show (0 : BitVec 32).toNat = 0 from rfl]
      omega
    rw [hsign]
    cases mode <;> rfl
  have hnan' : ¬ (bits &&& 0x7f800000 = 0x7f800000 ∧ bits &&& 0x007fffff ≠ 0) := hnan
  simp only [Zfbfmin.convert, if_neg hnan', hincr]
  have hafter : ((upperHalf mode bits >>> 7) &&& 0xff).toNat = rounded mode bits / 2 ^ 7 := by
    have hle := rounded_le mode hnan
    rw [toNat_and_field (k := 8) (i := 0) rfl, BitVec.toNat_ushiftRight, Nat.shiftRight_eq_div_pow,
      toNat_upperHalf hnan]
    omega
  have hover : (bits >>> 23) &&& 0xff < 0xff ∧ (upperHalf mode bits >>> 7) &&& 0xff = 0xff ↔
      rest bits ≠ 0 ∧ rounded mode bits = 0x7f80 := by
    rw [BitVec.lt_def, toNat_exp, ← BitVec.toNat_inj, hafter,
      show (0xff : BitVec 32).toNat = 0xff from rfl]
    have hle := rounded_le mode hnan
    constructor
    · rintro ⟨hlt, heq⟩
      have hinfinity : rounded mode bits = 0x7f80 := by omega
      exact ⟨(rest_ne_zero_iff hnan hinfinity).2.1 (by omega), hinfinity⟩
    · rintro ⟨hrest, hinfinity⟩
      have hlt := (rest_ne_zero_iff hnan hinfinity).2.2 hrest
      exact ⟨by omega, by omega⟩
  have hsubnormal : (upperHalf mode bits >>> 7) &&& 0xff = 0 ↔ rounded mode bits < 0x80 := by
    rw [← BitVec.toNat_inj, hafter, show (0 : BitVec 32).toNat = 0 from rfl]
    omega
  rw [upperHalf] at hover hsubnormal ⊢
  simp only [hover, hsubnormal, inexact_eq]
  have hne : kInexact ≠ 0#32 := by decide
  refine Prod.ext rfl ?_
  by_cases hrest : rest bits = 0
  · simp [cutFlags, hrest]
  by_cases hinfinity : rounded mode bits = 0x7f80
  · simp [cutFlags, hrest, hinfinity]
    rfl
  by_cases hsmall : rounded mode bits < 0x80
  · simp [cutFlags, hrest, hinfinity, hsmall, hne]
  · simp [cutFlags, hrest, hinfinity, hsmall]

theorem correctlyRounded_narrowed : CorrectlyRounded mode bits (narrowed mode bits) := by
  rw [narrowed]
  split
  next hnan => rw [CorrectlyRounded, if_pos hnan]
  next hnan => exact correctlyRounded_cut hnan

/-- The exponent and the fraction, taken apart as the first implementation takes them, tell of a
NaN. -/
theorem floatIsNaN_iff_fields :
    (bits >>> 23) &&& 0xff = 0xff ∧ bits &&& 0x7fffff ≠ 0 ↔ FloatIsNaN bits := by
  refine and_congr_left fun _ => ?_
  rw [← BitVec.toNat_inj, ← BitVec.toNat_inj, toNat_and_field (k := 8) (i := 0) rfl,
    toNat_and_field (k := 8) (i := 23) rfl, BitVec.toNat_ushiftRight, Nat.shiftRight_eq_div_pow,
    show (0xff : BitVec 32).toNat = 0xff from rfl,
        show (0x7f800000 : BitVec 32).toNat = 0x7f800000 from rfl]
  omega

theorem quiet_iff_fields : bits &&& 0x7fffff &&& 0x400000 = 0 ↔ bits &&& 0x400000 = 0 := by
  rw [BitVec.and_assoc]
  rfl

/-- The canonical NaN is cut to that of bfloat16. -/
theorem roundBFloat16_nan (fpState : Option RiscVFPState) (fflags : BitVec 32) :
    roundBFloat16 0x7fc00000 instRm fpState fflags = (0x7fc0, fflags) := Prod.ext rfl rfl

theorem convertF32ToBF16_eq (h : effectiveMode kDynamic fpState = some mode) (fflags : BitVec 32) :
    convertF32ToBF16 bits (some fpState) fflags =
      (narrowed mode bits, fflags ||| narrowFlags false mode bits) := by
  simp only [convertF32ToBF16, floatIsNaN_iff_fields, quiet_iff_fields, narrowed, narrowFlags,
    FloatIsSNaN]
  split
  next hnan =>
    rw [roundBFloat16_nan]
    simp only [hnan, true_and]
    split
    next => rfl
    next => simp
  next hnan => exact roundBFloat16_eq hnan h fflags

theorem M3.convertF32ToBF16_eq (h : effectiveMode instRm fpState = some mode) (fflags : BitVec 32) :
    M3.convertF32ToBF16 bits instRm (some fpState) fflags =
      (narrowed mode bits, fflags ||| narrowFlags true mode bits) := by
  rw [M3.convertF32ToBF16, narrowed, narrowFlags]
  split
  next hnan =>
    split
    next => rfl
    next => simp
  next hnan => exact M3.roundBFloat16_eq hnan h fflags

theorem Zfbfmin.convert_eq' :
    Zfbfmin.convert bits (modeNumber mode) = (narrowed mode bits, narrowFlags true mode bits) := by
  rw [narrowed, narrowFlags]
  split
  next hnan =>
    have hfields : bits &&& 0x7f800000 = 0x7f800000 ∧ bits &&& 0x007fffff ≠ 0 := hnan
    rw [Zfbfmin.convert, if_pos hfields]
    simp only [FloatIsSNaN, hnan, true_and]
  next hnan => exact Zfbfmin.convert_eq hnan

/-- Both tests for a box are one. -/
theorem sshiftRight_ne_iff {rs1 : BitVec 64} :
    rs1.sshiftRight 32 ≠ -1 ↔ rs1 >>> 32 ≠ 0xffffffff := by
  have hlt := rs1.isLt
  rw [ne_eq, ne_eq, not_iff_not, ← BitVec.toInt_inj, ← BitVec.toNat_inj, BitVec.toInt_sshiftRight,
    BitVec.toNat_ushiftRight, Nat.shiftRight_eq_div_pow, Int.shiftRight_eq_div_pow,
    show (-1 : BitVec 64).toInt = -1 from rfl,
        show (0xffffffff : BitVec 64).toNat = 0xffffffff from rfl,
    BitVec.toInt_eq_toNat_cond]
  split <;> omega

/-- The lower half, as a number. -/
theorem and_setWidth {vs2 : BitVec 64} : (vs2 &&& 0xffffffff).setWidth 32 = vs2.setWidth 32 := by
  rw [← BitVec.toNat_inj, BitVec.toNat_setWidth, BitVec.toNat_setWidth,
    toNat_and_field (k := 32) (i := 0) rfl]
  omega

/-- Flags are raised from none. -/
theorem zero_or_flags (fflags : BitVec 32) : 0 ||| fflags = fflags := BitVec.zero_or

/-- The canonical NaN in every conversion. -/
theorem narrowed_nan : narrowed mode 0x7fc00000 = 0x7fc0 := if_pos (by decide)

theorem narrowFlags_nan {underflow : Bool} : narrowFlags underflow mode 0x7fc00000 = 0 := by
  have hnan : FloatIsNaN 0x7fc00000 := by decide
  have hquiet : ¬ FloatIsSNaN 0x7fc00000 := by decide
  rw [narrowFlags, if_pos hnan, if_neg hquiet]

/-- No mode in force is reserved. -/
theorem not_reserved (h : effectiveMode instRm fpState = some mode) :
    ¬ (instRm = 5 ∨ instRm = 6) ∧ ¬ (instRm = 7 ∧ ¬ fpState.roundingModeValid = true) ∧
      ¬ (instRm > kRoundToNearestTiesToMax ∧ instRm ≠ kDynamic) := by
  by_cases hdynamic : instRm = kDynamic
  · subst hdynamic
    have hvalid := (effectiveMode_dynamic h).1
    exact ⟨by decide, fun hnot => hnot.2 hvalid, fun hnot => hnot.2 rfl⟩
  · have hrm := effectiveMode_static hdynamic h
    refine ⟨?_, fun hnot => hdynamic hnot.1, fun hnot => ?_⟩
    · rw [hrm]
      cases mode <;> decide
    · rw [hrm] at hnot
      cases mode <;> exact absurd hnot.1 (by decide)

theorem fcvtbf16s_eq {vs2 : BitVec 64} {state : FloatState} (hstate : state.rvFp = some fpState)
    (h : effectiveMode instRm fpState = some mode) :
    fcvtbf16s vs2 instRm state =
      .done (0xffffffffffff0000 ||| (narrowed mode (getNaNBoxedSource vs2)).setWidth 64)
        (narrowFlags false mode (getNaNBoxedSource vs2)) := by
  obtain ⟨hrm, hvalid, -⟩ := not_reserved h
  simp only [fcvtbf16s, hstate, if_neg hrm, if_neg hvalid, getNaNBoxedSource, sshiftRight_ne_iff,
    and_setWidth]
  split
  next => simp only [roundBFloat16_nan, narrowed_nan, narrowFlags_nan]
  next =>
    simp only [floatIsNaN_iff_fields, quiet_iff_fields]
    generalize vs2.setWidth 32 = bits
    rw [narrowed, narrowFlags]
    split
    next hnan => simp only [roundBFloat16_nan, FloatIsSNaN, hnan, true_and]
    next hnan => simp only [roundBFloat16_eq hnan h, zero_or_flags]

theorem effectiveMode_modeNumber : effectiveMode (modeNumber mode) fpState = some mode := by
  cases mode <;> rfl

theorem M3.fcvtBf16S_eq {fs1 : BitVec 64} {state : FloatState} (hstate : state.rvFp = some fpState)
    (hfs : state.fs ≠ 0) (h : effectiveMode instRm fpState = some mode) :
    M3.fcvtBf16S fs1 instRm state =
      .done (0xffffffffffff0000 ||| (narrowed mode (getNaNBoxedSource fs1)).setWidth 64)
        (narrowFlags true mode (getNaNBoxedSource fs1)) := by
  obtain ⟨-, -, hrm⟩ := not_reserved h
  simp only [M3.fcvtBf16S, if_neg hfs, if_neg hrm, hstate]
  split
  next hdynamic =>
    subst hdynamic
    obtain ⟨hvalid, hfrm⟩ := effectiveMode_dynamic h
    simp only [hvalid, hfrm, M3.convertF32ToBF16_eq effectiveMode_modeNumber, not_true, if_false,
      zero_or_flags, BitVec.or_comm (BitVec.setWidth 64 _)]
  next => simp only [M3.convertF32ToBF16_eq h, zero_or_flags, BitVec.or_comm (BitVec.setWidth 64 _)]

theorem Zfbfmin.fcvtBf16S_eq {frs1 : BitVec 64} {state : FloatState}
    (hstate : state.rvFp = some fpState) (hfs : state.fs ≠ 0)
    (h : effectiveMode instRm fpState = some mode) :
    Zfbfmin.fcvtBf16S frs1 instRm state =
      .done (0xffffffffffff0000 ||| (narrowed mode (getNaNBoxedSource frs1)).setWidth 64)
        (narrowFlags true mode (getNaNBoxedSource frs1)) := by
  obtain ⟨-, hvalid, -⟩ := not_reserved h
  have hrm : (if instRm = 7 then fpState.getRoundingMode else instRm) = modeNumber mode := rm_eq h
  have hreserved : ¬ (modeNumber mode = 5 ∨ modeNumber mode = 6 ∨ modeNumber mode > 7) := by
    cases mode <;> decide
  simp only [Zfbfmin.fcvtBf16S, hstate, if_neg hfs, if_neg hvalid, hrm, if_neg hreserved,
    Zfbfmin.convert_eq']

theorem getNaNBoxedSource_boxed : getNaNBoxedSource (boxed bits) = bits := by
  have hlt := bits.isLt
  have hnat : (boxed bits).toNat = 0xffffffff00000000 + bits.toNat := by
    rw [boxed, BitVec.toNat_or, BitVec.toNat_setWidth, Nat.mod_eq_of_lt (by omega)]
    exact (Nat.two_pow_add_eq_or_of_lt (i := 32) hlt 0xffffffff).symm
  have hbox : ¬ (boxed bits).sshiftRight 32 ≠ -1 := by
    rw [sshiftRight_ne_iff, not_not, ← BitVec.toNat_inj, BitVec.toNat_ushiftRight, hnat,
      Nat.shiftRight_eq_div_pow, show (0xffffffff : BitVec 64).toNat = 0xffffffff from rfl]
    omega
  rw [getNaNBoxedSource, if_neg hbox, ← BitVec.toNat_inj, BitVec.toNat_setWidth, hnat]
  omega

/-- The conversions of registers, with a static mode or through `frm`. -/
theorem conversions_round (hmode : effectiveMode instRm fpState = some mode) (bits : BitVec 32) :
    (¬ FloatIsNaN bits → ∀ fflags,
      CorrectlyRounded mode bits (roundBFloat16 bits instRm (some fpState) fflags).1) ∧
    (instRm = kDynamic → ∀ fflags,
      CorrectlyRounded mode bits (convertF32ToBF16 bits (some fpState) fflags).1) ∧
    (∀ fflags, CorrectlyRounded mode bits
      (M3.convertF32ToBF16 bits instRm (some fpState) fflags).1) ∧
    ∀ state : FloatState, state.rvFp = some fpState → state.fs ≠ 0 →
      ∀ convert ∈ [fcvtbf16s, M3.fcvtBf16S, Zfbfmin.fcvtBf16S], ∃ result fflags,
        convert (boxed bits) instRm state =
          .done (0xffffffffffff0000 ||| result.setWidth 64) fflags ∧
          CorrectlyRounded mode bits result := by
  refine ⟨fun hnan fflags => ?_, fun hdynamic fflags => ?_, fun fflags => ?_, ?_⟩
  · rw [roundBFloat16_eq hnan hmode]
    exact correctlyRounded_cut hnan
  · rw [convertF32ToBF16_eq (hdynamic ▸ hmode)]
    exact correctlyRounded_narrowed
  · rw [M3.convertF32ToBF16_eq hmode]
    exact correctlyRounded_narrowed
  · intro state hstate hfs convert hmem
    simp only [List.mem_cons, List.not_mem_nil, or_false] at hmem
    refine ⟨narrowed mode bits, ?_⟩
    rcases hmem with rfl | rfl | rfl
    · exact ⟨_, by rw [fcvtbf16s_eq hstate hmode, getNaNBoxedSource_boxed],
        correctlyRounded_narrowed⟩
    · exact ⟨_, by rw [M3.fcvtBf16S_eq hstate hfs hmode, getNaNBoxedSource_boxed],
        correctlyRounded_narrowed⟩
    · exact ⟨_, by rw [Zfbfmin.fcvtBf16S_eq hstate hfs hmode, getNaNBoxedSource_boxed],
        correctlyRounded_narrowed⟩

/-- The largest finite single, rounded up through `frm`. -/
theorem conversions_round_largest :
    effectiveMode kDynamic ⟨kRoundUp, true⟩ = some .up ∧
      CorrectlyRounded .up 0x7f7fffff
        (roundBFloat16 0x7f7fffff kDynamic (some ⟨kRoundUp, true⟩) 0).1 :=
  ⟨by decide, (conversions_round (by decide) 0x7f7fffff).1 (by decide) 0⟩

end Implementations
end CoralNpu
