/-
**Conversions from bfloat16.**

A bfloat16 in a register is boxed: all bits above it are ones.  Two of the three implementations of
`fcvt.s.bf16` look at all of them.  That of the M3 instructions reads the lower half of the register
only, and so takes a register for a box whose upper half is anything.

Main definitions:

* `CoralNpu.fcvtsbf16`, `CoralNpu.M3.fcvtSBf16`, `CoralNpu.Zfbfmin.fcvtSBf16` — the implementations;
* `CoralNpu.WideningRight` — they agree, take no improper box, and are undone by narrowing.

Main results:

* `CoralNpu.narrow_widened` — **narrowing undoes widening**;
* `CoralNpu.wideningRight_iff` — **for which registers the implementations agree**.
-/

import CoralNpu.CoralNpuBfloat16

set_option relaxedAutoImplicit false
set_option autoImplicit false

namespace CoralNpu

open FloatRounding

/-- `Fcvtsbf16`. -/
def fcvtsbf16 (rs1 : BitVec 64) (instRm : BitVec 32) (state : FloatState) : FcvtOutcome :=
  match state.rvFp with
  | none => .trap
  | some fpState =>
      if instRm = 5 ∨ instRm = 6 then .trap
      else if instRm = 7 ∧ ¬ fpState.roundingModeValid then .trap
      else
        let srcBits : BitVec 16 := (rs1 &&& 0xffff).setWidth 16
        let (bits, fflags) :=
          if rs1 >>> 16 ≠ 0xffffffffffff then ((0x7fc00000, 0) : BitVec 32 × BitVec 32)
          else
            let exp : BitVec 32 := (srcBits.setWidth 32 >>> 7) &&& 0xff
            let frac : BitVec 32 := srcBits.setWidth 32 &&& 0x7f
            if exp = 0xff ∧ frac ≠ 0 then (0x7fc00000, if frac &&& 0x40 = 0 then kInvalidOp else 0)
            else (srcBits.setWidth 32 <<< 16, 0)
        .done (0xffffffff00000000 ||| bits.setWidth 64) fflags

namespace M3

/-- `ConvertBF16ToF32Precise`. -/
def convertBF16ToF32Precise (bf16Bits : BitVec 16) : BitVec 32 × BitVec 32 :=
  let srcBits : BitVec 32 := bf16Bits.setWidth 32
  let exp := (srcBits >>> 7) &&& 0xff
  let frac := srcBits &&& 0x7f
  if exp = 0xff ∧ frac ≠ 0 then (0x7fc00000, if frac &&& 0x40 = 0 then kInvalidOp else 0)
  else (srcBits <<< 16, 0)

/-- `FcvtSBf16`. -/
def fcvtSBf16 (rs1 : BitVec 64) (rmVal : BitVec 32) (state : FloatState) : FcvtOutcome :=
  match state.rvFp with
  | none => .ignored
  | some _ =>
      if state.fs = 0 then .trap
      else if rmVal ≠ 0 then .trap
      else
        let srcBits : BitVec 32 := rs1.setWidth 32
        let isBoxed := srcBits &&& 0xffff0000 = 0xffff0000
        let conv :=
          if ¬ isBoxed then ((0x7fc00000, 0) : BitVec 32 × BitVec 32)
          else convertBF16ToF32Precise ((srcBits &&& 0xffff).setWidth 16)
        .done (0xffffffff00000000 ||| conv.1.setWidth 64) conv.2

end M3

namespace Zfbfmin

/-- `CoralNPUM3ZfbfminFcvtSBf16`. -/
def fcvtSBf16 (frs1 : BitVec 64) (rm : BitVec 32) (state : FloatState) : FcvtOutcome :=
  match state.rvFp with
  | none => .trap
  | some _ =>
      if state.fs = 0 then .trap
      else if rm ≠ 0 then .trap
      else
        let isNanBoxed := frs1 &&& 0xffffffffffff0000 = 0xffffffffffff0000
        let bf16Val : BitVec 16 := (frs1 &&& 0xffff).setWidth 16
        let isNan := bf16Val &&& 0x7f80 = 0x7f80 ∧ bf16Val &&& 0x7f ≠ 0
        let (fp32Val, fflags) :=
          if ¬ isNanBoxed ∨ isNan then
            ((0x7fc00000, if isNanBoxed ∧ isNan ∧ bf16Val &&& 0x40 = 0 then kInvalidOp else 0) :
              BitVec 32 × BitVec 32)
          else (bf16Val.setWidth 32 <<< 16, 0)
        .done (0xffffffff00000000 ||| fp32Val.setWidth 64) fflags

end Zfbfmin

/-- The conversions from bfloat16, and those to it. -/
def widenings : List (BitVec 64 → BitVec 32 → FloatState → FcvtOutcome) :=
  [fcvtsbf16, M3.fcvtSBf16, Zfbfmin.fcvtSBf16]

@[inherit_doc widenings] def narrowings : List (BitVec 64 → BitVec 32 → FloatState → FcvtOutcome) :=
  [fcvtbf16s, M3.fcvtBf16S, Zfbfmin.fcvtBf16S]

/-- A bfloat16 is properly boxed in a register. -/
def IsBoxed (rs1 : BitVec 64) : Prop := rs1 >>> 16 = 0xffffffffffff

/-- **What the conversions of a register should do**: agree, take an improper box for the canonical
NaN, and be undone by narrowing in any rounding mode, without a flag. -/
structure WideningRight (state : FloatState) (rs1 : BitVec 64) : Prop where
  agree : ∃ fd fflags, ∀ widen ∈ widenings, widen rs1 0 state = .done fd fflags
  improper : ¬ IsBoxed rs1 → ∀ widen ∈ widenings, widen rs1 0 state = .done (boxed 0x7fc00000) 0
  undone : IsBoxed rs1 → ¬ BF16IsNaN (rs1.setWidth 16) →
    ∀ fpState instRm mode, state.rvFp = some fpState → effectiveMode instRm fpState = some mode →
      ∀ widen ∈ widenings, ∀ narrow ∈ narrowings,
        ∃ fd, widen rs1 0 state = .done fd 0 ∧ narrow fd instRm state = .done rs1 0

/-- It is boxed in the lower half of the register. -/
def IsHalfBoxed (rs1 : BitVec 64) : Prop :=
  rs1.setWidth 32 &&& 0xffff0000 = (0xffff0000 : BitVec 32)

instance : DecidablePred IsBoxed := fun _ => inferInstanceAs (Decidable (_ = _))

instance : DecidablePred IsHalfBoxed := fun _ => inferInstanceAs (Decidable (_ = _))

/-- A bfloat16, or for an improper box the canonical NaN, is widened. -/
def widenedIf (proper : Prop) [Decidable proper] (rs1 : BitVec 64) : FcvtOutcome :=
  let conv := if proper then M3.convertBF16ToF32Precise (rs1.setWidth 16) else (0x7fc00000, 0)
  .done (boxed conv.1) conv.2

section Widen

variable {rs1 : BitVec 64} {src : BitVec 16} {state : FloatState} {fpState : RiscVFPState}

theorem low_half : (rs1 &&& 0xffff).setWidth 16 = rs1.setWidth 16 := by
  rw [← BitVec.toNat_inj, BitVec.toNat_setWidth, BitVec.toNat_setWidth,
    toNat_and_field (k := 16) (i := 0) rfl]
  omega

theorem low_half_of_low :
    ((rs1.setWidth 32 : BitVec 32) &&& 0xffff).setWidth 16 = rs1.setWidth 16 := by
  rw [← BitVec.toNat_inj, BitVec.toNat_setWidth, BitVec.toNat_setWidth,
    toNat_and_field (k := 16) (i := 0) rfl, BitVec.toNat_setWidth]
  omega

/-- A box, tested with a mask. -/
theorem isBoxed_iff : rs1 &&& 0xffffffffffff0000 = 0xffffffffffff0000 ↔ IsBoxed rs1 := by
  have hlt := rs1.isLt
  rw [IsBoxed, ← BitVec.toNat_inj, ← BitVec.toNat_inj, toNat_and_field (k := 48) (i := 16) rfl,
    BitVec.toNat_ushiftRight, Nat.shiftRight_eq_div_pow,
    show (0xffffffffffff0000 : BitVec 64).toNat = 0xffffffffffff0000 from rfl,
    show (0xffffffffffff : BitVec 64).toNat = 0xffffffffffff from rfl]
  omega

/-- A box is a box in the lower half, and the upper half is all ones. -/
theorem isBoxed_iff_isHalfBoxed : IsBoxed rs1 ↔ rs1 >>> 32 = 0xffffffff ∧ IsHalfBoxed rs1 := by
  have hlt := rs1.isLt
  rw [IsBoxed, IsHalfBoxed, ← BitVec.toNat_inj, ← BitVec.toNat_inj, ← BitVec.toNat_inj,
    toNat_and_field (k := 16) (i := 16) rfl, BitVec.toNat_ushiftRight, BitVec.toNat_ushiftRight,
    Nat.shiftRight_eq_div_pow, Nat.shiftRight_eq_div_pow, BitVec.toNat_setWidth,
    show (0xffffffff : BitVec 64).toNat = 0xffffffff from rfl,
    show (0xffff0000 : BitVec 32).toNat = 0xffff0000 from rfl,
    show (0xffffffffffff : BitVec 64).toNat = 0xffffffffffff from rfl]
  omega

/-- A NaN, told by the fields of a bfloat16 in a word. -/
theorem bf16IsNaN_iff_fields : (src.setWidth 32 >>> 7 : BitVec 32) &&& 0xff = 0xff ∧
    (src.setWidth 32 : BitVec 32) &&& 0x7f ≠ 0 ↔ BF16IsNaN src := by
  have hlt := src.isLt
  rw [bf16IsNaN_iff, ne_eq, ← BitVec.toNat_inj, ← BitVec.toNat_inj,
    toNat_and_field (k := 8) (i := 0) rfl, toNat_and_field (k := 7) (i := 0) rfl,
    BitVec.toNat_ushiftRight, Nat.shiftRight_eq_div_pow, BitVec.toNat_setWidth,
    show (0xff : BitVec 32).toNat = 0xff from rfl, show (0 : BitVec 32).toNat = 0 from rfl]
  omega

/-- The quiet bit. -/
theorem bf16_quiet_iff : (src.setWidth 32 : BitVec 32) &&& 0x7f &&& 0x40 = 0 ↔
    src &&& 0x40 = 0 := by
  rw [BitVec.and_assoc, show (0x7f &&& 0x40 : BitVec 32) = 0x40 from rfl, ← BitVec.toNat_inj,
    ← BitVec.toNat_inj, toNat_and_field (k := 1) (i := 6) rfl,
    toNat_and_field (k := 1) (i := 6) rfl,
    BitVec.toNat_setWidth, show (0 : BitVec 32).toNat = 0 from rfl,
    show (0 : BitVec 16).toNat = 0 from rfl]
  omega

theorem convertBF16ToF32Precise_eq : M3.convertBF16ToF32Precise src =
    (if BF16IsNaN src then (0x7fc00000, if src &&& 0x40 = 0 then kInvalidOp else 0)
    else (src.setWidth 32 <<< 16, 0) : BitVec 32 × BitVec 32) := by
  simp only [M3.convertBF16ToF32Precise, bf16IsNaN_iff_fields, bf16_quiet_iff]

/-- The first implementation. -/
theorem fcvtsbf16_eq (hstate : state.rvFp = some fpState) :
    fcvtsbf16 rs1 0 state = widenedIf (IsBoxed rs1) rs1 := by
  have hrm : ¬ ((0 : BitVec 32) = 5 ∨ (0 : BitVec 32) = 6) := by decide
  have hstatic : ¬ ((0 : BitVec 32) = 7 ∧ ¬ fpState.roundingModeValid = true) := fun h =>
    absurd h.1 (by decide)
  simp only [fcvtsbf16, hstate, if_neg hrm, if_neg hstatic, low_half, widenedIf, IsBoxed, ite_not,
    boxed, M3.convertBF16ToF32Precise]
  rfl

/-- That of the M3 instructions. -/
theorem M3.fcvtSBf16_eq (hstate : state.rvFp = some fpState) (hfs : state.fs ≠ 0) :
    M3.fcvtSBf16 rs1 0 state = widenedIf (IsHalfBoxed rs1) rs1 := by
  simp only [M3.fcvtSBf16, hstate, if_neg hfs, ne_eq, not_true, if_false, low_half_of_low,
    widenedIf, IsHalfBoxed, ite_not, boxed]
  rfl

/-- The override. -/
theorem Zfbfmin.fcvtSBf16_eq (hstate : state.rvFp = some fpState) (hfs : state.fs ≠ 0) :
    Zfbfmin.fcvtSBf16 rs1 0 state = widenedIf (IsBoxed rs1) rs1 := by
  simp only [Zfbfmin.fcvtSBf16, hstate, if_neg hfs, ne_eq, not_true, if_false, low_half,
    isBoxed_iff, widenedIf, convertBF16ToF32Precise_eq, boxed]
  generalize rs1.setWidth 16 = src
  by_cases hbox : IsBoxed rs1
  · by_cases hnan : BF16IsNaN src
    · have hfields : src &&& 0x7f80 = 0x7f80 ∧ src &&& 0x7f ≠ 0 := hnan
      simp only [hbox, hnan, hfields, not_true, not_false_eq_true, false_or, and_self,
        true_and, if_true]
    · have hfields : ¬ (src &&& 0x7f80 = 0x7f80 ∧ ¬ src &&& 0x7f = 0) := hnan
      simp only [hbox, hnan, hfields, not_true, false_or, if_true, if_false]
  · simp only [hbox, not_false_eq_true, true_or, if_true, false_and, if_false]

/-- A bfloat16 as a single. -/
theorem toNat_widened : (src.setWidth 32 <<< 16 : BitVec 32).toNat = src.toNat * 2 ^ 16 := by
  have hlt := src.isLt
  rw [BitVec.toNat_shiftLeft, BitVec.toNat_setWidth, Nat.shiftLeft_eq]
  omega

theorem floatIsNaN_widened : FloatIsNaN (src.setWidth 32 <<< 16) ↔ BF16IsNaN src := by
  rw [floatIsNaN_iff, bf16IsNaN_iff, toNat_widened]
  omega

/-- **Narrowing undoes widening**, and raises no flag. -/
theorem narrow_widened (hnan : ¬ BF16IsNaN src) (underflow : Bool) (mode : Mode) :
    narrowed mode (src.setWidth 32 <<< 16) = src ∧
      narrowFlags underflow mode (src.setWidth 32 <<< 16) = 0 := by
  have hlt := src.isLt
  have hrest : rest (src.setWidth 32 <<< 16) = 0 := by
    rw [rest, toNat_widened]
    omega
  rw [← floatIsNaN_widened] at hnan
  constructor
  · rw [narrowed, if_neg hnan, upperHalf, not_increments hrest, if_neg Bool.false_ne_true,
      ← BitVec.toNat_inj, BitVec.toNat_setWidth, BitVec.toNat_ushiftRight, toNat_widened,
      Nat.shiftRight_eq_div_pow]
    omega
  · simp only [narrowFlags, if_neg hnan, cutFlags, hrest, ne_eq, not_true, false_and, and_false,
      if_true, if_false]
    rfl

theorem boxed_injective {a b : BitVec 32} (h : boxed a = boxed b) : a = b := by
  rw [← @getNaNBoxedSource_boxed a, h, getNaNBoxedSource_boxed]

/-- The conversions agree, unless a bfloat16 is boxed in the lower half of the register alone and is
no quiet NaN. -/
theorem widenings_eq (hstate : state.rvFp = some fpState) (hfs : state.fs ≠ 0)
    (h : rs1 >>> 32 = 0xffffffff ∨ ¬ IsHalfBoxed rs1 ∨
      BF16IsNaN (rs1.setWidth 16) ∧ (rs1.setWidth 16 : BitVec 16) &&& 0x40 ≠ 0) :
    ∀ widen ∈ widenings, widen rs1 0 state = widenedIf (IsBoxed rs1) rs1 := by
  have hhalf : widenedIf (IsHalfBoxed rs1) rs1 = widenedIf (IsBoxed rs1) rs1 := by
    by_cases hbox : IsBoxed rs1
    · simp only [widenedIf, if_pos hbox, if_pos (isBoxed_iff_isHalfBoxed.1 hbox).2]
    · by_cases hlow : IsHalfBoxed rs1
      · have hupper : rs1 >>> 32 ≠ 0xffffffff :=
          fun hupper => hbox (isBoxed_iff_isHalfBoxed.2 ⟨hupper, hlow⟩)
        obtain ⟨hnan, hquiet⟩ := (h.resolve_left hupper).resolve_left (not_not_intro hlow)
        simp only [widenedIf, if_neg hbox, if_pos hlow, convertBF16ToF32Precise_eq, if_pos hnan,
          if_neg hquiet]
      · simp only [widenedIf, if_neg hbox, if_neg hlow]
  intro widen hmem
  simp only [widenings, List.mem_cons, List.not_mem_nil, or_false] at hmem
  rcases hmem with rfl | rfl | rfl
  · exact fcvtsbf16_eq hstate
  · rw [M3.fcvtSBf16_eq hstate hfs, hhalf]
  · exact Zfbfmin.fcvtSBf16_eq hstate hfs

/-- The narrowings of the result, for a number. -/
theorem narrowings_widened (hstate : state.rvFp = some fpState) (hfs : state.fs ≠ 0)
    (hbox : IsBoxed rs1) (hnan : ¬ BF16IsNaN (rs1.setWidth 16)) {instRm : BitVec 32} {mode : Mode}
    (hmode : effectiveMode instRm fpState = some mode) :
    ∃ fd, widenedIf (IsBoxed rs1) rs1 = .done fd 0 ∧
      ∀ narrow ∈ narrowings, narrow fd instRm state = .done rs1 0 := by
  have hsame : (0xffffffffffff0000 ||| (rs1.setWidth 16 : BitVec 16).setWidth 64 : BitVec 64) =
      rs1 := by
    rw [IsBoxed, ← BitVec.toNat_inj, BitVec.toNat_ushiftRight, Nat.shiftRight_eq_div_pow,
      show (0xffffffffffff : BitVec 64).toNat = 0xffffffffffff from rfl] at hbox
    rw [← BitVec.toNat_inj, BitVec.toNat_or, BitVec.toNat_setWidth, BitVec.toNat_setWidth,
      Nat.mod_eq_of_lt (show rs1.toNat % 2 ^ 16 < 2 ^ 64 by omega)]
    refine (Nat.two_pow_add_eq_or_of_lt (i := 16)
      (Nat.mod_lt _ (by decide)) 0xffffffffffff).symm.trans ?_
    omega
  obtain ⟨hresult, -⟩ := narrow_widened hnan true mode
  have hflags := fun underflow => (narrow_widened hnan underflow mode).2
  refine ⟨boxed ((rs1.setWidth 16 : BitVec 16).setWidth 32 <<< 16), ?_, ?_⟩
  · simp only [widenedIf, if_pos hbox, convertBF16ToF32Precise_eq, if_neg hnan]
  · intro narrow hmem
    simp only [narrowings, List.mem_cons, List.not_mem_nil, or_false] at hmem
    rcases hmem with rfl | rfl | rfl
    · rw [fcvtbf16s_eq hstate hmode, getNaNBoxedSource_boxed, hresult, hflags, hsame]
    · rw [M3.fcvtBf16S_eq hstate hfs hmode, getNaNBoxedSource_boxed, hresult, hflags, hsame]
    · rw [Zfbfmin.fcvtBf16S_eq hstate hfs hmode, getNaNBoxedSource_boxed, hresult, hflags, hsame]

/-- What the conversion of the M3 instructions does to a box in the lower half alone. -/
theorem quiet_of_improper (hstate : state.rvFp = some fpState) (hfs : state.fs ≠ 0)
    (hhalf : IsHalfBoxed rs1) (h : M3.fcvtSBf16 rs1 0 state = .done (boxed 0x7fc00000) 0) :
    BF16IsNaN (rs1.setWidth 16) ∧ (rs1.setWidth 16 : BitVec 16) &&& 0x40 ≠ 0 := by
  rw [M3.fcvtSBf16_eq hstate hfs] at h
  simp only [widenedIf, if_pos hhalf, convertBF16ToF32Precise_eq] at h
  split at h
  next hnan =>
    refine ⟨hnan, fun hsignalling => ?_⟩
    obtain ⟨-, hflags⟩ := FcvtOutcome.done.inj h
    rw [if_pos hsignalling] at hflags
    exact absurd hflags (by decide)
  next hnan =>
    have hbits : (rs1.setWidth 16 : BitVec 16).setWidth 32 <<< 16 = (0x7fc00000 : BitVec 32) :=
      boxed_injective (FcvtOutcome.done.inj h).1
    exact absurd (floatIsNaN_widened.1 (by rw [hbits]; decide)) hnan

/-- **For which registers the implementations agree**: the upper half is all ones, the lower half is
no box, or it is one of a quiet NaN. -/
theorem wideningRight_iff (hstate : state.rvFp = some fpState) (hfs : state.fs ≠ 0) :
    WideningRight state rs1 ↔ rs1 >>> 32 = 0xffffffff ∨ ¬ IsHalfBoxed rs1 ∨
      BF16IsNaN (rs1.setWidth 16) ∧ (rs1.setWidth 16 : BitVec 16) &&& 0x40 ≠ 0 := by
  constructor
  · intro h
    by_cases hupper : rs1 >>> 32 = 0xffffffff
    · exact Or.inl hupper
    by_cases hhalf : IsHalfBoxed rs1
    · have hbox : ¬ IsBoxed rs1 := fun hbox => hupper (isBoxed_iff_isHalfBoxed.1 hbox).1
      have hcanonical :=
        h.improper hbox M3.fcvtSBf16 (List.mem_cons_of_mem _ (List.mem_cons_self ..))
      exact Or.inr (Or.inr (quiet_of_improper hstate hfs hhalf hcanonical))
    · exact Or.inr (Or.inl hhalf)
  · intro h
    have hsame := widenings_eq hstate hfs h
    refine ⟨⟨_, _, hsame⟩,
      fun hbox widen hmem => ?_, fun hbox hnan fp instRm mode hfp hmode widen hmem => ?_⟩
    · rw [hsame widen hmem, widenedIf, if_neg hbox]
    · obtain ⟨fd, hdone, hnarrow⟩ := narrowings_widened hfp hfs hbox hnan hmode
      exact fun narrow hmem' => ⟨fd, by rw [hsame widen hmem, hdone], hnarrow narrow hmem'⟩

/-- One, in a box. -/
theorem wideningRight_one : WideningRight ⟨3, some ⟨kRoundUp, true⟩⟩ 0xffffffffffff3f80 :=
  (wideningRight_iff rfl (by decide)).2 (by decide)

/-- **One, boxed in the lower half alone**, is taken by one of them for one, and by the others for a
NaN. -/
theorem not_wideningRight_half : ¬ WideningRight ⟨3, some ⟨kRoundUp, true⟩⟩ 0x00000000ffff3f80 := by
  intro h
  have hcanonical :=
    h.improper (by decide) M3.fcvtSBf16 (List.mem_cons_of_mem _ (List.mem_cons_self ..))
  exact absurd (quiet_of_improper rfl (by decide) (by decide) hcanonical).1 (by decide)

end Widen

end CoralNpu
