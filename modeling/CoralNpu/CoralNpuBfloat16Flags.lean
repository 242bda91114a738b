/-
**The flags of the conversions to bfloat16.**

The first implementation knows nothing of underflow.  The other two raise it for an inexact result
that is subnormal, and so leave out the numbers just below the smallest normal one which bfloat16
rounds up to it while an unbounded exponent would not.

Main definitions:

* `CoralNpu.FlagsRight` — the flags that a conversion should raise;
* `CoralNpu.tinyBelow` — up to which index a single is tiny after rounding.

Main results:

* `CoralNpu.tiny_iff`, `CoralNpu.overflows_iff` — tininess and overflow of a single;
* `CoralNpu.flagsRight_narrowFlags_iff` — when the flags of one kind are right;
* `CoralNpu.conversions_flagsRight_iff` — **when those of all three are**.
-/

import CoralNpu.CoralNpuBfloat16

set_option relaxedAutoImplicit false
set_option autoImplicit false

namespace CoralNpu

open FloatRounding

/-- `bits` is a finite number. -/
def FloatIsFinite (bits : BitVec 32) : Prop := bits &&& 0x7f800000 ≠ 0x7f800000

/-- The value of a single is no bfloat16. -/
def Inexact (bits : BitVec 32) : Prop := ¬ FloatIsNaN bits ∧ floatValue bits ∉ bfloat16.numbers

/-- **The flags that a conversion should raise**: invalid for a signalling NaN, overflow for a
finite number that is rounded beyond the largest finite bfloat16, inexact for a number that is no
bfloat16, underflow if it is tiny after rounding too, and no others. -/
structure FlagsRight (mode : Mode) (bits fflags : BitVec 32) : Prop where
  invalid : fflags &&& kInvalidOp ≠ 0 ↔ FloatIsSNaN bits
  overflow : fflags &&& kOverflow ≠ 0 ↔
    FloatIsFinite bits ∧ bfloat16.Overflows mode (floatValue bits)
  inexact : fflags &&& kInexact ≠ 0 ↔ Inexact bits
  underflow : fflags &&& kUnderflow ≠ 0 ↔ Inexact bits ∧ bfloat16.Tiny mode (floatValue bits)
  others : fflags &&& ~~~(kInvalidOp ||| kOverflow ||| kInexact ||| kUnderflow) = 0

/-- The index from which on a number is not tiny after rounding, for a number without its sign. -/
def tinyBelow : Mode → ℕ
  | .nearestEven => 0x7fc000
  | .towardZero => 0x800000
  | .down => 0x800000
  | .up => 0x7f8001
  | .nearestAway => 0x7fc000

section Flags

variable {mode : Mode} {bits : BitVec 32}

/-- Those of the largest exponent are infinities and NaNs. -/
theorem floatIsFinite_iff : FloatIsFinite bits ↔ cut bits < 0x7f80 := by
  rw [FloatIsFinite, ne_eq, ← BitVec.toNat_inj, toNat_and_field (k := 8) (i := 23) rfl,
    show (0x7f800000 : BitVec 32).toNat = 0x7f800000 from rfl, cut]
  omega

/-- A single is no bfloat16 if something is cut off. -/
theorem inexact_iff_rest : Inexact bits ↔ ¬ FloatIsNaN bits ∧ rest bits ≠ 0 := by
  refine and_congr_right fun hnan => not_congr ?_
  rw [floatValue, ← cut_add_rest, ← widen_bfloat16]
  rcases cut_le hnan with hlt | ⟨heq, hrest⟩
  · exact Format.value_widen_mem_numbers_iff (F := bfloat16) hlt (rest_lt bits)
  · refine iff_of_true ?_ hrest
    rw [hrest, heq, Nat.add_zero, Format.value_widen_mul]
    exact ⟨0x7f80, le_rfl, _, rfl⟩

/-- **Overflow of a single**: it is rounded to infinity. -/
theorem overflows_iff : FloatIsFinite bits ∧ bfloat16.Overflows mode (floatValue bits) ↔
    ¬ FloatIsNaN bits ∧ rest bits ≠ 0 ∧ rounded mode bits = 0x7f80 := by
  constructor
  · rintro ⟨hfinite, hover⟩
    rw [floatIsFinite_iff] at hfinite
    have hnan : ¬ FloatIsNaN bits := by
      rw [floatIsNaN_iff, ← cut_add_rest]
      have hlt := rest_lt bits
      omega
    rw [floatValue, ← cut_add_rest, ← widen_bfloat16,
      Format.overflows_widen_iff (F := bfloat16) (by decide) (by decide) hfinite (rest_lt bits),
      Mode.away_div_iff, ← increments_iff] at hover
    have hinfinity : rounded mode bits = 0x7f80 := by
      rw [rounded, if_pos hover.2]
      exact hover.1
    exact ⟨hnan, (rest_ne_zero_iff hnan hinfinity).1.1 hover.2, hinfinity⟩
  · rintro ⟨hnan, hrest, hinfinity⟩
    have hfinite := (rest_ne_zero_iff hnan hinfinity).2.2 hrest
    have hincr := (rest_ne_zero_iff hnan hinfinity).1.2 hrest
    refine ⟨floatIsFinite_iff.2 hfinite, ?_⟩
    rw [floatValue, ← cut_add_rest, ← widen_bfloat16,
      Format.overflows_widen_iff (F := bfloat16) (by decide) (by decide) hfinite (rest_lt bits),
      Mode.away_div_iff, ← increments_iff]
    rw [rounded, if_pos hincr] at hinfinity
    exact ⟨hinfinity, hincr⟩

/-- **Tininess of a single after rounding.** -/
theorem tiny_iff : bfloat16.Tiny mode (floatValue bits) ↔
    bits.toNat % 2 ^ 31 < tinyBelow (mode.under (bits.getLsbD 31)) := by
  rw [floatValue, ← widen_bfloat16, Format.tiny_widen_iff (F := bfloat16) (d := 15) (by decide)]
  generalize bits.toNat % 2 ^ 31 = m
  generalize mode.under (bits.getLsbD 31) = under
  have hbound : 0x7f8000 < tinyBelow under ∧ tinyBelow under ≤ 0x800000 := by cases under <;> decide
  have haway : ∀ r < 2 ^ 15, (under.AwayParts True 14 r ↔ tinyBelow under ≤ 0x7f8000 + r) := by
    intro r hr
    cases under <;> simp only [Mode.AwayParts, tinyBelow, and_true, false_iff] <;> omega
  simp only [Mode.away_div_iff True 14, show bfloat16.lastTiny 15 = 0x7f8000 from rfl,
    show 2 ^ (bfloat16.fraction + 1) * 2 ^ 15 = 0x800000 from rfl]
  constructor
  · rintro ⟨hlt, hnot⟩
    by_contra hge
    rw [Nat.not_lt] at hge
    exact hnot (m - 0x7f8000) (by omega) ((haway _ (by omega)).2 (by omega))
  · intro hlt
    refine ⟨by omega, fun r hr h => ?_⟩
    have hle := (haway r (by omega)).1 h
    omega

/-- A number that is not tiny after rounding is rounded to a normal one. -/
theorem le_rounded_of_not_tiny (htiny : ¬ bfloat16.Tiny mode (floatValue bits)) :
    0x80 ≤ rounded mode bits := by
  rw [tiny_iff, Nat.not_lt] at htiny
  rw [rounded]
  by_cases hnormal : 0x80 ≤ cut bits
  · omega
  · have hadd := cut_add_rest bits
    have hlt := rest_lt bits
    -- the last number below, and more than half of the way to the next
    have haway : (mode.under (bits.getLsbD 31)).AwayParts (Odd (cut bits)) 15 (rest bits) ∧
        cut bits = 0x7f := by
      revert htiny
      generalize mode.under (bits.getLsbD 31) = under
      intro htiny
      have hcut : cut bits = 0x7f := by cases under <;> simp only [tinyBelow] at htiny <;> omega
      refine ⟨?_, hcut⟩
      cases under <;> simp only [tinyBelow] at htiny <;> simp only [Mode.AwayParts] <;> omega
    rw [← increments_iff] at haway
    rw [if_pos haway.1, haway.2]

/-- Flags do not overlap. -/
theorem flags_and (precise overflows underflows : Bool) {fflags : BitVec 32}
    (h : fflags = (if precise then 0 else kInexact) |||
      ((if overflows then kOverflow else 0) ||| if underflows then kUnderflow else 0)) :
    fflags &&& kInvalidOp = 0 ∧ (fflags &&& kOverflow ≠ 0 ↔ overflows) ∧
    (fflags &&& kInexact ≠ 0 ↔ ¬ precise) ∧
      (fflags &&& kUnderflow ≠ 0 ↔ underflows) ∧
      fflags &&& ~~~(kInvalidOp ||| kOverflow ||| kInexact ||| kUnderflow) = 0 := by
  subst h
  revert precise overflows underflows
  decide

/-- The flags of a number that is cut, one by one. -/
theorem cutFlags_and (underflow : Bool) (mode : Mode) (bits : BitVec 32) :
    cutFlags underflow mode bits &&& kInvalidOp = 0 ∧
    (cutFlags underflow mode bits &&& kOverflow ≠ 0 ↔ rest bits ≠ 0 ∧ rounded mode bits = 0x7f80) ∧
    (cutFlags underflow mode bits &&& kInexact ≠ 0 ↔ rest bits ≠ 0) ∧
    (cutFlags underflow mode bits &&& kUnderflow ≠ 0 ↔
      underflow ∧ rest bits ≠ 0 ∧ rounded mode bits < 0x80) ∧
    cutFlags underflow mode bits &&& ~~~(kInvalidOp ||| kOverflow ||| kInexact ||| kUnderflow) =
      0 := by
  obtain ⟨hinvalid, hover, hinexact, hunder, hothers⟩ := flags_and (decide (rest bits = 0))
    (decide (rest bits ≠ 0 ∧ rounded mode bits = 0x7f80))
    (decide (underflow ∧ rest bits ≠ 0 ∧ rounded mode bits < 0x80))
    (show cutFlags underflow mode bits = _ by simp only [decide_eq_true_iff]; rfl)
  simp only [decide_eq_true_iff] at hover hinexact hunder
  exact ⟨hinvalid, hover, hinexact, hunder, hothers⟩

/-- **When the flags of one kind are right.** -/
theorem flagsRight_narrowFlags_iff {underflow : Bool} :
    FlagsRight mode bits (narrowFlags underflow mode bits) ↔
      FloatIsNaN bits ∨ rest bits = 0 ∨
        (bfloat16.Tiny mode (floatValue bits) ↔ underflow ∧ rounded mode bits < 0x80) := by
  by_cases hnan : FloatIsNaN bits
  · refine iff_of_true ?_ (Or.inl hnan)
    have hinexact : ¬ Inexact bits := fun h => h.1 hnan
    have hover : ¬ (FloatIsFinite bits ∧ bfloat16.Overflows mode (floatValue bits)) := fun h =>
      (overflows_iff.1 h).1 hnan
    rw [narrowFlags, if_pos hnan]
    split
    next hsignalling =>
      exact ⟨iff_of_true (by decide) hsignalling, iff_of_false (by decide) hover,
        iff_of_false (by decide) hinexact,
        iff_of_false (by decide) fun h => hinexact h.1, by decide⟩
    next hquiet =>
      exact ⟨iff_of_false (by decide) hquiet, iff_of_false (by decide) hover,
        iff_of_false (by decide) hinexact,
        iff_of_false (by decide) fun h => hinexact h.1, by decide⟩
  · obtain ⟨hinvalid, hover, hinexact, hunder, hothers⟩ :=
      cutFlags_and underflow mode bits
    rw [narrowFlags, if_neg hnan]
    constructor
    · intro h
      by_cases hrest : rest bits = 0
      · exact Or.inr (Or.inl hrest)
      · have hbits := h.underflow.symm.trans hunder
        rw [inexact_iff_rest, and_iff_right (show _ ∧ _ from ⟨hnan, hrest⟩)] at hbits
        refine Or.inr (Or.inr (hbits.trans ?_))
        rw [and_iff_right (show rest bits ≠ 0 from hrest)]
    · intro h
      refine ⟨iff_of_false (fun hne => hne hinvalid) fun hsignalling => hnan hsignalling.1, ?_, ?_,
        ?_, hothers⟩
      · rw [hover, overflows_iff, and_iff_right hnan]
      · rw [hinexact, inexact_iff_rest, and_iff_right hnan]
      · rw [hunder, inexact_iff_rest, and_iff_right hnan]
        rcases h.resolve_left hnan with hrest | htiny
        · exact iff_of_false (fun h => h.2.1 hrest) fun h => h.1 hrest
        · rw [htiny]
          exact and_left_comm

/-- The kinds differ for subnormal results only. -/
theorem narrowFlags_eq (h : FloatIsNaN bits ∨ rest bits = 0 ∨ 0x80 ≤ rounded mode bits) :
    narrowFlags true mode bits = narrowFlags false mode bits := by
  rw [narrowFlags, narrowFlags]
  split
  next => rfl
  next hnan =>
    have hnone : ¬ (rest bits ≠ 0 ∧ rounded mode bits < 0x80) := by
      rintro ⟨hrest, hlt⟩
      rcases h.resolve_left hnan with hzero | hle
      · exact hrest hzero
      · exact absurd hlt hle.not_gt
    simp only [cutFlags, hnone, and_false, if_false]

/-- The low half of a single is cut off. -/
theorem low_eq_zero_iff : bits &&& 0xffff = 0 ↔ rest bits = 0 := by
  rw [← BitVec.toNat_inj, toNat_and_field (k := 16) (i := 0) rfl, rest]
  simp

/-- **The flags of all three are the same and right** if and only if the single is a NaN, is a
bfloat16, or is not tiny after rounding. -/
theorem conversions_flagsRight_iff {instRm : BitVec 32} {fpState : RiscVFPState}
    {state : FloatState} (hstate : state.rvFp = some fpState) (hfs : state.fs ≠ 0)
    (hmode : effectiveMode instRm fpState = some mode) (bits : BitVec 32) :
    (∃ fflags, FlagsRight mode bits fflags ∧
      ∀ convert ∈ [fcvtbf16s, M3.fcvtBf16S, Zfbfmin.fcvtBf16S], ∃ fd,
        convert (boxed bits) instRm state = .done fd fflags) ↔
      FloatIsNaN bits ∨ bits &&& 0xffff = 0 ∨
        tinyBelow (mode.under (bits.getLsbD 31)) ≤ bits.toNat % 2 ^ 31 := by
  rw [low_eq_zero_iff]
  constructor
  · rintro ⟨fflags, hright, hall⟩
    obtain ⟨fd, hdone⟩ := hall fcvtbf16s (List.mem_cons_self ..)
    rw [fcvtbf16s_eq hstate hmode, getNaNBoxedSource_boxed] at hdone
    obtain ⟨-, rfl⟩ := FcvtOutcome.done.inj hdone
    refine (flagsRight_narrowFlags_iff.1 hright).imp_right (Or.imp_right fun htiny => ?_)
    rw [tiny_iff] at htiny
    exact Nat.not_lt.1 fun hlt => absurd (htiny.1 hlt).1 Bool.false_ne_true
  · intro h
    have htiny : tinyBelow (mode.under (bits.getLsbD 31)) ≤ bits.toNat % 2 ^ 31 →
        ¬ bfloat16.Tiny mode (floatValue bits) :=
          fun hle hsmall => absurd (tiny_iff.1 hsmall) hle.not_gt
    have hsame :=
      narrowFlags_eq (h.imp_right (Or.imp_right fun hle => le_rounded_of_not_tiny (htiny hle)))
    refine ⟨narrowFlags false mode bits,
      flagsRight_narrowFlags_iff.2 (h.imp_right (Or.imp_right fun hle => ?_)),
      fun convert hmem => ?_⟩
    · exact iff_of_false (htiny hle) fun h => Bool.false_ne_true h.1
    · simp only [List.mem_cons, List.not_mem_nil, or_false] at hmem
      rcases hmem with rfl | rfl | rfl
      · exact ⟨_, by rw [fcvtbf16s_eq hstate hmode, getNaNBoxedSource_boxed]⟩
      · exact ⟨_, by rw [M3.fcvtBf16S_eq hstate hfs hmode, getNaNBoxedSource_boxed, hsame]⟩
      · exact ⟨_, by rw [Zfbfmin.fcvtBf16S_eq hstate hfs hmode, getNaNBoxedSource_boxed, hsame]⟩

/-- A third, through `frm`. -/
theorem conversions_flagsRight_third : ∃ fflags, FlagsRight .up 0x3eaaaaab fflags ∧
    ∀ convert ∈ [fcvtbf16s, M3.fcvtBf16S, Zfbfmin.fcvtBf16S], ∃ fd,
      convert (boxed 0x3eaaaaab) kDynamic ⟨3, some ⟨kRoundUp, true⟩⟩ = .done fd fflags :=
  (conversions_flagsRight_iff rfl (by decide) (by decide) 0x3eaaaaab).2 (by decide)

/-- **The smallest single**: rounded to the nearest bfloat16, it should raise underflow. -/
theorem conversions_not_flagsRight : ¬ ∃ fflags, FlagsRight .nearestEven 1 fflags ∧
    ∀ convert ∈ [fcvtbf16s, M3.fcvtBf16S, Zfbfmin.fcvtBf16S], ∃ fd,
      convert (boxed 1) kRoundToNearest ⟨3, some ⟨kRoundToNearest, true⟩⟩ = .done fd fflags := by
  rintro ⟨fflags, hright, hall⟩
  obtain ⟨fd, hdone⟩ := hall fcvtbf16s (List.mem_cons_self ..)
  rw [fcvtbf16s_eq rfl (show effectiveMode kRoundToNearest _ = some .nearestEven by decide),
    getNaNBoxedSource_boxed] at hdone
  obtain ⟨-, rfl⟩ := FcvtOutcome.done.inj hdone
  rcases flagsRight_narrowFlags_iff.1 hright with hnan | hrest | htiny
  · exact absurd hnan (by decide)
  · exact absurd hrest (by decide)
  · exact Bool.false_ne_true (htiny.1 (tiny_iff.2 (by decide))).1

end Flags

end CoralNpu
