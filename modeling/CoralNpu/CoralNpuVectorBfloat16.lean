/-
**The vector conversions of bfloat16.**

`Vfwcvtbf16ffv` and `Vfncvtbf16ffw` of the M3 instructions convert the active elements of a group of
registers.  The groups have elements of different widths, so that an index is a register and a lane
in two ways.  A destination register is copied, changed lane by lane, and submitted when the loop
comes to the next.  Nothing compares `vl` with the groups: where `vtype` has elements of 8 bits,
there are more than they hold.

Main definitions:

* `CoralNpu.M3.convertLoop` — the loop over the elements;
* `CoralNpu.M3.vfwcvtbf16ffv`, `CoralNpu.M3.vfncvtbf16ffw` — the instructions;
* `CoralNpu.MeetsContract` — they trap, or convert the active elements and nothing else;
* `CoralNpu.InGroups` — the elements up to `vl` are in the groups.

Main results:

* `CoralNpu.M3.convertLoop_eq` — **what the loop does**, and when it leaves the groups;
* `CoralNpu.meetsContract_convertLoop_iff` — the loop does what it should if it stays in the groups;
* `CoralNpu.M3.conversions_meet_contract_iff` — **when the instructions do what they should**;
* `CoralNpu.inGroups_of_sew16` — with elements of 16 bits they do.
-/

import CoralNpu.CoralNpuBfloat16Widen
import CoralNpu.Lanes
import CoralNpu.Accumulate
import Mathlib.Tactic.IntervalCases

set_option relaxedAutoImplicit false
set_option autoImplicit false

namespace CoralNpu

open Lanes

/-- `kCoralNPUV2VectorByteLength`. -/
def kCoralNPUV2VectorByteLength : ℕ := 16

/-- A vector register. -/
abbrev VectorRegister := BitVec (8 * kCoralNPUV2VectorByteLength)

/-- The number of elements with `w` bits in a register. -/
def elementsPerVector (w : ℕ) : ℕ := 8 * kCoralNPUV2VectorByteLength / w

/-- The lanes fill a register. -/
def FillsRegister (w : ℕ) : Prop := elementsPerVector w * w = 8 * kCoralNPUV2VectorByteLength

theorem FillsRegister.pos {dw : ℕ} (hdw : FillsRegister dw) : 0 < elementsPerVector dw :=
  Nat.pos_of_ne_zero fun h => by
  rw [FillsRegister, h, Nat.zero_mul] at hdw
  exact absurd hdw (by decide)

theorem FillsRegister.lane_le {dw : ℕ} (hdw : FillsRegister dw) {l : ℕ}
    (hl : l < elementsPerVector dw) :
    l * dw + dw ≤ 8 * kCoralNPUV2VectorByteLength := by
  rw [← hdw, ← Nat.succ_mul]
  exact Nat.mul_le_mul_right _ hl

/-- The registers of an operand. -/
structure RegisterGroup where
  base : ℕ
  size : ℕ
  size_pos : 0 < size
  size_le : size ≤ 16
  fits : base + size ≤ 32

/-- The mask operand: the text of `AsString`, and its register. -/
structure VmOperand where
  name : String
  register : ℕ

/-- The operands of a conversion; those of a register that a group cannot start with are missing. -/
structure ConvertOperands where
  vd : Option RegisterGroup
  vs2 : Option RegisterGroup
  vm : Option VmOperand

/-- What a conversion reads and writes: the registers, the flags, `vstart`, `vl`, `vtype`, the
fields `fs` and `vs` of `mstatus`, the rounding mode, and `frm`. -/
structure VectorFpState where
  file : ℕ → VectorRegister
  fflags : BitVec 32
  vstart : ℕ
  vectorLength : ℕ
  vtype : BitVec 32
  fs : BitVec 2
  vs : BitVec 2
  rvFp : RiscVFPState
  frm : BitVec 32

/-- A conversion traps, or writes registers, flags and `vstart`. -/
inductive ConvertOutcome where
  | trap
  | done (file : ℕ → VectorRegister) (fflags : BitVec 32) (vstart : ℕ)

namespace RegisterGroup

/-- The register of an element. -/
def register (g : RegisterGroup) (w i : ℕ) : ℕ := g.base + i / elementsPerVector w

/-- The bits of an element. -/
def bits (g : RegisterGroup) (w : ℕ) (file : ℕ → VectorRegister) (i : ℕ) : BitVec w :=
  lane w (file (g.register w i)) (i % elementsPerVector w)

/-- `GetInstructionSource`; nothing is defined for an element behind the last register. -/
def element (g : RegisterGroup) (w : ℕ) (file : ℕ → VectorRegister) (i : ℕ) : Option (BitVec w) :=
  if i / elementsPerVector w < g.size then some (g.bits w file i) else none

/-- A register is one of the group. -/
def Contains (g : RegisterGroup) (reg : ℕ) : Prop := g.base ≤ reg ∧ reg < g.base + g.size

instance (g : RegisterGroup) : DecidablePred g.Contains :=
  fun _ => inferInstanceAs (Decidable (_ ∧ _))

/-- The groups have a register in common, as the M3 instructions look for it. -/
def Overlaps (vd vs2 : RegisterGroup) : Prop :=
  ∃ i < vd.size, ∃ j < vs2.size, vd.base + i = vs2.base + j

instance (vd vs2 : RegisterGroup) : Decidable (vd.Overlaps vs2) :=
  inferInstanceAs (Decidable (∃ i < vd.size, ∃ j < vs2.size, vd.base + i = vs2.base + j))

end RegisterGroup

/-! ### The elements that are converted -/

section Where

variable {sw dw : ℕ} {vd vs2 : RegisterGroup} {value : BitVec sw → BitVec dw}
    {file : ℕ → VectorRegister} {k : ℕ}

/-- An index is a register and a lane. -/
theorem index_eq_iff (hpos : 0 < elementsPerVector dw) {reg l : ℕ} (hreg : vd.base ≤ reg)
    (hl : l < elementsPerVector dw) : (reg - vd.base) * elementsPerVector dw + l = k ↔
      reg = vd.register dw k ∧ l = k % elementsPerVector dw := by
  constructor
  · rintro rfl
    rw [RegisterGroup.register, Nat.mul_comm, Nat.mul_add_div hpos, Nat.div_eq_of_lt hl,
      Nat.add_zero, Nat.mul_add_mod, Nat.mod_eq_of_lt hl]
    exact ⟨by omega, rfl⟩
  · rintro ⟨rfl, rfl⟩
    rw [RegisterGroup.register, Nat.add_sub_cancel_left, Nat.mul_comm, Nat.div_add_mod]

/-- The element of a register and a lane. -/
theorem bits_index (hdw : FillsRegister dw) {reg l : ℕ} (hreg : vd.base ≤ reg)
    (hl : l < elementsPerVector dw) :
    vd.bits dw file ((reg - vd.base) * elementsPerVector dw + l) = lane dw (file reg) l := by
  have hplace :=
    (index_eq_iff (k := (reg - vd.base) * elementsPerVector dw + l) hdw.pos hreg hl).1 rfl
  rw [RegisterGroup.bits, ← hplace.1, ← hplace.2]

/-- The registers after these elements have been converted. -/
def convertedWhere (vd vs2 : RegisterGroup) (value : BitVec sw → BitVec dw)
    (file : ℕ → VectorRegister) (P : ℕ → Prop) [DecidablePred P] (reg : ℕ) : VectorRegister :=
  if vd.Contains reg then
    ofLanes _ dw fun l =>
      let i := (reg - vd.base) * elementsPerVector dw + l
      if P i then value (vs2.bits sw file i) else lane dw (file reg) l
  else file reg

variable {P Q : ℕ → Prop} [DecidablePred P] [DecidablePred Q]

theorem lane_convertedWhere (hdw : FillsRegister dw) {reg l : ℕ} (hreg : vd.Contains reg)
    (hl : l < elementsPerVector dw) :
    lane dw (convertedWhere vd vs2 value file P reg) l =
      if P ((reg - vd.base) * elementsPerVector dw + l) then
        value (vs2.bits sw file ((reg - vd.base) * elementsPerVector dw + l))
      else vd.bits dw file ((reg - vd.base) * elementsPerVector dw + l) := by
  rw [convertedWhere, if_pos hreg, lane_ofLanes _ (hdw.lane_le hl), bits_index hdw hreg.1 hl]

/-- The elements of the group then. -/
theorem bits_convertedWhere (hdw : FillsRegister dw) {i : ℕ}
    (hi : i / elementsPerVector dw < vd.size) :
    vd.bits dw (convertedWhere vd vs2 value file P) i =
      if P i then value (vs2.bits sw file i) else vd.bits dw file i := by
  have hcontains : vd.Contains (vd.register dw i) := ⟨Nat.le_add_right .., Nat.add_lt_add_left hi _⟩
  have hmod := Nat.mod_lt i hdw.pos
  have hindex : (vd.register dw i - vd.base) * elementsPerVector dw +
      i % elementsPerVector dw = i :=
    (index_eq_iff hdw.pos hcontains.1 hmod).2 ⟨rfl, rfl⟩
  rw [RegisterGroup.bits, lane_convertedWhere hdw hcontains hmod, hindex]

/-- **When converting different elements makes no difference.** -/
theorem convertedWhere_eq_iff (hdw : FillsRegister dw) :
    convertedWhere vd vs2 value file P = convertedWhere vd vs2 value file Q ↔
      ∀ i < vd.size * elementsPerVector dw,
      (P i ↔ Q i) ∨ value (vs2.bits sw file i) = vd.bits dw file i := by
  constructor
  · intro h i hi
    have hreg : i / elementsPerVector dw < vd.size := Nat.div_lt_of_lt_mul (by rwa [Nat.mul_comm])
    have hbits := congrArg (fun f => vd.bits dw f i) h
    simp only [bits_convertedWhere hdw hreg] at hbits
    by_cases hP : P i
    · by_cases hQ : Q i
      · exact Or.inl (iff_of_true hP hQ)
      · rw [if_pos hP, if_neg hQ] at hbits
        exact Or.inr hbits
    · by_cases hQ : Q i
      · rw [if_neg hP, if_pos hQ] at hbits
        exact Or.inr hbits.symm
      · exact Or.inl (iff_of_false hP hQ)
  · intro h
    funext reg
    by_cases hreg : vd.Contains reg
    · refine ext_of_lanes hdw fun l hl => ?_
      rw [lane_convertedWhere hdw hreg hl, lane_convertedWhere hdw hreg hl]
      have hi : (reg - vd.base) * elementsPerVector dw + l < vd.size * elementsPerVector dw := by
        have hle : (reg - vd.base + 1) * elementsPerVector dw ≤ vd.size * elementsPerVector dw :=
          Nat.mul_le_mul_right _ (by have := hreg.1; have := hreg.2; omega)
        rw [Nat.succ_mul] at hle
        omega
      rcases h _ hi with hiff | hsame
      · exact if_congr hiff rfl rfl
      · rw [hsame, ite_self, ite_self]
    · rw [convertedWhere, convertedWhere, if_neg hreg, if_neg hreg]

/-- Nothing is converted. -/
theorem convertedWhere_none (hdw : FillsRegister dw) (h : ∀ i, ¬ P i) :
    convertedWhere vd vs2 value file P = file := by
  funext reg
  rw [convertedWhere]
  split
  next hreg =>
    refine ext_of_lanes hdw fun l hl => ?_
    rw [lane_ofLanes _ (hdw.lane_le hl), if_neg (h _)]
  next => rfl

end Where

namespace M3

/-- The state of the loop: the registers, `last_reg`, which is missing before the first turn, the
buffer of the destination, the flags, and whether the buffer of the mask has been given back. -/
structure LoopState where
  file : ℕ → VectorRegister
  lastReg : Option ℕ
  destDb : VectorRegister
  fflags : BitVec 32
  maskReleased : Bool

section Loop

variable {sw dw : ℕ} (vd vs2 : RegisterGroup) (mask : Option ℕ)
  (convert : BitVec sw → BitVec 32 → BitVec dw × BitVec 32)

/-- The registers after the buffer is submitted. -/
def submit (s : LoopState) : ℕ → VectorRegister :=
  match s.lastReg with
  | none => s.file
  | some reg => Function.update s.file (vd.base + reg) s.destDb

/-- The loop comes to a register. -/
def switchTo (reg : ℕ) (s : LoopState) : LoopState :=
  if s.lastReg = some reg then s
  else
    { s with
      file := submit vd s
      lastReg := some reg
      destDb := submit vd s (vd.base + reg)
      -- the buffer that the mask is read from goes with the register
      maskReleased := s.maskReleased ||
        decide (∃ last ∈ s.lastReg, mask = some (vd.base + last)) }

/-- `mask_value`, of the registers before the loop; nothing is defined after the buffer is given
back. -/
def maskValue (file : ℕ → VectorRegister) (s : LoopState) (vectorIndex : ℕ) : Option Bool :=
  match mask with
  | none => some true
  | some reg => if s.maskReleased then none else some ((file reg).getLsbD vectorIndex)

/-- A turn of the loop. -/
def convertStep (file : ℕ → VectorRegister) (s : LoopState) (vectorIndex : ℕ) : Option LoopState :=
  let reg := vectorIndex / elementsPerVector dw
  let i := vectorIndex % elementsPerVector dw
  if reg < vd.size then
    let s := switchTo vd mask reg s
    (maskValue mask file s vectorIndex).bind fun value =>
      if value then
        (vs2.element sw s.file vectorIndex).map fun x =>
          let (result, fflags) := convert x s.fflags
          { s with destDb := setLane dw s.destDb i result, fflags := fflags }
      else some s
  else none

/-- The loop, and the last `Submit`. -/
def convertLoop (file : ℕ → VectorRegister) (vstart vl : ℕ) :
    Option ((ℕ → VectorRegister) × BitVec 32) :=
  ((List.range' vstart (vl - vstart)).foldlM (convertStep vd vs2 mask convert file)
    ⟨file, none, 0, 0, false⟩).map fun s => (submit vd s, s.fflags)

end Loop

/-- The register of the mask, if there is one. -/
def maskRegister (inst : ConvertOperands) : Option ℕ :=
  inst.vm.bind fun vm =>
    if vm.name ≠ "" ∧ vm.name ≠ "__VectorTrue__" then some vm.register else none

/-- `Vfwcvtbf16ffv`. -/
def vfwcvtbf16ffv (inst : ConvertOperands) (state : VectorFpState) : Option ConvertOutcome :=
  if ¬ (state.fs ≠ 0 ∧ state.vs ≠ 0) then some .trap
  else
    match inst.vd, inst.vs2 with
    | some vd, some vs2 =>
        if vd.Overlaps vs2 then some .trap
        else
          let convert (bf16 : BitVec 16) (fflags : BitVec 32) : BitVec 32 × BitVec 32 :=
            let conv := convertBF16ToF32Precise bf16
            (conv.1, fflags ||| conv.2)
          (convertLoop vd vs2 (maskRegister inst) convert state.file state.vstart
            state.vectorLength).map fun (file, fflags) =>
              .done file (if fflags ≠ 0 then state.fflags ||| fflags else state.fflags) 0
    | _, _ => some .trap

/-- `Vfncvtbf16ffw`. -/
def vfncvtbf16ffw (inst : ConvertOperands) (state : VectorFpState) : Option ConvertOutcome :=
  if ¬ (state.fs ≠ 0 ∧ state.vs ≠ 0) then some .trap
  else
    match inst.vd, inst.vs2 with
    | some vd, some vs2 =>
        if ¬ state.rvFp.roundingModeValid then some .trap
        else if vd.Overlaps vs2 then some .trap
        else
          let rm := state.rvFp.getRoundingMode
          let convert (bits fflags : BitVec 32) := convertF32ToBF16 bits rm (some state.rvFp) fflags
          (convertLoop vd vs2 (maskRegister inst) convert state.file state.vstart
            state.vectorLength).map fun (file, fflags) => .done file (state.fflags ||| fflags) 0
    | _, _ => some .trap

/-! ### The elements that are written -/

/-- The mask is active for an element. -/
def MaskActive (mask : Option ℕ) (file : ℕ → VectorRegister) (i : ℕ) : Prop :=
  ∀ reg ∈ mask, (file reg).getLsbD i = true

instance (mask : Option ℕ) (file : ℕ → VectorRegister) : DecidablePred (MaskActive mask file) :=
  fun i =>
  inferInstanceAs (Decidable (∀ reg ∈ mask, (file reg).getLsbD i = true))

section Written

variable {sw dw : ℕ} (vd vs2 : RegisterGroup) (mask : Option ℕ)
  (value : BitVec sw → BitVec dw)

/-- The registers after the elements from `vstart` up to `k` have been converted. -/
def written (file : ℕ → VectorRegister) (vstart k : ℕ) : ℕ → VectorRegister :=
  convertedWhere vd vs2 value file fun i => vstart ≤ i ∧ i < k ∧ MaskActive mask file i

variable {vd vs2 mask value} {file : ℕ → VectorRegister} {vstart k : ℕ}

theorem lane_written (hdw : FillsRegister dw) {reg l : ℕ} (hreg : vd.Contains reg)
    (hl : l < elementsPerVector dw) :
    lane dw (written vd vs2 mask value file vstart k reg) l =
      if vstart ≤ (reg - vd.base) * elementsPerVector dw + l ∧
          (reg - vd.base) * elementsPerVector dw + l < k ∧
          MaskActive mask file ((reg - vd.base) * elementsPerVector dw + l) then
        value (vs2.bits sw file ((reg - vd.base) * elementsPerVector dw + l))
      else vd.bits dw file ((reg - vd.base) * elementsPerVector dw + l) :=
  lane_convertedWhere hdw hreg hl

theorem written_of_not_contains {reg : ℕ} (hreg : ¬ vd.Contains reg) :
    written vd vs2 mask value file vstart k reg = file reg := if_neg hreg

theorem written_zero (hdw : FillsRegister dw) (hk : k ≤ vstart) :
    written vd vs2 mask value file vstart k = file :=
  convertedWhere_none hdw fun _ hi => absurd (hi.1.trans_lt hi.2.1) hk.not_gt

/-- A lane of the registers with one lane of one of them replaced. -/
theorem lane_update {f : ℕ → VectorRegister} {r i reg l : ℕ} (v : BitVec dw)
    (hl : l * dw + dw ≤ 8 * kCoralNPUV2VectorByteLength) :
    lane dw (Function.update f r (setLane dw (f r) i v) reg) l =
      if reg = r ∧ l = i then v else lane dw (f reg) l := by
  rcases eq_or_ne reg r with rfl | hne
  · simp only [Function.update_self, lane_setLane _ _ hl, true_and]
  · rw [Function.update_of_ne hne, if_neg fun h => hne h.1]

/-- One more element. -/
theorem written_succ (vs2 : RegisterGroup) (mask : Option ℕ) (value : BitVec sw → BitVec dw)
    (file : ℕ → VectorRegister) (hdw : FillsRegister dw) (hk : vstart ≤ k)
    (hreg : k / elementsPerVector dw < vd.size) :
    written vd vs2 mask value file vstart (k + 1) =
      if MaskActive mask file k then
        Function.update (written vd vs2 mask value file vstart k) (vd.register dw k)
          (setLane dw (written vd vs2 mask value file vstart k (vd.register dw k))
            (k % elementsPerVector dw)
            (value (vs2.bits sw file k)))
      else written vd vs2 mask value file vstart k := by
  have hcontains : vd.Contains (vd.register dw k) :=
    ⟨Nat.le_add_right .., Nat.add_lt_add_left hreg _⟩
  split
  next hmask =>
    funext reg
    by_cases hreg' : vd.Contains reg
    · refine ext_of_lanes hdw fun l hl => ?_
      have hplace := index_eq_iff (k := k) hdw.pos hreg'.1 hl
      rw [lane_update _ (hdw.lane_le hl), lane_written hdw hreg' hl, lane_written hdw hreg' hl]
      by_cases heq : (reg - vd.base) * elementsPerVector dw + l = k
      · rw [if_pos (hplace.1 heq), heq, if_pos ⟨hk, Nat.lt_succ_self k, hmask⟩]
      · rw [if_neg fun h => heq (hplace.2 h)]
        exact if_congr (and_congr_right fun _ => and_congr_left fun _ => by omega) rfl rfl
    · have hne : reg ≠ vd.register dw k := fun h => hreg' (by rw [h]; exact hcontains)
      rw [Function.update_of_ne hne, written_of_not_contains hreg', written_of_not_contains hreg']
  next hmask =>
    funext reg
    by_cases hreg' : vd.Contains reg
    · refine ext_of_lanes hdw fun l hl => ?_
      rw [lane_written hdw hreg' hl, lane_written hdw hreg' hl]
      by_cases heq : (reg - vd.base) * elementsPerVector dw + l = k
      · rw [heq, if_neg fun h => hmask h.2.2, if_neg fun h => hmask h.2.2]
      · exact if_congr (and_congr_right fun _ => and_congr_left fun _ => by omega) rfl rfl
    · rw [written_of_not_contains hreg', written_of_not_contains hreg']

end Written

/-! ### The loop -/

section Run

variable {sw dw : ℕ} {vd vs2 : RegisterGroup} {mask : Option ℕ}
  {convert : BitVec sw → BitVec 32 → BitVec dw × BitVec 32}
  {value : BitVec sw → BitVec dw} {flags : BitVec sw → BitVec 32}
  {file : ℕ → VectorRegister} {vstart k : ℕ} {s : LoopState}

/-- The buffer of the mask is given back before a turn. -/
def ReleasedAt (dw : ℕ) (vd : RegisterGroup) (mask : Option ℕ) (vstart i : ℕ) : Prop :=
  ∃ reg ∈ mask, vd.register dw vstart ≤ reg ∧ reg < vd.register dw i

/-- A turn stays in the groups, and the mask can be read. -/
structure TurnDefined (sw dw : ℕ) (vd vs2 : RegisterGroup) (mask : Option ℕ)
    (file : ℕ → VectorRegister) (vstart i : ℕ) : Prop where
  destination : i / elementsPerVector dw < vd.size
  readable : ¬ ReleasedAt dw vd mask vstart i
  source : MaskActive mask file i → i / elementsPerVector sw < vs2.size

/-- What holds before turn `k` of the loop. -/
structure LoopInv (vd vs2 : RegisterGroup) (mask : Option ℕ) (value : BitVec sw → BitVec dw)
    (flags : BitVec sw → BitVec 32) (file : ℕ → VectorRegister) (vstart k : ℕ) (s : LoopState) :
    Prop where
  submitted : submit vd s = written vd vs2 mask value file vstart k
  outside : ∀ reg, ¬ vd.Contains reg → s.file reg = file reg
  last : s.lastReg = if k = vstart then none else some ((k - 1) / elementsPerVector dw)
  released : s.maskReleased = true ↔ vstart < k ∧ ReleasedAt dw vd mask vstart (k - 1)
  raised : ∀ b, s.fflags.getLsbD b = true ↔
    ∃ i, vstart ≤ i ∧ i < k ∧ MaskActive mask file i ∧ (flags (vs2.bits sw file i)).getLsbD b = true

theorem loopInv_init (hdw : FillsRegister dw) :
    LoopInv vd vs2 mask value flags file vstart vstart ⟨file, none, 0, 0, false⟩ where
  submitted := (written_zero hdw le_rfl).symm
  outside _ _ := rfl
  last := (if_pos rfl).symm
  released := iff_of_false Bool.false_ne_true fun h => absurd h.1 (lt_irrefl _)
  raised b := iff_of_false (by simp) fun ⟨i, hle, hlt, _⟩ => absurd hlt hle.not_gt

/-- The invariant of the next turn. -/
theorem LoopInv.succ (h : LoopInv vd vs2 mask value flags file vstart k s) (hk : vstart ≤ k)
    {s' : LoopState} (hsubmitted : submit vd s' = written vd vs2 mask value file vstart (k + 1))
    (houtside : ∀ reg, ¬ vd.Contains reg → s'.file reg = file reg)
    (hlast : s'.lastReg = some (k / elementsPerVector dw))
    (hreleased : s'.maskReleased = true ↔ ReleasedAt dw vd mask vstart k)
    (hraised : ∀ b, s'.fflags.getLsbD b = true ↔ s.fflags.getLsbD b = true ∨
      MaskActive mask file k ∧ (flags (vs2.bits sw file k)).getLsbD b = true) :
    LoopInv vd vs2 mask value flags file vstart (k + 1) s' where
  submitted := hsubmitted
  outside := houtside
  last := by rw [hlast, if_neg (by omega), Nat.add_sub_cancel]
  released := by
    rw [hreleased, Nat.add_sub_cancel]
    exact (and_iff_right (by omega)).symm
  raised b := by
    rw [hraised, h.raised]
    constructor
    · rintro (⟨i, hle, hlt, hi⟩ | hi)
      · exact ⟨i, hle, by omega, hi⟩
      · exact ⟨k, hk, Nat.lt_succ_self k, hi⟩
    · rintro ⟨i, hle, hlt, hi⟩
      rcases Nat.lt_succ_iff_lt_or_eq.1 hlt with hlt | rfl
      · exact Or.inl ⟨i, hle, hlt, hi⟩
      · exact Or.inr hi

/-- Coming to a register changes nothing that is submitted. -/
theorem switchTo_submit (vd : RegisterGroup) (mask : Option ℕ) (s : LoopState) (reg : ℕ) :
    submit vd (switchTo vd mask reg s) = submit vd s ∧ (switchTo vd mask reg s).lastReg = some reg ∧
      (switchTo vd mask reg s).destDb = submit vd s (vd.base + reg) ∧
      (switchTo vd mask reg s).fflags = s.fflags := by
  rw [switchTo]
  split
  next h => exact ⟨rfl, h, by simp only [submit, h, Function.update_self], rfl⟩
  next h => exact ⟨Function.update_eq_self .., rfl, rfl, rfl⟩

theorem LoopInv.switchTo (h : LoopInv vd vs2 mask value flags file vstart k s) (hk : vstart ≤ k) :
    (∀ reg, ¬ vd.Contains reg →
      (M3.switchTo vd mask (k / elementsPerVector dw) s).file reg = file reg) ∧
    ((M3.switchTo vd mask (k / elementsPerVector dw) s).maskReleased = true ↔
      ReleasedAt dw vd mask vstart k) := by
  have hsubmit : ∀ reg, ¬ vd.Contains reg → submit vd s reg = file reg := fun reg hreg => by
    rw [h.submitted, written_of_not_contains hreg]
  rw [M3.switchTo, h.last]
  rcases hk.eq_or_lt with rfl | hlt
  · rw [if_pos rfl, if_neg (by simp)]
    have hnot : s.maskReleased = false := by
      rw [← Bool.not_eq_true, h.released]
      exact fun hreleased => absurd hreleased.1 (lt_irrefl _)
    refine ⟨hsubmit, iff_of_false ?_ fun ⟨reg, _, hle, hlt⟩ => absurd hlt hle.not_gt⟩
    simp [hnot]
  · obtain ⟨j, rfl⟩ := Nat.exists_eq_add_of_lt hlt
    have hreleased := h.released
    rw [Nat.add_sub_cancel] at hreleased ⊢
    rw [and_iff_right (by omega)] at hreleased
    rw [if_neg hlt.ne']
    have hsucc := Nat.succ_div (a := vstart + j) (b := elementsPerVector dw)
    split
    next hsame =>
      have hregister : vd.register dw (vstart + j + 1) = vd.register dw (vstart + j) := by
        rw [RegisterGroup.register, RegisterGroup.register, Option.some.inj hsame]
      refine ⟨h.outside, hreleased.trans ?_⟩
      rw [ReleasedAt, ReleasedAt, hregister]
    next hdiffers =>
      have hregister : vd.register dw (vstart + j + 1) = vd.register dw (vstart + j) + 1 := by
        rw [RegisterGroup.register, RegisterGroup.register]
        rw [Option.some_inj] at hdiffers
        split at hsucc <;> omega
      have hle : vd.register dw vstart ≤ vd.register dw (vstart + j) :=
        Nat.add_le_add_left (Nat.div_le_div_right (Nat.le_add_right ..)) _
      refine ⟨hsubmit, ?_⟩
      rw [Bool.or_eq_true, hreleased, decide_eq_true_iff, ReleasedAt, ReleasedAt, hregister]
      constructor
      · rintro (⟨reg, hmask, hreg⟩ | ⟨last, hlast, rfl⟩)
        · exact ⟨reg, hmask, hreg.1, by omega⟩
        · obtain rfl := Option.some.inj hlast
          exact ⟨_, rfl, hle, Nat.lt_succ_self _⟩
      · rintro ⟨reg, hmask, hreg⟩
        rcases Nat.lt_succ_iff_lt_or_eq.1 hreg.2 with hlt | rfl
        · exact Or.inl ⟨reg, hmask, hreg.1, hlt⟩
        · exact Or.inr ⟨_, rfl, hmask⟩

/-- The mask of an element. -/
theorem maskValue_eq (file : ℕ → VectorRegister)
    (hreleased : s.maskReleased = true ↔ ReleasedAt dw vd mask vstart k) :
    (ReleasedAt dw vd mask vstart k → maskValue mask file s k = none) ∧
    (¬ ReleasedAt dw vd mask vstart k →
      maskValue mask file s k = some (decide (MaskActive mask file k))) := by
  cases mask with
  | none =>
      refine ⟨fun ⟨reg, hmask, _⟩ => absurd hmask (by simp), fun _ => ?_⟩
      simp [maskValue, MaskActive]
  | some reg =>
      refine ⟨fun h => if_pos (hreleased.2 h), fun h => ?_⟩
      rw [maskValue, if_neg fun hrel => h (hreleased.1 hrel)]
      simp [MaskActive]

/-- Sources are not written. -/
theorem bits_eq (hdisjoint : ¬ vd.Overlaps vs2) {file' : ℕ → VectorRegister}
    (h : ∀ reg, ¬ vd.Contains reg → file' reg = file reg)
    (hsource : k / elementsPerVector sw < vs2.size) :
    vs2.bits sw file' k = vs2.bits sw file k := by
  have hnot : ¬ vd.Contains (vs2.register sw k) := fun hcontains => by
    have hle := hcontains.1
    have hlt := hcontains.2
    refine hdisjoint ⟨vs2.register sw k - vd.base, by omega, k / elementsPerVector sw, hsource, ?_⟩
    rw [RegisterGroup.register] at hle ⊢
    omega
  rw [RegisterGroup.bits, RegisterGroup.bits, h _ hnot]

/-- **A turn of the loop.** -/
theorem convertStep_spec (hdw : FillsRegister dw) (hdisjoint : ¬ vd.Overlaps vs2)
    (hconvert : ∀ x f, convert x f = (value x, f ||| flags x))
    (h : LoopInv vd vs2 mask value flags file vstart k s) (hk : vstart ≤ k) :
    (TurnDefined sw dw vd vs2 mask file vstart k → ∃ s',
      convertStep vd vs2 mask convert file s k = some s' ∧
        LoopInv vd vs2 mask value flags file vstart (k + 1) s') ∧
    (¬ TurnDefined sw dw vd vs2 mask file vstart k →
      convertStep vd vs2 mask convert file s k = none) := by
  obtain ⟨hsubmit, hlast, hdest, hflags⟩ :=
    switchTo_submit vd mask s (k / elementsPerVector dw)
  obtain ⟨houtside, hreleased⟩ := h.switchTo hk
  obtain ⟨hlost, hkept⟩ := maskValue_eq file hreleased
  rw [h.submitted] at hsubmit hdest
  simp only [convertStep]
  generalize M3.switchTo vd mask (k / elementsPerVector dw) s = s1 at *
  by_cases hreg : k / elementsPerVector dw < vd.size
  swap
  · exact ⟨fun hdefined => absurd hdefined.destination hreg, fun _ => if_neg hreg⟩
  rw [if_pos hreg]
  by_cases hrel : ReleasedAt dw vd mask vstart k
  · exact ⟨fun hdefined => absurd hrel hdefined.readable,
      fun _ => by rw [hlost hrel, Option.bind_none]⟩
  rw [hkept hrel, Option.bind_some]
  have hwritten := written_succ vs2 mask value file hdw hk hreg
  by_cases hactive : MaskActive mask file k
  · rw [if_pos (decide_eq_true hactive), RegisterGroup.element]
    by_cases hsource : k / elementsPerVector sw < vs2.size
    swap
    · exact ⟨fun hdefined => absurd (hdefined.source hactive) hsource,
        fun _ => by rw [if_neg hsource]; rfl⟩
    refine ⟨fun _ => ?_, fun hnot => absurd ⟨hreg, hrel, fun _ => hsource⟩ hnot⟩
    rw [if_pos hsource, bits_eq hdisjoint houtside hsource, Option.map_some, hconvert]
    refine ⟨_, rfl, h.succ hk ?_ houtside hlast hreleased fun b => ?_⟩
    · rw [if_pos hactive] at hwritten
      rw [hwritten, RegisterGroup.register, ← hdest, ← hsubmit, submit, submit]
      simp only [hlast, Function.update_idem]
    · rw [BitVec.getLsbD_or, Bool.or_eq_true, hflags, and_iff_right hactive]
  · rw [if_neg (by simpa using hactive)]
    refine ⟨fun _ => ⟨s1, rfl, h.succ hk ?_ houtside hlast hreleased fun b => ?_⟩,
      fun hnot => absurd ⟨hreg, hrel, fun h => absurd h hactive⟩ hnot⟩
    · rw [if_neg hactive] at hwritten
      rw [hwritten, hsubmit]
    · rw [hflags, or_iff_left fun hi => hactive hi.1]

/-- **What the loop does**, and when it leaves the groups. -/
theorem convertLoop_eq (mask : Option ℕ) (file : ℕ → VectorRegister) (hdw : FillsRegister dw)
    (hdisjoint : ¬ vd.Overlaps vs2) (hconvert : ∀ x f, convert x f = (value x, f ||| flags x))
    (vstart vl : ℕ) :
    ((∀ i, vstart ≤ i → i < vl → TurnDefined sw dw vd vs2 mask file vstart i) → ∃ fflags,
      convertLoop vd vs2 mask convert file vstart vl =
        some (written vd vs2 mask value file vstart vl, fflags) ∧
      ∀ b, fflags.getLsbD b = true ↔ ∃ i, vstart ≤ i ∧ i < vl ∧ MaskActive mask file i ∧
        (flags (vs2.bits sw file i)).getLsbD b = true) ∧
    (¬ (∀ i, vstart ≤ i → i < vl → TurnDefined sw dw vd vs2 mask file vstart i) →
      convertLoop vd vs2 mask convert file vstart vl = none) := by
  obtain ⟨hdone, hleft⟩ := Accumulate.foldlM_range' (loopInv_init hdw)
    (fun k s hk h => convertStep_spec hdw hdisjoint hconvert h hk) (vl - vstart)
  have hend : ∀ {i}, vstart ≤ i → (i < vstart + (vl - vstart) ↔ i < vl) := fun {i} hi => by omega
  have hwritten : written vd vs2 mask value file vstart (vstart + (vl - vstart)) =
      written vd vs2 mask value file vstart vl := by
    rcases Nat.le_total vl vstart with hle | hle
    · rw [written_zero hdw (by omega), written_zero hdw hle]
    · rw [Nat.add_sub_cancel' hle]
  refine ⟨fun hall => ?_, fun hnot => ?_⟩
  · obtain ⟨s, hs, hinv⟩ := hdone fun i hle hlt => hall i hle ((hend hle).1 hlt)
    refine ⟨s.fflags, ?_, fun b => (hinv.raised b).trans ?_⟩
    · rw [convertLoop, hs, Option.map_some, hinv.submitted, hwritten]
    · exact exists_congr fun i => and_congr_right fun hle => and_congr_left fun _ => hend hle
  · rw [convertLoop,
      hleft fun hall => hnot fun i hle hlt => hall i hle ((hend hle).2 hlt), Option.map_none]

end Run

end M3

/-! ### The contract -/

/-- An element that is not masked off, behind `vstart` and before `vl`. -/
def Active (inst : ConvertOperands) (state : VectorFpState) (i : ℕ) : Prop :=
  state.vstart ≤ i ∧ i < state.vectorLength ∧ M3.MaskActive (M3.maskRegister inst) state.file i

/-- **What a conversion should do**: convert the active elements, keep all others, and raise the
flags of the active elements. -/
structure Converts {sw dw : ℕ} (value : BitVec sw → BitVec dw) (flags : BitVec sw → BitVec 32)
    (inst : ConvertOperands) (vd vs2 : RegisterGroup) (state : VectorFpState)
    (file : ℕ → VectorRegister) (fflags : BitVec 32) (vstart : ℕ) : Prop where
  converted : ∀ i, Active inst state i → ∃ x, vs2.element sw state.file i = some x ∧
    vd.element dw file i = some (value x)
  kept : ∀ i, ¬ Active inst state i → vd.element dw file i = vd.element dw state.file i
  others : ∀ reg, ¬ vd.Contains reg → file reg = state.file reg
  raised : ∀ b, fflags.getLsbD b = true ↔ state.fflags.getLsbD b = true ∨
    ∃ i x, Active inst state i ∧ vs2.element sw state.file i = some x ∧ (flags x).getLsbD b = true
  cleared : vstart = 0

/-- It does that, or traps. -/
def MeetsContract {sw dw : ℕ} (value : BitVec sw → BitVec dw) (flags : BitVec sw → BitVec 32)
    (inst : ConvertOperands) (state : VectorFpState) (outcome : Option ConvertOutcome) : Prop :=
  outcome = some .trap ∨ ∃ vd ∈ inst.vd, ∃ vs2 ∈ inst.vs2, ∃ file fflags vstart,
    outcome = some (.done file fflags vstart) ∧
    Converts value flags inst vd vs2 state file fflags vstart

/-- The elements from `vstart` up to `vl` are in the destination, and the active ones in the
source. -/
def InGroups (sw dw : ℕ) (inst : ConvertOperands) (vd vs2 : RegisterGroup)
    (state : VectorFpState) : Prop :=
  ∀ i, state.vstart ≤ i → i < state.vectorLength → i / elementsPerVector dw < vd.size ∧
    (Active inst state i → i / elementsPerVector sw < vs2.size)

instance (inst : ConvertOperands) (state : VectorFpState) : DecidablePred (Active inst state) :=
  fun _ =>
  inferInstanceAs (Decidable (_ ∧ _))

section Contract

variable {sw dw : ℕ} {vd vs2 : RegisterGroup} {inst : ConvertOperands} {state : VectorFpState}
  {convert : BitVec sw → BitVec 32 → BitVec dw × BitVec 32}
  {value : BitVec sw → BitVec dw} {flags : BitVec sw → BitVec 32}

/-- The elements of the destination after the loop. -/
theorem element_written (hdw : FillsRegister dw) (i : ℕ) :
    vd.element dw
      (M3.written vd vs2 (M3.maskRegister inst) value state.file state.vstart state.vectorLength)
        i =
      if i / elementsPerVector dw < vd.size then
        some (if Active inst state i then value (vs2.bits sw state.file i)
          else vd.bits dw state.file i)
      else none := by
  rw [RegisterGroup.element]
  split
  next hi =>
    rw [M3.written, bits_convertedWhere hdw hi]
    rfl
  next => rfl

/-- A mask that is not written can be read. -/
theorem turnDefined_iff (hmask : ∀ reg ∈ M3.maskRegister inst, ¬ vd.Contains reg) :
    (∀ i, state.vstart ≤ i → i < state.vectorLength →
      M3.TurnDefined sw dw vd vs2 (M3.maskRegister inst) state.file state.vstart i) ↔
      InGroups sw dw inst vd vs2 state := by
  refine forall_congr' fun i =>
    forall₂_congr fun hle hlt => ⟨fun h => ⟨h.destination, fun hi => h.source hi.2.2⟩, ?_⟩
  rintro ⟨hdest, hsource⟩
  refine ⟨hdest, ?_, fun hactive => hsource ⟨hle, hlt, hactive⟩⟩
  rintro ⟨reg, hreg, hge, hlt'⟩
  exact hmask reg hreg ⟨(Nat.le_add_right ..).trans hge, hlt'.trans (Nat.add_lt_add_left hdest _)⟩

/-- **The loop does what a conversion should do** if and only if it stays in the groups. -/
theorem meetsContract_convertLoop_iff (hdw : FillsRegister dw) (hvd : inst.vd = some vd)
    (hvs2 : inst.vs2 = some vs2) (hdisjoint : ¬ vd.Overlaps vs2)
    (hmask : ∀ reg ∈ M3.maskRegister inst, ¬ vd.Contains reg)
    (hconvert : ∀ x f, convert x f = (value x, f ||| flags x)) :
    MeetsContract value flags inst state
      ((M3.convertLoop vd vs2 (M3.maskRegister inst) convert state.file state.vstart
        state.vectorLength).map
        fun (file, fflags) => .done file (state.fflags ||| fflags) 0) ↔
        InGroups sw dw inst vd vs2 state := by
  obtain ⟨hdone, hleft⟩ :=
    M3.convertLoop_eq (M3.maskRegister inst) state.file hdw hdisjoint hconvert
    state.vstart state.vectorLength
  rw [turnDefined_iff hmask] at hdone hleft
  by_cases hgroups : InGroups sw dw inst vd vs2 state
  · refine iff_of_true ?_ hgroups
    obtain ⟨fflags, hloop, hraised⟩ := hdone hgroups
    rw [hloop]
    refine Or.inr ⟨vd, hvd, vs2, hvs2, _, _, _, rfl,
      ⟨fun i hi => ?_, fun i hi => ?_, fun reg hreg => ?_, fun b => ?_, rfl⟩⟩
    · obtain ⟨hdest, hsource⟩ := hgroups i hi.1 hi.2.1
      rw [element_written hdw, if_pos hdest, if_pos hi]
      exact ⟨_, if_pos (hsource hi), rfl⟩
    · rw [element_written hdw, if_neg hi]
      rfl
    · exact M3.written_of_not_contains hreg
    · rw [BitVec.getLsbD_or, Bool.or_eq_true, hraised]
      refine or_congr_right ⟨?_, ?_⟩
      · rintro ⟨i, hle, hlt, hactive, hflag⟩
        have hi : Active inst state i := ⟨hle, hlt, hactive⟩
        exact ⟨i, _, hi, if_pos ((hgroups i hle hlt).2 hi), hflag⟩
      · rintro ⟨i, x, hi, hx, hflag⟩
        rw [RegisterGroup.element, if_pos ((hgroups i hi.1 hi.2.1).2 hi), Option.some_inj] at hx
        exact ⟨i, hi.1, hi.2.1, hi.2.2, by rwa [hx]⟩
  · refine iff_of_false ?_ hgroups
    rw [hleft hgroups]
    rintro (htrap | ⟨_, _, _, _, _, _, _, hsome, _⟩)
    · exact absurd htrap (by simp)
    · exact absurd hsome (by simp)

theorem or_raise {c : Prop} [Decidable c] (fflags raised k : BitVec 32) :
    (if c then (fflags ||| raised) ||| k else fflags ||| raised) =
      fflags ||| if c then raised ||| k else raised := by
  split
  next => rw [BitVec.or_assoc]
  next => rfl

theorem or_raise_zero {c : Prop} [Decidable c] (fflags k : BitVec 32) :
    (if c then fflags ||| k else fflags) = fflags ||| if c then 0 ||| k else 0 := by
  rw [← or_raise, show fflags ||| 0 = fflags from BitVec.or_zero]

/-- Flags are only ever raised. -/
theorem M3.convertF32ToBF16_or (bits rm : BitVec 32) (fpState : Option RiscVFPState)
    (fflags : BitVec 32) :
    M3.convertF32ToBF16 bits rm fpState fflags = ((M3.convertF32ToBF16 bits rm fpState 0).1,
      fflags ||| (M3.convertF32ToBF16 bits rm fpState 0).2) := by
  have hround : M3.roundBFloat16 bits rm fpState fflags = ((M3.roundBFloat16 bits rm fpState 0).1,
      fflags ||| (M3.roundBFloat16 bits rm fpState 0).2) := by
    refine Prod.ext rfl ?_
    simp only [M3.roundBFloat16]
    rw [or_raise_zero fflags, or_raise, or_raise]
  simp only [M3.convertF32ToBF16]
  split
  next => split <;> simp
  next => exact hround

end Contract

theorem fillsRegister_16 : FillsRegister 16 := rfl

theorem fillsRegister_32 : FillsRegister 32 := rfl

/-! ### The instructions -/

/-- The instructions trap. -/
def Refuses (inst : ConvertOperands) (state : VectorFpState) : Prop :=
  ¬ (state.fs ≠ 0 ∧ state.vs ≠ 0) ∨ inst.vd = none ∨ inst.vs2 = none ∨
    ∃ vd ∈ inst.vd, ∃ vs2 ∈ inst.vs2, vd.Overlaps vs2

/-- The elements are in the groups. -/
def StaysInGroups (sw dw : ℕ) (inst : ConvertOperands) (state : VectorFpState) : Prop :=
  ∃ vd ∈ inst.vd, ∃ vs2 ∈ inst.vs2, InGroups sw dw inst vd vs2 state

section Instructions

variable {inst : ConvertOperands} {state : VectorFpState}

/-- Instructions that do not trap have operands that do not overlap. -/
theorem exists_groups (h : ¬ Refuses inst state) : (state.fs ≠ 0 ∧ state.vs ≠ 0) ∧
    ∃ vd vs2, inst.vd = some vd ∧ inst.vs2 = some vs2 ∧ ¬ vd.Overlaps vs2 := by
  simp only [Refuses, not_or, not_not] at h
  obtain ⟨henabled, hvd, hvs2, hdisjoint⟩ := h
  obtain ⟨vd, hvd⟩ := Option.ne_none_iff_exists'.1 hvd
  obtain ⟨vs2, hvs2⟩ := Option.ne_none_iff_exists'.1 hvs2
  exact ⟨henabled, vd, vs2, hvd, hvs2, fun hover => hdisjoint ⟨vd, hvd, vs2, hvs2, hover⟩⟩

/-- The groups are those of the instruction. -/
theorem staysInGroups_iff {sw dw : ℕ} {vd vs2 : RegisterGroup} (hvd : inst.vd = some vd)
    (hvs2 : inst.vs2 = some vs2) :
    StaysInGroups sw dw inst state ↔ InGroups sw dw inst vd vs2 state := by
  constructor
  · rintro ⟨vd', hvd', vs2', hvs2', h⟩
    rw [hvd, Option.mem_some_iff] at hvd'
    rw [hvs2, Option.mem_some_iff] at hvs2'
    rwa [hvd', hvs2']
  · exact fun h => ⟨vd, hvd, vs2, hvs2, h⟩

theorem M3.vfwcvtbf16ffv_of_refuses (h : Refuses inst state) :
    M3.vfwcvtbf16ffv inst state = some .trap := by
  rw [M3.vfwcvtbf16ffv]
  split
  next => rfl
  next henabled =>
    rcases h.resolve_left henabled with hvd | hvs2 | ⟨vd, hvd, vs2, hvs2, hoverlaps⟩
    · rw [hvd]
    · rw [hvs2]
      cases inst.vd with
      | none => rfl
      | some vd => rfl
    · rw [hvd, hvs2]
      exact if_pos hoverlaps

theorem M3.vfncvtbf16ffw_of_refuses (h : Refuses inst state ∨ ¬ state.rvFp.roundingModeValid) :
    M3.vfncvtbf16ffw inst state = some .trap := by
  rw [M3.vfncvtbf16ffw]
  split
  next => rfl
  next henabled =>
    cases hvd : inst.vd with
    | none => rfl
    | some vd =>
        cases hvs2 : inst.vs2 with
        | none => rfl
        | some vs2 =>
            dsimp only
            split
            next => rfl
            next hvalid =>
              rcases (h.resolve_right hvalid).resolve_left henabled with
                hnone | hnone | ⟨vd', hvd', vs2', hvs2', hoverlaps⟩
              · rw [hvd] at hnone
                exact absurd hnone (Option.some_ne_none _)
              · rw [hvs2] at hnone
                exact absurd hnone (Option.some_ne_none _)
              · rw [hvd, Option.mem_some_iff] at hvd'
                rw [hvs2, Option.mem_some_iff] at hvs2'
                rw [if_pos (by rwa [hvd', hvs2'])]

theorem M3.vfwcvtbf16ffv_eq (h : ¬ Refuses inst state) :
    ∃ vd vs2, inst.vd = some vd ∧ inst.vs2 = some vs2 ∧
    ¬ vd.Overlaps vs2 ∧ M3.vfwcvtbf16ffv inst state =
      (M3.convertLoop vd vs2 (M3.maskRegister inst)
        (fun x f => ((M3.convertBF16ToF32Precise x).1, f ||| (M3.convertBF16ToF32Precise x).2))
        state.file state.vstart state.vectorLength).map
          fun (file, fflags) => .done file (state.fflags ||| fflags) 0 := by
  obtain ⟨henabled, vd, vs2, hvd, hvs2, hdisjoint⟩ := exists_groups h
  have hraise : ∀ fflags : BitVec 32,
      (if fflags ≠ 0 then state.fflags ||| fflags else state.fflags) =
      state.fflags ||| fflags := fun fflags => by
    split
    next => rfl
    next hzero =>
      rw [not_not.1 hzero]
      exact BitVec.or_zero.symm
  refine ⟨vd, vs2, hvd, hvs2, hdisjoint, ?_⟩
  simp only [M3.vfwcvtbf16ffv, if_neg (not_not_intro henabled), hvd, hvs2, if_neg hdisjoint, hraise]

theorem M3.vfncvtbf16ffw_eq (h : ¬ (Refuses inst state ∨ ¬ state.rvFp.roundingModeValid)) :
    ∃ vd vs2, inst.vd = some vd ∧ inst.vs2 = some vs2 ∧ ¬ vd.Overlaps vs2 ∧
    M3.vfncvtbf16ffw inst state =
      (M3.convertLoop vd vs2 (M3.maskRegister inst)
        (fun x f => M3.convertF32ToBF16 x state.rvFp.getRoundingMode (some state.rvFp) f)
        state.file state.vstart state.vectorLength).map
          fun (file, fflags) => .done file (state.fflags ||| fflags) 0 := by
  obtain ⟨hrefuses, hvalid⟩ := not_or.1 h
  obtain ⟨henabled, vd, vs2, hvd, hvs2, hdisjoint⟩ := exists_groups hrefuses
  refine ⟨vd, vs2, hvd, hvs2, hdisjoint, ?_⟩
  simp only [M3.vfncvtbf16ffw, if_neg (not_not_intro henabled), hvd, hvs2, if_neg hvalid,
    if_neg hdisjoint]

theorem M3.vfwcvtbf16ffv_meets_iff
    (hmask : ∀ vd ∈ inst.vd, ∀ reg ∈ M3.maskRegister inst, ¬ vd.Contains reg) :
    MeetsContract (fun x => (M3.convertBF16ToF32Precise x).1)
      (fun x => (M3.convertBF16ToF32Precise x).2)
        inst state (M3.vfwcvtbf16ffv inst state) ↔
      Refuses inst state ∨ StaysInGroups 16 32 inst state := by
  by_cases hrefuses : Refuses inst state
  · exact iff_of_true (Or.inl (M3.vfwcvtbf16ffv_of_refuses hrefuses)) (Or.inl hrefuses)
  · obtain ⟨vd, vs2, hvd, hvs2, hdisjoint, heq⟩ := M3.vfwcvtbf16ffv_eq hrefuses
    rw [or_iff_right hrefuses, staysInGroups_iff hvd hvs2, heq]
    exact meetsContract_convertLoop_iff fillsRegister_32 hvd hvs2 hdisjoint
      (hmask vd hvd) fun _ _ => rfl

theorem M3.vfncvtbf16ffw_meets_iff
    (hmask : ∀ vd ∈ inst.vd, ∀ reg ∈ M3.maskRegister inst, ¬ vd.Contains reg) :
    MeetsContract
        (fun x => (M3.convertF32ToBF16 x state.rvFp.getRoundingMode (some state.rvFp) 0).1)
        (fun x => (M3.convertF32ToBF16 x state.rvFp.getRoundingMode (some state.rvFp) 0).2)
        inst state (M3.vfncvtbf16ffw inst state) ↔
      (Refuses inst state ∨ ¬ state.rvFp.roundingModeValid) ∨ StaysInGroups 32 16 inst state := by
  by_cases hrefuses : Refuses inst state ∨ ¬ state.rvFp.roundingModeValid
  · exact iff_of_true (Or.inl (M3.vfncvtbf16ffw_of_refuses hrefuses)) (Or.inl hrefuses)
  · obtain ⟨vd, vs2, hvd, hvs2, hdisjoint, heq⟩ := M3.vfncvtbf16ffw_eq hrefuses
    rw [or_iff_right hrefuses, staysInGroups_iff hvd hvs2, heq]
    exact meetsContract_convertLoop_iff fillsRegister_16 hvd hvs2 hdisjoint (hmask vd hvd)
      fun x f => M3.convertF32ToBF16_or x _ _ f

/-- **When the instructions do what they should**: they trap, or all elements up to `vl` are in the
groups. -/
theorem M3.conversions_meet_contract_iff
    (hmask : ∀ vd ∈ inst.vd, ∀ reg ∈ M3.maskRegister inst, ¬ vd.Contains reg) :
    (MeetsContract (fun x => (M3.convertBF16ToF32Precise x).1)
      (fun x => (M3.convertBF16ToF32Precise x).2)
        inst state (M3.vfwcvtbf16ffv inst state) ↔
      Refuses inst state ∨ StaysInGroups 16 32 inst state) ∧
    (MeetsContract
        (fun x => (M3.convertF32ToBF16 x state.rvFp.getRoundingMode (some state.rvFp) 0).1)
        (fun x => (M3.convertF32ToBF16 x state.rvFp.getRoundingMode (some state.rvFp) 0).2)
        inst state (M3.vfncvtbf16ffw inst state) ↔
      (Refuses inst state ∨ ¬ state.rvFp.roundingModeValid) ∨ StaysInGroups 32 16 inst state) :=
  ⟨M3.vfwcvtbf16ffv_meets_iff hmask, M3.vfncvtbf16ffw_meets_iff hmask⟩

/-- `v2`, and `v4` with `v5`. -/
def v2 : RegisterGroup := ⟨2, 1, by decide, by decide, by decide⟩

@[inherit_doc v2] def v4v5 : RegisterGroup := ⟨4, 2, by decide, by decide, by decide⟩

/-- Two elements of a register, of which the mask leaves out one. -/
theorem M3.conversions_meet_contract_masked :
    MeetsContract (fun x => (M3.convertBF16ToF32Precise x).1)
      (fun x => (M3.convertBF16ToF32Precise x).2)
      ⟨some v4v5, some v2, some ⟨"v0", 0⟩⟩ ⟨fun _ => 0b101, 0, 1, 3, 8, 3, 3, ⟨0, true⟩, 0⟩
      (M3.vfwcvtbf16ffv ⟨some v4v5, some v2, some ⟨"v0", 0⟩⟩
        ⟨fun _ => 0b101, 0, 1, 3, 8, 3, 3, ⟨0, true⟩, 0⟩) := by
  refine (M3.conversions_meet_contract_iff ?_).1.2 (Or.inr ⟨v4v5, rfl, v2, rfl, fun i _ hi => ?_⟩)
  · rintro vd ⟨⟩ reg hreg
    obtain rfl : 0 = reg := Option.some.inj hreg
    decide
  · have hlt : i < 3 := hi
    exact ⟨(Nat.div_eq_of_lt (show i < 4 by omega)).trans_lt (by decide),
      fun _ => (Nat.div_eq_of_lt (show i < 8 by omega)).trans_lt (by decide)⟩

/-- **Sixteen elements of 8 bits** are more than two registers hold of 32 bits. -/
theorem M3.not_meets_contract_sew8 : ¬ MeetsContract
    (fun x => (M3.convertBF16ToF32Precise x).1) (fun x => (M3.convertBF16ToF32Precise x).2)
    ⟨some v4v5, some v2, none⟩ ⟨fun _ => 0, 0, 0, 16, 0, 3, 3, ⟨0, true⟩, 0⟩
    (M3.vfwcvtbf16ffv ⟨some v4v5, some v2, none⟩
      ⟨fun _ => 0, 0, 0, 16, 0, 3, 3, ⟨0, true⟩, 0⟩) := by
  intro h
  have hunmasked : ∀ reg, reg ∉ M3.maskRegister ⟨some v4v5, some v2, none⟩ := by decide
  rcases (M3.vfwcvtbf16ffv_meets_iff fun _ _ reg hreg => absurd hreg (hunmasked reg)).1 h with
    hrefuses | ⟨vd, hvd, vs2, hvs2, hgroups⟩
  · rcases hrefuses with henabled | hnone | hnone | ⟨vd, hvd, vs2, hvs2, hoverlaps⟩
    · exact henabled ⟨by decide, by decide⟩
    · exact Option.some_ne_none _ hnone
    · exact Option.some_ne_none _ hnone
    · obtain rfl := Option.some.inj hvd
      obtain rfl := Option.some.inj hvs2
      exact absurd hoverlaps (by decide)
  · obtain rfl := Option.some.inj hvd
    exact absurd (hgroups 8 (by decide) (by decide)).1 (by decide)

end Instructions

/-! ### Elements of 16 bits -/

/-- `regs_count` of the wide operand, and of the other. -/
def regsCount (wide : Bool) (vlmul : ℕ) : ℕ :=
  if wide then
    if vlmul > 4 then
      let denom := 2 ^ (8 - vlmul)
      if 2 > denom then 2 / denom else 1
    else 2 ^ vlmul * 2
  else if vlmul < 4 then 2 ^ vlmul else 1

/-- The largest `vl` for elements of 16 bits. -/
def maxVectorLength16 (vlmul : ℕ) : ℕ :=
  if vlmul < 4 then 2 ^ vlmul * (8 * kCoralNPUV2VectorByteLength) / 16
  else 8 * kCoralNPUV2VectorByteLength / 2 ^ (8 - vlmul) / 16

/-- **With elements of 16 bits, and the groups of the encoding, they are in the groups.** -/
theorem inGroups_of_sew16 {vlmul : ℕ} (hlt : vlmul < 8) {inst : ConvertOperands}
    {wide narrow : RegisterGroup} {state : VectorFpState} (hwide : wide.size = regsCount true vlmul)
    (hnarrow : narrow.size = regsCount false vlmul)
    (hvl : state.vectorLength ≤ maxVectorLength16 vlmul) :
    InGroups 16 32 inst wide narrow state ∧ InGroups 32 16 inst narrow wide state := by
  have hwide' : maxVectorLength16 vlmul ≤ wide.size * 4 := by
    rw [hwide]
    interval_cases vlmul <;> decide
  have hnarrow' : maxVectorLength16 vlmul ≤ narrow.size * 8 := by
    rw [hnarrow]
    interval_cases vlmul <;> decide
  have h4 : elementsPerVector 32 = 4 := rfl
  have h8 : elementsPerVector 16 = 8 := rfl
  constructor
  · intro i _ hi
    rw [h4, h8]
    exact ⟨Nat.div_lt_of_lt_mul (by omega), fun _ => Nat.div_lt_of_lt_mul (by omega)⟩
  · intro i _ hi
    rw [h4, h8]
    exact ⟨Nat.div_lt_of_lt_mul (by omega), fun _ => Nat.div_lt_of_lt_mul (by omega)⟩

end CoralNpu
