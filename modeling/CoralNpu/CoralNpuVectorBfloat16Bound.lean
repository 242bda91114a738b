/-
**The vector conversions of bfloat16 that the instruction set binds.**

There is another implementation of `Vfwcvtbf16ffv` and `Vfncvtbf16ffw`, and it is the one that the
instruction set of M3 names.  It checks more than that of the M3 instructions, but it does not look
at `vl`, at `vstart` or at the mask: it converts all elements of one destination register.

Main definitions:

* `CoralNpu.vfwcvtbf16ffv`, `CoralNpu.vfncvtbf16ffw` — these implementations;
* `CoralNpu.SameEffect` — two conversions leave the same registers and flags;
* `CoralNpu.EffectsAgree` — when they do.

Main results:

* `CoralNpu.convertedWhere_eq_iff` — when converting different elements makes no difference;
* `CoralNpu.bound_conversions_sameEffect_iff` — **when the bound conversions do what those of the M3
  instructions do**.
-/

import CoralNpu.CoralNpuVectorBfloat16

set_option relaxedAutoImplicit false
set_option autoImplicit false

namespace CoralNpu

open Lanes

/-! ### The implementations -/

/-- `CheckOverlap`. -/
def checkOverlap (isWidening : Bool) (dest src : RegisterGroup) : Prop :=
  ∃ i < dest.size, ∃ j < src.size, dest.base + i = src.base + j ∧
    if isWidening then dest.size ≤ src.size ∨ i ≠ j else i ≠ j

/-- `CheckMaskOverlap`: a register of the group is `v0`. -/
def checkMaskOverlap (dest : RegisterGroup) : Prop := ∃ i < dest.size, dest.base + i = 0

/-- `CheckZvfbfminVectorOpConstraints`. -/
def checkZvfbfminVectorOpConstraints (checkRounding : Bool) (dest src : RegisterGroup)
    (state : VectorFpState) : Prop :=
  state.vtype &&& 0x80000000 = 0 ∧ state.vtype &&& 0x07 = 0 ∧ (checkRounding → ¬ state.frm > 4) ∧
    ¬ (dest.base % 2 ≠ 0 ∨ src.base % 2 ≠ 0)

/-- `is_masked`. -/
def isMasked (inst : ConvertOperands) : Prop := ∃ vm ∈ inst.vm, vm.name ≠ ""

/-- The bound instructions trap. -/
def BoundTraps (isWidening : Bool) (inst : ConvertOperands) (dest src : RegisterGroup)
    (state : VectorFpState) : Prop :=
  (checkOverlap isWidening dest src ∨ isMasked inst ∧ checkMaskOverlap dest) ∨
    ¬ checkZvfbfminVectorOpConstraints (!isWidening) dest src state

instance (isWidening : Bool) (dest src : RegisterGroup) :
    Decidable (checkOverlap isWidening dest src) :=
  inferInstanceAs (Decidable (∃ i < dest.size, ∃ j < src.size, _))

instance (dest : RegisterGroup) : Decidable (checkMaskOverlap dest) :=
  inferInstanceAs (Decidable (∃ i < dest.size, _))

instance (checkRounding : Bool) (dest src : RegisterGroup) (state : VectorFpState) :
    Decidable (checkZvfbfminVectorOpConstraints checkRounding dest src state) :=
  inferInstanceAs (Decidable (_ ∧ _ ∧ _ ∧ _))

instance (inst : ConvertOperands) : Decidable (isMasked inst) :=
  inferInstanceAs (Decidable (∃ vm ∈ inst.vm, vm.name ≠ ""))

instance (isWidening : Bool) (inst : ConvertOperands) (dest src : RegisterGroup)
    (state : VectorFpState) :
    Decidable (BoundTraps isWidening inst dest src state) := inferInstanceAs (Decidable (_ ∨ _))

/-- A turn of the loop over the elements of the new buffer. -/
def boundStep {sw dw : ℕ} (src : RegisterGroup)
    (convert : BitVec sw → BitVec 32 → BitVec dw × BitVec 32) (file : ℕ → VectorRegister)
    (s : VectorRegister × BitVec 32) (i : ℕ) : Option (VectorRegister × BitVec 32) :=
  (src.element sw file i).map fun x =>
    let (result, fflags) := convert x s.2
    (setLane dw s.1 i result, fflags)

/-- The loop, from a new buffer, whose contents are not initialised, and the `Submit`. -/
def boundLoop {sw dw : ℕ} (fresh : VectorRegister) (dest src : RegisterGroup)
    (convert : BitVec sw → BitVec 32 → BitVec dw × BitVec 32) (file : ℕ → VectorRegister)
    (fflags : BitVec 32) : Option ((ℕ → VectorRegister) × BitVec 32) :=
  ((List.range (elementsPerVector dw)).foldlM (boundStep src convert file) (fresh, fflags)).map
    fun s => (Function.update file dest.base s.1, s.2)

/-- `Vfwcvtbf16ffv`; nothing is defined for a missing operand. -/
def vfwcvtbf16ffv (fresh : VectorRegister) (inst : ConvertOperands) (state : VectorFpState) :
    Option ConvertOutcome :=
  match inst.vd, inst.vs2 with
  | some dest, some src =>
      if BoundTraps true inst dest src state then some .trap
      else
        let convert (srcBf16 : BitVec 16) (fflags : BitVec 32) : BitVec 32 × BitVec 32 :=
          let srcBits : BitVec 32 := srcBf16.setWidth 32
          let exp := (srcBits >>> 7) &&& 0xff
          let frac := srcBits &&& 0x7f
          if exp = 0xff ∧ frac ≠ 0 then
            (0x7fc00000, if frac &&& 0x40 = 0 then fflags ||| kInvalidOp else fflags)
          else (srcBits <<< 16, fflags)
        (boundLoop fresh dest src convert state.file state.fflags).map
          fun (file, fflags) => .done file fflags state.vstart
  | _, _ => none

/-- `Vfncvtbf16ffw`. -/
def vfncvtbf16ffw (fresh : VectorRegister) (inst : ConvertOperands) (state : VectorFpState) :
    Option ConvertOutcome :=
  match inst.vd, inst.vs2 with
  | some dest, some src =>
      if BoundTraps false inst dest src state then some .trap
      else
        (boundLoop fresh dest src
          (fun bits fflags => convertF32ToBF16 bits (some state.rvFp) fflags)
          state.file 0).map fun (file, fflags) => .done file (state.fflags ||| fflags) state.vstart
  | _, _ => none

/-! ### Their loop -/

section BoundLoop

variable {sw dw : ℕ} {convert : BitVec sw → BitVec 32 → BitVec dw × BitVec 32}
  {value : BitVec sw → BitVec dw} {flags : BitVec sw → BitVec 32}

/-- A buffer of converted elements, submitted to the first register. -/
theorem update_eq_convertedWhere {dest src : RegisterGroup} (hdw : FillsRegister dw)
    {file : ℕ → VectorRegister} {db : VectorRegister}
    (hlanes : ∀ l < elementsPerVector dw, lane dw db l = value (src.bits sw file l)) :
    Function.update file dest.base db =
      convertedWhere dest src value file fun i => i < elementsPerVector dw := by
  funext reg
  rcases eq_or_ne reg dest.base with rfl | hne
  · have hcontains : dest.Contains dest.base := ⟨le_rfl, Nat.lt_add_of_pos_right dest.size_pos⟩
    refine ext_of_lanes hdw fun l hl => ?_
    rw [Function.update_self, lane_convertedWhere hdw hcontains hl, Nat.sub_self, Nat.zero_mul,
      Nat.zero_add, if_pos hl, hlanes l hl]
  · rw [Function.update_of_ne hne]
    by_cases hcontains : dest.Contains reg
    · refine ext_of_lanes hdw fun l hl => ?_
      have hlater : 1 * elementsPerVector dw ≤ (reg - dest.base) * elementsPerVector dw :=
        Nat.mul_le_mul_right _ (by have := hcontains.1; omega)
      rw [lane_convertedWhere hdw hcontains hl, if_neg (by omega), bits_index hdw hcontains.1 hl]
    · exact (if_neg hcontains).symm

/-- **What the loop does**: all elements of the first register are converted. -/
theorem boundLoop_eq (dest src : RegisterGroup) (hdw : FillsRegister dw)
    (hconvert : ∀ x f, convert x f = (value x, f ||| flags x))
    (fresh : VectorRegister) (file : ℕ → VectorRegister) (fflags : BitVec 32) :
    ((∀ i < elementsPerVector dw, i / elementsPerVector sw < src.size) → ∃ fflags',
      boundLoop fresh dest src convert file fflags =
        some (convertedWhere dest src value file fun i => i < elementsPerVector dw, fflags') ∧
      ∀ b, fflags'.getLsbD b = true ↔ fflags.getLsbD b = true ∨
        ∃ i < elementsPerVector dw, (flags (src.bits sw file i)).getLsbD b = true) ∧
    (¬ (∀ i < elementsPerVector dw, i / elementsPerVector sw < src.size) →
      boundLoop fresh dest src convert file fflags = none) := by
  let P (k : ℕ) (s : VectorRegister × BitVec 32) : Prop :=
    (∀ l < k, l < elementsPerVector dw → lane dw s.1 l = value (src.bits sw file l)) ∧
    ∀ b, s.2.getLsbD b = true ↔ fflags.getLsbD b = true ∨
      ∃ i < k, (flags (src.bits sw file i)).getLsbD b = true
  have hinit : P 0 (fresh, fflags) := ⟨fun l hl => absurd hl l.not_lt_zero, fun b => by simp⟩
  have hstep : ∀ k s, 0 ≤ k → P k s →
      (k / elementsPerVector sw < src.size →
        ∃ s', boundStep src convert file s k = some s' ∧ P (k + 1) s') ∧
      (¬ k / elementsPerVector sw < src.size → boundStep src convert file s k = none) := by
    rintro k ⟨db, f⟩ - ⟨hlanes, hflags⟩
    constructor
    · intro hsource
      refine ⟨(setLane dw db k (value (src.bits sw file k)), f ||| flags (src.bits sw file k)),
        ?_, ?_, ?_⟩
      · rw [boundStep, RegisterGroup.element, if_pos hsource, Option.map_some, hconvert]
      · intro l hlt hl
        rw [lane_setLane _ _ (hdw.lane_le hl)]
        split
        next heq => rw [heq]
        next hne => exact hlanes l (by omega) hl
      · intro b
        rw [BitVec.getLsbD_or, Bool.or_eq_true, hflags, or_assoc, Nat.exists_lt_succ_right]
    · intro hsource
      rw [boundStep, RegisterGroup.element, if_neg hsource, Option.map_none]
  obtain ⟨hdone, hleft⟩ := Accumulate.foldlM_range' hinit hstep (elementsPerVector dw)
  simp only [Nat.zero_le, true_imp_iff, Nat.zero_add, ← List.range_eq_range'] at hdone hleft
  refine ⟨fun hall => ?_, fun hnot => ?_⟩
  · obtain ⟨⟨db, f⟩, hs, hlanes, hflags⟩ := hdone hall
    refine ⟨f, ?_, hflags⟩
    rw [boundLoop, hs, Option.map_some]
    rw [update_eq_convertedWhere hdw fun l hl => hlanes l hl hl]
  · rw [boundLoop, hleft hnot, Option.map_none]

end BoundLoop

/-! ### Effects -/

/-- The registers after an outcome, and the flags. -/
def ConvertOutcome.fileAfter (state : VectorFpState) : ConvertOutcome → ℕ → VectorRegister
  | .trap => state.file
  | .done file _ _ => file

@[inherit_doc ConvertOutcome.fileAfter] def ConvertOutcome.fflagsAfter (state : VectorFpState) :
    ConvertOutcome → BitVec 32
  | .trap => state.fflags
  | .done _ fflags _ => fflags

/-- **Two conversions leave the same registers and flags.** -/
def SameEffect (state : VectorFpState) (a b : Option ConvertOutcome) : Prop :=
  ∃ x ∈ a,
  ∃ y ∈ b, x.fileAfter state = y.fileAfter state ∧ x.fflagsAfter state = y.fflagsAfter state

section Effects

variable {sw dw : ℕ} {vd vs2 : RegisterGroup} {value : BitVec sw → BitVec dw}
    {flags : BitVec sw → BitVec 32}
  {state : VectorFpState}

/-- An outcome where these elements have been converted. -/
def HasEffect (vd vs2 : RegisterGroup) (value : BitVec sw → BitVec dw)
    (flags : BitVec sw → BitVec 32) (state : VectorFpState) (P : ℕ → Prop) [DecidablePred P]
    (outcome : Option ConvertOutcome) : Prop :=
  ∃ x ∈ outcome, x.fileAfter state = convertedWhere vd vs2 value state.file P ∧
    ∀ b, (x.fflagsAfter state).getLsbD b = true ↔ state.fflags.getLsbD b = true ∨
      ∃ i, P i ∧ (flags (vs2.bits sw state.file i)).getLsbD b = true

/-- What a conversion does that may trap. -/
theorem hasEffect_of_cases (hdw : FillsRegister dw) {T D : Prop} [Decidable T] {P : ℕ → Prop}
    [DecidablePred P] {outcome : Option ConvertOutcome} (htrap : T → outcome = some .trap)
    (hdone : ¬ T → D → HasEffect vd vs2 value flags state P outcome)
    (hleft : ¬ T → ¬ D → outcome = none) :
    ((¬ T → D) → HasEffect vd vs2 value flags state (fun i => ¬ T ∧ P i) outcome) ∧
    (¬ (¬ T → D) → outcome = none) := by
  constructor
  · intro hdefined
    by_cases hT : T
    · refine ⟨.trap, htrap hT, (convertedWhere_none hdw fun _ h => h.1 hT).symm, fun b => ?_⟩
      exact (or_iff_left fun ⟨_, h, _⟩ => h.1 hT).symm
    · simpa only [hT, not_false_eq_true, true_and] using hdone hT (hdefined hT)
  · intro hnot
    obtain ⟨hT, hD⟩ := Classical.not_imp.1 hnot
    exact hleft hT hD

/-- Effects are the same if the elements that only one of them converts are no different then. -/
theorem sameEffect_iff (hdw : FillsRegister dw) {flags' : BitVec sw → BitVec 32} {D D' : Prop}
    {P P' : ℕ → Prop} [DecidablePred P] [DecidablePred P']
    {outcome outcome' : Option ConvertOutcome}
    (h : (D → HasEffect vd vs2 value flags state P outcome) ∧ (¬ D → outcome = none))
    (h' : (D' → HasEffect vd vs2 value flags' state P' outcome') ∧ (¬ D' → outcome' = none)) :
    SameEffect state outcome outcome' ↔ D ∧ D' ∧
      (∀ i < vd.size * elementsPerVector dw, (P i ↔ P' i) ∨
        value (vs2.bits sw state.file i) = vd.bits dw state.file i) ∧
      ∀ b, (state.fflags.getLsbD b = true ∨
        ∃ i, P i ∧ (flags (vs2.bits sw state.file i)).getLsbD b = true) ↔
        (state.fflags.getLsbD b = true ∨
          ∃ i, P' i ∧ (flags' (vs2.bits sw state.file i)).getLsbD b = true) := by
  by_cases hD : D
  swap
  · refine iff_of_false ?_ fun hall => hD hall.1
    rintro ⟨x, hx, _⟩
    rw [h.2 hD] at hx
    exact absurd hx (Option.not_mem_none x)
  by_cases hD' : D'
  swap
  · refine iff_of_false ?_ fun hall => hD' hall.2.1
    rintro ⟨_, _, y, hy, _⟩
    rw [h'.2 hD'] at hy
    exact absurd hy (Option.not_mem_none y)
  obtain ⟨x, hx, hfile, hflags⟩ := h.1 hD
  obtain ⟨y, hy, hfile', hflags'⟩ := h'.1 hD'
  rw [and_iff_right hD, and_iff_right hD', ← convertedWhere_eq_iff hdw, ← hfile, ← hfile']
  have hbits : x.fflagsAfter state = y.fflagsAfter state ↔
      ∀ b, (x.fflagsAfter state).getLsbD b = true ↔ (y.fflagsAfter state).getLsbD b = true := by
    constructor
    · intro heq b
      rw [heq]
    · exact fun hall => BitVec.eq_of_getLsbD_eq fun b _ => Bool.eq_iff_iff.2 (hall b)
  simp only [hflags, hflags'] at hbits
  rw [← hbits]
  constructor
  · rintro ⟨x', hx', y', hy', hsame⟩
    rwa [Option.mem_unique hx hx', Option.mem_unique hy hy']
  · exact fun hsame => ⟨x, hx, y, hy, hsame⟩

/-- The loop of the M3 instructions. -/
theorem M3.convertLoop_hasEffect (value : BitVec sw → BitVec dw) (flags : BitVec sw → BitVec 32)
    (inst : ConvertOperands) (hdw : FillsRegister dw) (hdisjoint : ¬ vd.Overlaps vs2)
    {convert : BitVec sw → BitVec 32 → BitVec dw × BitVec 32}
    (hconvert : ∀ x f, convert x f = (value x, f ||| flags x)) :
    ((∀ i, state.vstart ≤ i → i < state.vectorLength →
        M3.TurnDefined sw dw vd vs2 (M3.maskRegister inst) state.file state.vstart i) →
      HasEffect vd vs2 value flags state (Active inst state)
        ((M3.convertLoop vd vs2 (M3.maskRegister inst) convert state.file state.vstart
          state.vectorLength).map
          fun (file, fflags) => .done file (state.fflags ||| fflags) 0)) ∧
    (¬ (∀ i, state.vstart ≤ i → i < state.vectorLength →
        M3.TurnDefined sw dw vd vs2 (M3.maskRegister inst) state.file state.vstart i) →
      (M3.convertLoop vd vs2 (M3.maskRegister inst) convert state.file state.vstart
        state.vectorLength).map
          (fun (file, fflags) => ConvertOutcome.done file (state.fflags ||| fflags) 0) = none) := by
  obtain ⟨hdone, hleft⟩ :=
    M3.convertLoop_eq (M3.maskRegister inst) state.file hdw hdisjoint hconvert
    state.vstart state.vectorLength
  refine ⟨fun hall => ?_, fun hnot => by rw [hleft hnot, Option.map_none]⟩
  obtain ⟨fflags, hloop, hraised⟩ := hdone hall
  refine ⟨_, by rw [hloop]; rfl, rfl, fun b => ?_⟩
  rw [ConvertOutcome.fflagsAfter, BitVec.getLsbD_or, Bool.or_eq_true, hraised]
  exact or_congr_right ⟨fun ⟨i, hle, hlt, hactive, hflag⟩ => ⟨i, ⟨hle, hlt, hactive⟩, hflag⟩,
    fun ⟨i, hi, hflag⟩ => ⟨i, hi.1, hi.2.1, hi.2.2, hflag⟩⟩

/-- The loop of the bound instructions. -/
theorem boundLoop_hasEffect (vd vs2 : RegisterGroup) (state : VectorFpState)
    (hdw : FillsRegister dw) {convert : BitVec sw → BitVec 32 → BitVec dw × BitVec 32}
    (hconvert : ∀ x f, convert x f = (value x, f ||| flags x)) (fresh : VectorRegister)
    (fflags : BitVec 32) (raise : BitVec 32 → BitVec 32) (vstart : ℕ)
    (hraise : ∀ {f : BitVec 32} {R : ℕ → Prop},
      (∀ b, f.getLsbD b = true ↔ fflags.getLsbD b = true ∨ R b) →
      ∀ b, (raise f).getLsbD b = true ↔ state.fflags.getLsbD b = true ∨ R b) :
    ((∀ i < elementsPerVector dw, i / elementsPerVector sw < vs2.size) →
      HasEffect vd vs2 value flags state (fun i => i < elementsPerVector dw)
        ((boundLoop fresh vd vs2 convert state.file fflags).map
          fun (file, fflags) => .done file (raise fflags) vstart)) ∧
    (¬ (∀ i < elementsPerVector dw, i / elementsPerVector sw < vs2.size) →
      (boundLoop fresh vd vs2 convert state.file fflags).map
        (fun (file, fflags) => ConvertOutcome.done file (raise fflags) vstart) = none) := by
  obtain ⟨hdone, hleft⟩ := boundLoop_eq vd vs2 hdw hconvert fresh state.file fflags
  refine ⟨fun hall => ?_, fun hnot => by rw [hleft hnot, Option.map_none]⟩
  obtain ⟨f, hloop, hraised⟩ := hdone hall
  exact ⟨.done _ (raise f) vstart, by rw [hloop]; rfl, rfl, hraise hraised⟩

end Effects

/-! ### The instructions -/

/-- The first implementation raises flags, too, and does nothing else with them. -/
theorem convertF32ToBF16_or (bits : BitVec 32) (fpState : Option RiscVFPState)
    (fflags : BitVec 32) :
    convertF32ToBF16 bits fpState fflags =
      ((convertF32ToBF16 bits fpState 0).1, fflags ||| (convertF32ToBF16 bits fpState 0).2) := by
  have hround : ∀ bits, roundBFloat16 bits 7 fpState fflags = ((roundBFloat16 bits 7 fpState 0).1,
      fflags ||| (roundBFloat16 bits 7 fpState 0).2) := fun bits => by
    refine Prod.ext rfl ?_
    simp only [roundBFloat16]
    rw [or_raise_zero fflags, or_raise]
  simp only [convertF32ToBF16]
  split
  next =>
    rw [roundBFloat16_nan, roundBFloat16_nan]
    split <;> simp
  next => exact hround bits

/-- Both implementations compute the same bits. -/
theorem convertF32ToBF16_fst (bits : BitVec 32) (rvFp : RiscVFPState) :
    (convertF32ToBF16 bits (some rvFp) 0).1 =
      (M3.convertF32ToBF16 bits rvFp.getRoundingMode (some rvFp) 0).1 := by
  have hround : (roundBFloat16 bits 7 (some rvFp) 0).1 =
      (M3.roundBFloat16 bits rvFp.getRoundingMode (some rvFp) 0).1 := by
    simp only [roundBFloat16, M3.roundBFloat16, if_true, Option.map_some,
      Option.getD_some, ite_self]
    by_cases hzero : rvFp.getRoundingMode = kRoundTowardsZero
    · rw [hzero]
      rfl
    · simp only [if_neg hzero]
  simp only [convertF32ToBF16, floatIsNaN_iff_fields, M3.convertF32ToBF16]
  split
  next => rw [roundBFloat16_nan]
  next => exact hround

/-- **When a bound conversion has the effect of that of the M3 instructions**, for the conditions
under which they trap.  The elements that they convert are in the source; the elements up to `vl`
are in the destination and the mask can be read; an element that only one of them converts is its
conversion before; and what only one of them raises has been raised before. -/
structure EffectsAgree {sw dw : ℕ} (value : BitVec sw → BitVec dw)
    (flags flags' : BitVec sw → BitVec 32) (traps traps' : Prop) (inst : ConvertOperands)
    (vd vs2 : RegisterGroup) (state : VectorFpState) : Prop where
  sources : ¬ traps → ∀ i < elementsPerVector dw, i / elementsPerVector sw < vs2.size
  turns : ¬ traps' → ∀ i, state.vstart ≤ i → i < state.vectorLength →
    M3.TurnDefined sw dw vd vs2 (M3.maskRegister inst) state.file state.vstart i
  elements : ∀ i < vd.size * elementsPerVector dw,
    (¬ traps ∧ i < elementsPerVector dw ↔ ¬ traps' ∧ Active inst state i) ∨
      value (vs2.bits sw state.file i) = vd.bits dw state.file i
  raised : ∀ b, (state.fflags.getLsbD b = true ∨
      ∃ i, (¬ traps ∧ i < elementsPerVector dw) ∧
      (flags (vs2.bits sw state.file i)).getLsbD b = true) ↔
    (state.fflags.getLsbD b = true ∨
      ∃ i, (¬ traps' ∧ Active inst state i) ∧ (flags' (vs2.bits sw state.file i)).getLsbD b = true)

section Instructions

variable {inst : ConvertOperands} {state : VectorFpState} {vd vs2 : RegisterGroup}
    (fresh : VectorRegister)

instance (inst : ConvertOperands) (state : VectorFpState) : Decidable (Refuses inst state) :=
  inferInstanceAs (Decidable (_ ∨ _ ∨ _ ∨ ∃ vd ∈ inst.vd, ∃ vs2 ∈ inst.vs2, vd.Overlaps vs2))

theorem effectsAgree_iff {sw dw : ℕ} {value : BitVec sw → BitVec dw}
    {flags flags' : BitVec sw → BitVec 32} {traps traps' : Prop} :
    EffectsAgree value flags flags' traps traps' inst vd vs2 state ↔
      (¬ traps → ∀ i < elementsPerVector dw, i / elementsPerVector sw < vs2.size) ∧
      (¬ traps' → ∀ i, state.vstart ≤ i → i < state.vectorLength →
        M3.TurnDefined sw dw vd vs2 (M3.maskRegister inst) state.file state.vstart i) ∧
      (∀ i < vd.size * elementsPerVector dw,
        (¬ traps ∧ i < elementsPerVector dw ↔ ¬ traps' ∧ Active inst state i) ∨
          value (vs2.bits sw state.file i) = vd.bits dw state.file i) ∧
      ∀ b, (state.fflags.getLsbD b = true ∨
          ∃ i, (¬ traps ∧ i < elementsPerVector dw) ∧
          (flags (vs2.bits sw state.file i)).getLsbD b = true) ↔
        (state.fflags.getLsbD b = true ∨
          ∃ i, (¬ traps' ∧ Active inst state i) ∧
          (flags' (vs2.bits sw state.file i)).getLsbD b = true) :=
  ⟨fun h => ⟨h.sources, h.turns, h.elements, h.raised⟩, fun ⟨h₁, h₂, h₃, h₄⟩ => ⟨h₁, h₂, h₃, h₄⟩⟩

/-- Nothing is defined for a bound instruction without its operands. -/
theorem not_sameEffect_none (o : Option ConvertOutcome) : ¬ SameEffect state none o :=
  fun ⟨x, hx, _⟩ =>
  absurd hx (Option.not_mem_none x)

theorem vfwcvtbf16ffv_hasEffect (hvd : inst.vd = some vd) (hvs2 : inst.vs2 = some vs2) :
    ((¬ BoundTraps true inst vd vs2 state →
      ∀ i < elementsPerVector 32, i / elementsPerVector 16 < vs2.size) →
      HasEffect vd vs2 (fun x => (M3.convertBF16ToF32Precise x).1)
        (fun x => (M3.convertBF16ToF32Precise x).2) state
        (fun i => ¬ BoundTraps true inst vd vs2 state ∧ i < elementsPerVector 32)
        (vfwcvtbf16ffv fresh inst state)) ∧
    (¬ (¬ BoundTraps true inst vd vs2 state →
      ∀ i < elementsPerVector 32, i / elementsPerVector 16 < vs2.size) →
      vfwcvtbf16ffv fresh inst state = none) := by
  have hconvert : ∀ (x : BitVec 16) (f : BitVec 32),
      (if (x.setWidth 32 >>> 7 : BitVec 32) &&& 0xff = 0xff ∧
        (x.setWidth 32 : BitVec 32) &&& 0x7f ≠ 0 then
        (0x7fc00000, if (x.setWidth 32 : BitVec 32) &&& 0x7f &&& 0x40 = 0 then
          f ||| kInvalidOp else f)
      else (x.setWidth 32 <<< 16, f) : BitVec 32 × BitVec 32) =
        ((M3.convertBF16ToF32Precise x).1, f ||| (M3.convertBF16ToF32Precise x).2) := by
    intro x f
    simp only [M3.convertBF16ToF32Precise]
    split
    next => split <;> simp
    next => simp
  have hloop :=
    boundLoop_hasEffect vd vs2 state fillsRegister_32 hconvert fresh state.fflags
      (fun fflags => fflags)
    state.vstart fun h => h
  refine hasEffect_of_cases fillsRegister_32 (fun htraps => ?_)
    (fun htraps hall => ?_) fun htraps hnot => ?_
  · simp only [vfwcvtbf16ffv, hvd, hvs2, if_pos htraps]
  · simpa only [vfwcvtbf16ffv, hvd, hvs2, if_neg htraps] using hloop.1 hall
  · simpa only [vfwcvtbf16ffv, hvd, hvs2, if_neg htraps] using hloop.2 hnot

theorem vfncvtbf16ffw_hasEffect (hvd : inst.vd = some vd) (hvs2 : inst.vs2 = some vs2) :
    ((¬ BoundTraps false inst vd vs2 state →
      ∀ i < elementsPerVector 16, i / elementsPerVector 32 < vs2.size) →
      HasEffect vd vs2 (fun x =>
        (M3.convertF32ToBF16 x state.rvFp.getRoundingMode (some state.rvFp) 0).1)
        (fun x => (convertF32ToBF16 x (some state.rvFp) 0).2) state
        (fun i => ¬ BoundTraps false inst vd vs2 state ∧ i < elementsPerVector 16)
        (vfncvtbf16ffw fresh inst state)) ∧
    (¬ (¬ BoundTraps false inst vd vs2 state →
      ∀ i < elementsPerVector 16, i / elementsPerVector 32 < vs2.size) →
      vfncvtbf16ffw fresh inst state = none) := by
  have hconvert : ∀ x f, convertF32ToBF16 x (some state.rvFp) f =
      ((M3.convertF32ToBF16 x state.rvFp.getRoundingMode (some state.rvFp) 0).1,
        f ||| (convertF32ToBF16 x (some state.rvFp) 0).2) := fun x f => by
    rw [← convertF32ToBF16_fst]
    exact convertF32ToBF16_or x _ f
  have hloop := boundLoop_hasEffect vd vs2 state fillsRegister_16 hconvert fresh 0
    (fun fflags => state.fflags ||| fflags) state.vstart fun h b => by
      rw [BitVec.getLsbD_or, Bool.or_eq_true, h]
      simp
  refine hasEffect_of_cases fillsRegister_16 (fun htraps => ?_)
    (fun htraps hall => ?_) fun htraps hnot => ?_
  · simp only [vfncvtbf16ffw, hvd, hvs2, if_pos htraps]
  · simpa only [vfncvtbf16ffw, hvd, hvs2, if_neg htraps] using hloop.1 hall
  · simpa only [vfncvtbf16ffw, hvd, hvs2, if_neg htraps] using hloop.2 hnot

theorem M3.vfwcvtbf16ffv_hasEffect (hvd : inst.vd = some vd) (hvs2 : inst.vs2 = some vs2) :
    ((¬ Refuses inst state → ∀ i, state.vstart ≤ i → i < state.vectorLength →
        M3.TurnDefined 16 32 vd vs2 (M3.maskRegister inst) state.file state.vstart i) →
      HasEffect vd vs2 (fun x => (M3.convertBF16ToF32Precise x).1)
        (fun x => (M3.convertBF16ToF32Precise x).2) state
        (fun i => ¬ Refuses inst state ∧ Active inst state i) (M3.vfwcvtbf16ffv inst state)) ∧
    (¬ (¬ Refuses inst state → ∀ i, state.vstart ≤ i → i < state.vectorLength →
        M3.TurnDefined 16 32 vd vs2 (M3.maskRegister inst) state.file state.vstart i) →
      M3.vfwcvtbf16ffv inst state = none) := by
  refine hasEffect_of_cases fillsRegister_32 M3.vfwcvtbf16ffv_of_refuses (fun hrefuses hall => ?_)
    fun hrefuses hnot => ?_
  all_goals
    obtain ⟨vd', vs2', hvd', hvs2', hdisjoint, heq⟩ := M3.vfwcvtbf16ffv_eq hrefuses
    obtain rfl := Option.some.inj (hvd.symm.trans hvd')
    obtain rfl := Option.some.inj (hvs2.symm.trans hvs2')
    rw [heq]
  · exact (M3.convertLoop_hasEffect _ _ inst fillsRegister_32 hdisjoint fun _ _ => rfl).1 hall
  · exact (M3.convertLoop_hasEffect (fun x => (M3.convertBF16ToF32Precise x).1)
      (fun x => (M3.convertBF16ToF32Precise x).2) inst fillsRegister_32 hdisjoint fun _ _ => rfl).2
        hnot

theorem M3.vfncvtbf16ffw_hasEffect (hvd : inst.vd = some vd) (hvs2 : inst.vs2 = some vs2) :
    ((¬ (Refuses inst state ∨ ¬ state.rvFp.roundingModeValid) →
      ∀ i, state.vstart ≤ i → i < state.vectorLength →
        M3.TurnDefined 32 16 vd vs2 (M3.maskRegister inst) state.file state.vstart i) →
      HasEffect vd vs2 (fun x =>
        (M3.convertF32ToBF16 x state.rvFp.getRoundingMode (some state.rvFp) 0).1)
        (fun x => (M3.convertF32ToBF16 x state.rvFp.getRoundingMode (some state.rvFp) 0).2) state
        (fun i => ¬ (Refuses inst state ∨ ¬ state.rvFp.roundingModeValid) ∧ Active inst state i)
        (M3.vfncvtbf16ffw inst state)) ∧
    (¬ (¬ (Refuses inst state ∨ ¬ state.rvFp.roundingModeValid) →
        ∀ i, state.vstart ≤ i → i < state.vectorLength →
          M3.TurnDefined 32 16 vd vs2 (M3.maskRegister inst) state.file state.vstart i) →
      M3.vfncvtbf16ffw inst state = none) := by
  refine hasEffect_of_cases fillsRegister_16 M3.vfncvtbf16ffw_of_refuses (fun hrefuses hall => ?_)
    fun hrefuses hnot => ?_
  all_goals
    obtain ⟨vd', vs2', hvd', hvs2', hdisjoint, heq⟩ := M3.vfncvtbf16ffw_eq hrefuses
    obtain rfl := Option.some.inj (hvd.symm.trans hvd')
    obtain rfl := Option.some.inj (hvs2.symm.trans hvs2')
    rw [heq]
  · exact (M3.convertLoop_hasEffect _ _ inst fillsRegister_16 hdisjoint fun x f =>
      M3.convertF32ToBF16_or x _ _ f).1 hall
  · exact (M3.convertLoop_hasEffect _ _ inst fillsRegister_16 hdisjoint fun x f =>
      M3.convertF32ToBF16_or x _ _ f).2 hnot

theorem vfwcvtbf16ffv_sameEffect_iff (hvd : inst.vd = some vd) (hvs2 : inst.vs2 = some vs2) :
    SameEffect state (vfwcvtbf16ffv fresh inst state) (M3.vfwcvtbf16ffv inst state) ↔
      EffectsAgree (fun x => (M3.convertBF16ToF32Precise x).1)
        (fun x => (M3.convertBF16ToF32Precise x).2)
        (fun x => (M3.convertBF16ToF32Precise x).2) (BoundTraps true inst vd vs2 state)
          (Refuses inst state)
        inst vd vs2 state := by
  rw [effectsAgree_iff]
  exact sameEffect_iff fillsRegister_32 (vfwcvtbf16ffv_hasEffect fresh hvd hvs2)
    (M3.vfwcvtbf16ffv_hasEffect hvd hvs2)

theorem vfncvtbf16ffw_sameEffect_iff (hvd : inst.vd = some vd) (hvs2 : inst.vs2 = some vs2) :
    SameEffect state (vfncvtbf16ffw fresh inst state) (M3.vfncvtbf16ffw inst state) ↔
      EffectsAgree (fun x =>
        (M3.convertF32ToBF16 x state.rvFp.getRoundingMode (some state.rvFp) 0).1)
        (fun x => (convertF32ToBF16 x (some state.rvFp) 0).2)
        (fun x => (M3.convertF32ToBF16 x state.rvFp.getRoundingMode (some state.rvFp) 0).2)
        (BoundTraps false inst vd vs2 state) (Refuses inst state ∨ ¬ state.rvFp.roundingModeValid)
        inst vd vs2 state := by
  rw [effectsAgree_iff]
  exact sameEffect_iff fillsRegister_16 (vfncvtbf16ffw_hasEffect fresh hvd hvs2)
    (M3.vfncvtbf16ffw_hasEffect hvd hvs2)

/-- **When the bound conversions do what those of the M3 instructions do.** -/
theorem bound_conversions_sameEffect_iff (inst : ConvertOperands) (state : VectorFpState) :
    (SameEffect state (vfwcvtbf16ffv fresh inst state) (M3.vfwcvtbf16ffv inst state) ↔
      ∃ vd ∈ inst.vd, ∃ vs2 ∈ inst.vs2,
        EffectsAgree (fun x => (M3.convertBF16ToF32Precise x).1)
          (fun x => (M3.convertBF16ToF32Precise x).2)
          (fun x => (M3.convertBF16ToF32Precise x).2) (BoundTraps true inst vd vs2 state)
            (Refuses inst state)
          inst vd vs2 state) ∧
    (SameEffect state (vfncvtbf16ffw fresh inst state) (M3.vfncvtbf16ffw inst state) ↔
      ∃ vd ∈ inst.vd, ∃ vs2 ∈ inst.vs2,
        EffectsAgree (fun x =>
          (M3.convertF32ToBF16 x state.rvFp.getRoundingMode (some state.rvFp) 0).1)
          (fun x => (convertF32ToBF16 x (some state.rvFp) 0).2)
          (fun x => (M3.convertF32ToBF16 x state.rvFp.getRoundingMode (some state.rvFp) 0).2)
          (BoundTraps false inst vd vs2 state) (Refuses inst state ∨ ¬ state.rvFp.roundingModeValid)
          inst vd vs2 state) := by
  cases hvd : inst.vd with
  | none =>
      simp only [vfwcvtbf16ffv, vfncvtbf16ffw, hvd, Option.not_mem_none, false_and,
        exists_false, iff_false]
      exact ⟨not_sameEffect_none _, not_sameEffect_none _⟩
  | some vd =>
      cases hvs2 : inst.vs2 with
      | none =>
          simp only [vfwcvtbf16ffv, vfncvtbf16ffw, hvd, hvs2, Option.not_mem_none, false_and,
            exists_false, and_false, iff_false]
          exact ⟨not_sameEffect_none _, not_sameEffect_none _⟩
      | some vs2 =>
          simp only [Option.mem_some_iff, exists_eq_left']
          exact ⟨vfwcvtbf16ffv_sameEffect_iff fresh hvd hvs2,
            vfncvtbf16ffw_sameEffect_iff fresh hvd hvs2⟩

end Instructions

/-- Ones in the lower half of `v2`, and a `vl` of one. -/
def vlOne : VectorFpState :=
  ⟨fun reg => if reg = 2 then 0x3f803f803f803f80 else 0, 0, 0, 1, 8, 3, 3, ⟨0, true⟩, 0⟩

/-- **One element of a register**: the bound conversion converts the others as well. -/
theorem not_sameEffect_vlOne : ¬ SameEffect vlOne
    (vfwcvtbf16ffv 0 ⟨some v4v5, some v2, none⟩ vlOne)
      (M3.vfwcvtbf16ffv ⟨some v4v5, some v2, none⟩ vlOne) := by
  rw [vfwcvtbf16ffv_sameEffect_iff 0 rfl rfl]
  intro h
  rcases h.elements 1 (by decide) with hconverted | hsame
  · have hactive := (hconverted.1 ⟨by decide, by decide⟩).2
    exact absurd hactive.2.1 (by decide)
  · exact absurd hsame (by decide)

end CoralNpu
