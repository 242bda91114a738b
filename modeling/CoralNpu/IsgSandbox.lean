/-
**The address sandbox.**

`EmitDynamicMask` prints code that moves the address in `t6` into one of the two writable regions,
far enough from the end of the region for an access of a given size.  This module executes that
code: the lines are read as RV32 instructions, the part between saving and restoring only computes,
and the scratch registers come back from the stack.

Main definitions:

* `CoralNpu.InWritable`, `CoralNpu.InSandbox` — bytes of the writable regions, and those that a
  sandboxed access may touch;
* `CoralNpu.dynamicMaskText` — the lines of `EmitDynamicMask`;
* `CoralNpu.saveCode`, `CoralNpu.maskCode`, `CoralNpu.restoreCode` — what they stand for;
* `CoralNpu.sandboxed` — the address that comes out.

Main results:

* `CoralNpu.assemble_emitDynamicMask`, `CoralNpu.completes_emitDynamicMask` — the engine prints
  these lines, and does so if there is room for them;
* `CoralNpu.get_maskCode`, `CoralNpu.sandboxed_inSandbox` — the code between saving and restoring
  moves the address into the sandbox;
* `CoralNpu.emitDynamicMask_sound` — **the sandbox is sound**.
-/

import CoralNpu.IsgCompletion
import CoralNpu.Rv32Text
import CoralNpu.VsetText

set_option relaxedAutoImplicit false
set_option autoImplicit false

namespace CoralNpu

open AsciiText PartialState Rv32

variable {G : Prng}

/-! ### The lines -/

/-- The lines of a constant. -/
def constantText (reg : String) (value : BitVec 32) : List Text :=
  ("lui ".toList ++ reg.toList ++ ", 0x".toList ++ hex (upperPart value).toNat) ::
    if lowerPart value ≠ 0 then
      ["addi ".toList ++ reg.toList ++ ", ".toList ++ reg.toList ++ ", ".toList ++
        signed (lowerPart value)]
    else []

/-- The lines that move an address of region 1 past the reserved bytes. -/
def reservedClampText : List Text :=
  ["sltiu t1, t6, ".toList ++ decimal kReservedDtcmBytes, "sub t1, zero, t1".toList,
   "and t1, t1, t3".toList, "addi t2, zero, ".toList ++ decimal kReservedDtcmBytes,
   "sub t2, t2, t6".toList, "and t2, t2, t1".toList, "add t6, t6, t2".toList]

/-- The lines of `EmitDynamicMask`. -/
def dynamicMaskText (offsetSize : BitVec 32) : List Text :=
  let r1Mask := regionMask kDefaultRwRegionLength offsetSize
  let r2Mask := regionMask kDefaultRwRegion2Length offsetSize
  dynamicMaskEntry.map String.toList ++ (constantText "t2" (r2Mask - r1Mask) ++
    (["and t2, t2, t3".toList] ++ (constantText "t1" r2Mask ++
    (dynamicMaskRemainder.map String.toList ++
    ((if r1Mask.toNat > kReservedDtcmBytes then reservedClampText else []) ++
    dynamicMaskExit.map String.toList)))))

theorem isOperand_signed (z : ℤ) : IsOperand (signed z) := by
  rw [signed]
  split
  · obtain ⟨hword, hcolon, hnul⟩ := isOperand_decimal z.natAbs
    exact ⟨isWord_cons (by decide) hword, by simpa using hcolon, by simpa using hnul⟩
  · exact isOperand_decimal _

theorem addsWords_pure : AddsWords (pure () : EngineM G Unit) [] := by
  intro e u e' hrun
  cases hrun
  exact (List.append_nil _).symm

section Constant

variable {reg : String} (hreg : IsOperand reg.toList)
include hreg

theorem plainLine_lui (n : ℕ) :
    PlainLine ("lui ".toList ++ reg.toList ++ ", 0x".toList ++ hex n) := by
  have hnewline := newline_not_mem hreg.isWord
  have hline : "lui ".toList ++ reg.toList ++ ", 0x".toList ++ hex n =
      'l' :: ("ui ".toList ++ reg.toList ++ ", 0x".toList) ++ hex n := rfl
  rw [hline]
  refine plainLine_append (by decide) ?_ (isOperand_hex n)
  simp [hnewline, hreg.nul]

theorem plainLine_addi (z : ℤ) : PlainLine ("addi ".toList ++ reg.toList ++ ", ".toList ++
    reg.toList ++ ", ".toList ++ signed z) := by
  have hnewline := newline_not_mem hreg.isWord
  have hline : "addi ".toList ++ reg.toList ++ ", ".toList ++ reg.toList ++
      ", ".toList ++ signed z =
      'a' :: ("ddi ".toList ++ reg.toList ++ ", ".toList ++ reg.toList ++ ", ".toList) ++
        signed z :=
    rfl
  rw [hline]
  refine plainLine_append (by decide) ?_ (isOperand_signed z)
  simp [hnewline, hreg.nul]

/-- The emitted constant. -/
theorem addsWords_emitConstant (value : BitVec 32) :
    AddsWords (emitConstant reg value : EngineM G Unit) (constantText reg value) := by
  rw [emitConstant, constantText, ← List.singleton_append]
  refine .bind (addsWords_emitInstructionFormat (plainLine_lui hreg _)) ?_
  split
  · exact addsWords_emitInstructionFormat (plainLine_addi hreg _)
  · exact addsWords_pure

end Constant

theorem addsWords_emitReservedClamp :
    AddsWords (emitReservedClamp : EngineM G Unit) reservedClampText := by
  have hsltiu : PlainLine ("sltiu t1, t6, ".toList ++ decimal kReservedDtcmBytes) := by decide
  have haddi : PlainLine ("addi t2, zero, ".toList ++ decimal kReservedDtcmBytes) := by decide
  have hmask : ∀ inst ∈ ["sub t1, zero, t1", "and t1, t1, t3"], PlainLine inst.toList := by decide
  have hmove : ∀ inst ∈ ["sub t2, t2, t6", "and t2, t2, t1", "add t6, t6, t2"],
      PlainLine inst.toList := by decide
  exact .bind (addsWords_emitInstructionFormat hsltiu) (.bind (addsWords_emitInstructions hmask)
    (.bind (addsWords_emitInstructionFormat haddi) (addsWords_emitInstructions hmove)))

/-- **The engine emits these lines.** -/
theorem addsWords_emitDynamicMaskLines (offsetSize : BitVec 32) :
    AddsWords (emitDynamicMaskLines offsetSize : EngineM G Unit) (dynamicMaskText offsetSize) := by
  have hentry : ∀ inst ∈ dynamicMaskEntry, PlainLine inst.toList := by decide
  have hand : PlainLine "and t2, t2, t3".toList := by decide
  have hremainder : ∀ inst ∈ dynamicMaskRemainder, PlainLine inst.toList := by decide
  have hexit : ∀ inst ∈ dynamicMaskExit, PlainLine inst.toList := by decide
  have ht1 : IsOperand "t1".toList := ⟨by decide, by decide, by decide⟩
  have ht2 : IsOperand "t2".toList := ⟨by decide, by decide, by decide⟩
  refine .bind (addsWords_emitInstructions hentry) (.bind (addsWords_emitConstant ht2 _)
    (.bind (addsWords_emitInstruction hand) (.bind (addsWords_emitConstant ht1 _)
      (.bind (addsWords_emitInstructions hremainder)
        (.bind ?_ (addsWords_emitInstructions hexit))))))
  split
  · exact addsWords_emitReservedClamp
  · exact addsWords_pure

/-- A constant takes two lines at most. -/
theorem completes_emitConstant {reg : String} (hreg : IsRegister reg.toList) (value : BitVec 32) :
    Completes (emitConstant reg value : EngineM G Unit) 2 60 2 := by
  simp only [emitConstant, List.append_assoc]
  exact (completes_lui hreg (BitVec.isLt _)).bind fun _ => .ite (completes_addi hreg _)
    ((Completes.pure ()).weaken (Nat.zero_le _) (Nat.zero_le _) (Nat.zero_le _))

theorem completes_emitReservedClamp :
    Completes (emitReservedClamp : EngineM G Unit) 7 280 7 := by
  have hsltiu : Completes (emitInstructionFormat ("sltiu t1, t6, ".toList ++
      decimal kReservedDtcmBytes) : EngineM G Unit) 1 40 1 :=
    completes_operandLine (by decide) (by decide) (isOperand_decimal _) (by decide)
  have haddi : Completes (emitInstructionFormat ("addi t2, zero, ".toList ++
      decimal kReservedDtcmBytes) : EngineM G Unit) 1 40 1 :=
    completes_operandLine (by decide) (by decide) (isOperand_decimal _) (by decide)
  exact hsltiu.bind fun _ => (completes_instructions _ (n := 2) rfl (by decide)).bind fun _ =>
    haddi.bind fun _ => completes_instructions _ (n := 3) rfl (by decide)

/-- **The engine prints the sandbox**, given room for 37 lines. -/
theorem completes_emitDynamicMask (offsetSize : BitVec 32) :
    Completes (emitDynamicMask offsetSize : EngineM G Unit) 37 1440 37 := by
  have hclamp (r1Mask : BitVec 32) : Completes (if r1Mask.toNat > kReservedDtcmBytes then
      emitReservedClamp else pure () : EngineM G Unit) 7 280 7 :=
    .ite completes_emitReservedClamp
      ((Completes.pure ()).weaken (Nat.zero_le _) (Nat.zero_le _) (Nat.zero_le _))
  have hlines : Completes (emitDynamicMaskLines offsetSize : EngineM G Unit) 37 1440 37 :=
    (completes_instructions dynamicMaskEntry (n := 11) rfl (by decide)).bind fun _ =>
    (completes_emitConstant (by decide) _).bind fun _ =>
    (completes_instruction "and t2, t2, t3" (by decide)).bind fun _ =>
    (completes_emitConstant (by decide) _).bind fun _ =>
    (completes_instructions dynamicMaskRemainder (n := 8) rfl (by decide)).bind fun _ =>
    (hclamp _).bind fun _ => completes_instructions dynamicMaskExit (n := 6) rfl (by decide)
  have hread : Completes (strictSandboxing : EngineM G _) 0 0 0 :=
    fun _ he => ⟨_, _, rfl, rfl, Nat.le_refl _, Nat.le_refl _, Nat.le_refl _, he.fit⟩
  exact hread.bind fun _ => .ite hlines
    ((Completes.pure ()).weaken (Nat.zero_le _) (Nat.zero_le _) (Nat.zero_le _))

/-! ### The code -/

theorem instructionsOf_append {front back : List Text} {is js : List Rv32.Instruction}
    (h : instructionsOf front = some is) (h' : instructionsOf back = some js) :
    instructionsOf (front ++ back) = some (is ++ js) := by
  rw [instructionsOf] at *
  rw [List.mapM_append, h, h']
  rfl

theorem instructionOf_lui {reg : Text} (hword : IsWord reg) {rd : Reg} (hreg : regOf reg = some rd)
    {n : ℕ} (h : n < 2 ^ 20) : instructionOf ("lui ".toList ++ reg ++ ", 0x".toList ++ hex n) =
      some (.lui rd (BitVec.ofNat 20 n)) := by
  rw [instructionOf, tokens_lui hword]
  simp [hreg, unsignedOf_hex h]

theorem immOpOf_addi : immOpOf "addi".toList = some .addi := by decide

theorem instructionOf_addi {reg : Text} (hword : IsWord reg) {rd : Reg} (hreg : regOf reg = some rd)
    {z : ℤ} (h : -(2 ^ 11 : ℤ) ≤ z) (h' : z < 2 ^ 11) :
    instructionOf ("addi ".toList ++ reg ++ ", ".toList ++ reg ++ ", ".toList ++ signed z) =
      some (.opImm .addi rd rd (BitVec.ofInt 12 z)) := by
  have himm : signedOf 12 (signed z) = some (BitVec.ofInt 12 z) := signedOf_signed h h'
  rw [instructionOf, tokens_addi hword hword (isWord_signed z)]
  simp only [threeOperands, immOpOf_addi, hreg, himm]
  rfl

/-- The code of a constant. -/
def constantCode (rd : Reg) (value : BitVec 32) : List Rv32.Instruction :=
  .lui rd (hi20 value) :: if lowerPart value ≠ 0 then [.opImm .addi rd rd (lo12 value)] else []

/-- The upper part fits the immediate of `lui`. -/
theorem upperPart_lt (value : BitVec 32) : (upperPart value).toNat < 2 ^ 20 := by
  have hlt := (value + 0x800).isLt
  simp only [upperPart, BitVec.toNat_ushiftRight, Nat.shiftRight_eq_div_pow]
  omega

/-- The lower part fits the immediate of `addi`. -/
theorem lowerPart_bounds (value : BitVec 32) :
    -(2 ^ 11 : ℤ) ≤ lowerPart value ∧ lowerPart value < 2 ^ 11 := by
  have hsmall := lower_small value
  rw [lowerPart, BitVec.toInt_eq_toNat_cond]
  split <;> omega

theorem ofInt_lowerPart (value : BitVec 32) : BitVec.ofInt 12 (lowerPart value) = lo12 value :=
  BitVec.signExtend_eq_setWidth_of_le _ (by decide)

theorem instructionsOf_constantText {reg : String} (hword : IsWord reg.toList) {rd : Reg}
    (hreg : regOf reg.toList = some rd) (value : BitVec 32) :
    instructionsOf (constantText reg value) = some (constantCode rd value) := by
  have hlui := instructionOf_lui hword hreg (upperPart_lt value)
  rw [BitVec.ofNat_toNat] at hlui
  obtain ⟨hlo, hhi⟩ := lowerPart_bounds value
  have haddi := instructionOf_addi hword hreg hlo hhi
  rw [ofInt_lowerPart] at haddi
  rw [constantText, constantCode]
  split
  · simp only [instructionsOf, List.mapM_cons, hlui, haddi, List.mapM_nil]
    rfl
  · simp only [instructionsOf, List.mapM_cons, hlui, List.mapM_nil]
    rfl

/-- The code of a constant sets the register. -/
theorem afterAll_constantCode {rd : Reg} (h : rd ≠ 0) (value : BitVec 32) (s : Hart) :
    s.afterAll (constantCode rd value) = s.set rd value := by
  rw [constantCode]
  split
  · exact s.afterAll_constant h value
  · rename_i hzero
    refine s.afterAll_lui ?_
    have hlower : value - (value + 0x800) >>> 12 <<< 12 = 0#32 :=
      BitVec.eq_of_toInt_eq (not_not.1 hzero)
    rw [lo12, hlower]
    rfl

/-- Saving the scratch registers below the stack pointer. -/
def saveCode : List Rv32.Instruction :=
  [.opImm .addi 2 2 (-16), .sw 6 2 0, .sw 7 2 4, .sw 28 2 8, .sw 30 2 12]

/-- Bit 29 of the address into `t5`, and a mask into `t3`. -/
def selectCode : List Rv32.Instruction :=
  [.shift .srli 30 31 0x1d, .shift .slli 30 30 0x1d, .lui 6 0x20000, .op .and 30 30 6,
   .opImm .sltiu 6 30 1, .op .sub 28 0 6]

/-- The number of offsets into the region, into `t2`. -/
def modulusCode (r1Mask r2Mask : BitVec 32) : List Rv32.Instruction :=
  constantCode 7 (r2Mask - r1Mask) ++ [.op .and 7 7 28] ++ constantCode 6 r2Mask ++ [.op .sub 7 6 7]

/-- The start of the region into `t5`, and an offset into it into `t6`. -/
def remainderCode : List Rv32.Instruction :=
  [.lui 6 0x10, .op .and 6 6 28, .op .or 30 30 6, .op .sub 31 31 30, .opImm .sltiu 6 7 1,
   .op .add 7 7 6, .op .remu 31 31 7]

/-- An offset into region 1 past the reserved bytes. -/
def clampCode : List Rv32.Instruction :=
  [.opImm .sltiu 6 31 512, .op .sub 6 0 6, .op .and 6 6 28, .opImm .addi 7 0 512, .op .sub 7 7 31,
   .op .and 7 7 6, .op .add 31 31 7]

/-- The code between saving and restoring. -/
def maskCode (r1Mask r2Mask : BitVec 32) : List Rv32.Instruction :=
  selectCode ++ (modulusCode r1Mask r2Mask ++ (remainderCode ++ (clampCode ++ [.op .add 31 31 30])))

/-- Restoring the scratch registers. -/
def restoreCode : List Rv32.Instruction :=
  [.lw 6 2 0, .lw 7 2 4, .lw 28 2 8, .lw 30 2 12, .opImm .addi 2 2 16]

theorem instructionsOf_dynamicMaskText {offsetSize : BitVec 32}
    (h : kReservedDtcmBytes < (regionMask kDefaultRwRegionLength offsetSize).toNat) :
    instructionsOf (dynamicMaskText offsetSize) =
      some (saveCode ++ (maskCode (regionMask kDefaultRwRegionLength offsetSize)
        (regionMask kDefaultRwRegion2Length offsetSize) ++ restoreCode)) := by
  have hentry : instructionsOf (dynamicMaskEntry.map String.toList) =
      some (saveCode ++ selectCode) := by
    decide
  have hand : instructionsOf ["and t2, t2, t3".toList] = some [.op .and 7 7 28] := by decide
  have hremainder : instructionsOf (dynamicMaskRemainder.map String.toList) =
      some (.op .sub 7 6 7 :: remainderCode) := by
    decide
  have hclamp : instructionsOf reservedClampText = some clampCode := by decide
  have hexit : instructionsOf (dynamicMaskExit.map String.toList) =
      some (.op .add 31 31 30 :: restoreCode) := by
    decide
  have ht1 : IsWord "t1".toList ∧ regOf "t1".toList = some 6 := by decide
  have ht2 : IsWord "t2".toList ∧ regOf "t2".toList = some 7 := by decide
  have hlines := instructionsOf_append hentry (instructionsOf_append
    (instructionsOf_constantText ht2.1 ht2.2 (regionMask kDefaultRwRegion2Length offsetSize -
      regionMask kDefaultRwRegionLength offsetSize)) (instructionsOf_append hand
    (instructionsOf_append (instructionsOf_constantText ht1.1 ht1.2
      (regionMask kDefaultRwRegion2Length offsetSize)) (instructionsOf_append hremainder
    (instructionsOf_append hclamp hexit)))))
  simp only [dynamicMaskText, if_pos h, hlines]
  simp [maskCode, modulusCode]

/-! ### What the code computes -/

/-- The bit that chooses the region. -/
def choosesRegion2 (a : BitVec 32) : Bool := a.getLsbD 29

/-- A mask of ones. -/
theorem and_ones (a : BitVec 32) : a &&& 0xffffffff#32 = a := BitVec.and_allOnes

/-- A value below a bound is replaced by the bound through a mask. -/
theorem add_masked (a bound : BitVec 32) :
    a + ((bound - a) &&& (0 - if a < bound then 1 else 0)) = if a < bound then bound else a := by
  split
  · rw [show (0 - 1 : BitVec 32) = 0xffffffff#32 from rfl, and_ones, add_sub_cancel]
  · simp

section Computes

variable (s : Hart) (r1Mask r2Mask : BitVec 32)

theorem get_selectCode : (s.afterAll selectCode).get 31 = s.get 31 ∧
    (s.afterAll selectCode).get 30 = (if choosesRegion2 (s.get 31) then 0x20000000 else 0) ∧
    (s.afterAll selectCode).get 28 =
      (if choosesRegion2 (s.get 31) then 0 else BitVec.allOnes 32) := by
  have hbit : (s.get 31 >>> 29 <<< 29) &&& 0x20000000#32 =
      if choosesRegion2 (s.get 31) then 0x20000000#32 else 0#32 := by
    have htwo : 0x20000000#32 = BitVec.twoPow 32 29 := rfl
    rw [htwo, BitVec.and_twoPow, choosesRegion2]
    simp
  refine ⟨rfl, ?_, ?_⟩
  · simp [selectCode, Hart.after, RegOp.apply, ShiftOp.apply, ImmOp.apply]
    exact hbit
  · simp only [selectCode, Hart.afterAll_cons, Hart.afterAll_nil, Hart.after, RegOp.apply,
      ShiftOp.apply, ImmOp.apply]
    simp [hbit]
    cases choosesRegion2 (s.get 31) <;> rfl

theorem get_modulusCode : (s.afterAll (modulusCode r1Mask r2Mask)).get 31 = s.get 31 ∧
    (s.afterAll (modulusCode r1Mask r2Mask)).get 30 = s.get 30 ∧
    (s.afterAll (modulusCode r1Mask r2Mask)).get 28 = s.get 28 ∧
    (s.afterAll (modulusCode r1Mask r2Mask)).get 7 = r2Mask - ((r2Mask - r1Mask) &&& s.get 28) := by
  have ht1 : (6 : Reg) ≠ 0 := by decide
  have ht2 : (7 : Reg) ≠ 0 := by decide
  simp only [modulusCode, Hart.afterAll_append, afterAll_constantCode ht1,
    afterAll_constantCode ht2]
  simp [Hart.after, RegOp.apply]

theorem get_remainderCode (h : s.get 7 ≠ 0) :
    (s.afterAll remainderCode).get 28 = s.get 28 ∧
    (s.afterAll remainderCode).get 30 = (s.get 30 ||| (0x10000 &&& s.get 28)) ∧
    (s.afterAll remainderCode).get 31 =
      (s.get 31 - (s.get 30 ||| (0x10000 &&& s.get 28))) % s.get 7 := by
  have hne : ¬ s.get 7 = 0#32 := h
  simp [remainderCode, Hart.after, RegOp.apply, ImmOp.apply, hne]

theorem get_clampCode :
    (s.afterAll clampCode).get 30 = s.get 30 ∧
    (s.afterAll clampCode).get 31 = s.get 31 + ((512 - s.get 31) &&&
      ((0 - if s.get 31 < 512 then 1 else 0) &&& s.get 28)) := by
  simp [clampCode, Hart.after, RegOp.apply, ImmOp.apply]

/-- An offset moved past the reserved bytes. -/
def pastReserved (offset : BitVec 32) : BitVec 32 := if offset < 512 then 512 else offset

/-- The address moved into the sandbox: an offset into the region, past the reserved bytes of region
1. -/
def sandboxed (a : BitVec 32) : BitVec 32 :=
  if choosesRegion2 a then (a - 0x20000000) % r2Mask + 0x20000000
  else pastReserved ((a - 0x10000) % r1Mask) + 0x10000

/-- **The code between saving and restoring moves the address into the sandbox.** -/
theorem get_maskCode (h1 : r1Mask ≠ 0) (h2 : r2Mask ≠ 0) :
    (s.afterAll (maskCode r1Mask r2Mask)).get 31 = sandboxed r1Mask r2Mask (s.get 31) := by
  simp only [maskCode, Hart.afterAll_append]
  obtain ⟨ha, hb, hc⟩ := get_selectCode s
  generalize s.afterAll selectCode = s₁ at ha hb hc ⊢
  obtain ⟨ha', hb', hc', hmodulus⟩ := get_modulusCode s₁ r1Mask r2Mask
  generalize s₁.afterAll (modulusCode r1Mask r2Mask) = s₂ at ha' hb' hc' hmodulus ⊢
  have hmodulus : s₂.get 7 = if choosesRegion2 (s.get 31) then r2Mask else r1Mask := by
    rw [hmodulus, hc]
    cases choosesRegion2 (s.get 31) <;> simp [and_ones]
  have hne : s₂.get 7 ≠ 0 := by
    rw [hmodulus]
    split
    · exact h2
    · exact h1
  obtain ⟨hmask, hbase, hoffset⟩ := get_remainderCode s₂ hne
  generalize s₂.afterAll remainderCode = s₃ at hmask hbase hoffset ⊢
  obtain ⟨hbase', hclamped⟩ := get_clampCode s₃
  generalize s₃.afterAll clampCode = s₄ at hbase' hclamped ⊢
  have hlast : (s₄.afterAll [.op .add 31 31 30]).get 31 = s₄.get 31 + s₄.get 30 := by
    simp [Hart.after, RegOp.apply]
  rw [hlast, hclamped, hbase', hoffset, hbase, hmask, hmodulus, ha', ha, hb', hb, hc',
    hc, sandboxed]
  cases choosesRegion2 (s.get 31)
  · have hclamp := add_masked ((s.get 31 - 0x10000) % r1Mask) 512
    simpa [and_ones, pastReserved] using hclamp
  · simp

end Computes

/-! ### The writable regions -/

/-- The bytes are in one of the two writable regions. -/
def InWritable (a n : ℕ) : Prop :=
  (kDefaultRwRegionStart ≤ a ∧ a + n ≤ kDefaultRwRegionStart + kDefaultRwRegionLength) ∨
    (kDefaultRwRegion2Start ≤ a ∧ a + n ≤ kDefaultRwRegion2Start + kDefaultRwRegion2Length)

instance (a n : ℕ) : Decidable (InWritable a n) := inferInstanceAs (Decidable (_ ∨ _))

/-- The RAM of the simulator. -/
def isRam (a : BitVec 32) : Bool := decide (InWritable a.toNat 1)

/-- The bytes are in a writable region, and not among the reserved bytes. -/
def InSandbox (a n : ℕ) : Prop :=
  (kDefaultRwRegionStart + kReservedDtcmBytes ≤ a ∧
      a + n ≤ kDefaultRwRegionStart + kDefaultRwRegionLength) ∨
    (kDefaultRwRegion2Start ≤ a ∧ a + n ≤ kDefaultRwRegion2Start + kDefaultRwRegion2Length)

theorem toNat_regionMask {length : ℕ} (hlength : length < 2 ^ 31) {offsetSize : BitVec 32}
    (h : offsetSize.toNat ≤ length) (hpos : 1 ≤ offsetSize.toNat) :
    (regionMask length offsetSize).toNat = length - offsetSize.toNat + 1 := by
  have hone : (1 : BitVec 32).toNat = 1 := rfl
  rw [regionMask]
  split
  · simp only [BitVec.toNat_add, BitVec.toNat_sub, BitVec.toNat_ofNat, hone]
    omega
  · rw [hone]
    omega

/-- The number of places for the bytes of an access is not zero. -/
theorem regionMask_ne_zero {length : ℕ} (hlength : length < 2 ^ 31) {offsetSize : BitVec 32}
    (h : offsetSize.toNat ≤ length) (hpos : 1 ≤ offsetSize.toNat) :
    regionMask length offsetSize ≠ 0 := by
  have hmask := toNat_regionMask hlength h hpos
  intro hzero
  rw [hzero, BitVec.ofNat_eq_ofNat, BitVec.toNat_ofNat, Nat.zero_mod] at hmask
  omega

section Regions

variable {offsetSize : BitVec 32} (hpos : 1 ≤ offsetSize.toNat) {a : BitVec 32}
include hpos

/-- An address that chooses region 2 is moved into it. -/
theorem sandboxed_inRegion2 (hle : offsetSize.toNat ≤ kDefaultRwRegion2Length) {r1Mask : BitVec 32}
    (h : choosesRegion2 a = true) :
    kDefaultRwRegion2Start ≤
        (sandboxed r1Mask (regionMask kDefaultRwRegion2Length offsetSize) a).toNat ∧
      (sandboxed r1Mask (regionMask kDefaultRwRegion2Length offsetSize) a).toNat +
        offsetSize.toNat ≤ kDefaultRwRegion2Start + kDefaultRwRegion2Length := by
  have hregion : kDefaultRwRegion2Start = 0x20000000 ∧ kDefaultRwRegion2Length = 0x400000 :=
    ⟨rfl, rfl⟩
  have hr2 := toNat_regionMask (by decide : kDefaultRwRegion2Length < 2 ^ 31) (by omega) hpos
  generalize regionMask kDefaultRwRegion2Length offsetSize = r2Mask at hr2 ⊢
  rw [sandboxed, if_pos h]
  have hlt : ((a - 0x20000000) % r2Mask).toNat < r2Mask.toNat := by
    rw [BitVec.toNat_umod]
    exact Nat.mod_lt _ (by omega)
  generalize (a - 0x20000000) % r2Mask = offset at hlt ⊢
  have hbase : (0x20000000 : BitVec 32).toNat = 0x20000000 := rfl
  have hsum : (offset + 0x20000000).toNat = offset.toNat + 0x20000000 :=
    BitVec.toNat_add_of_lt (by omega)
  omega

/-- Any other address is moved into region 1, past the reserved bytes. -/
theorem sandboxed_inRegion1 (hle : offsetSize.toNat ≤ kDefaultRwRegionLength - kReservedDtcmBytes)
    {r2Mask : BitVec 32} (h : choosesRegion2 a = false) :
    kDefaultRwRegionStart + kReservedDtcmBytes ≤
        (sandboxed (regionMask kDefaultRwRegionLength offsetSize) r2Mask a).toNat ∧
      (sandboxed (regionMask kDefaultRwRegionLength offsetSize) r2Mask a).toNat +
        offsetSize.toNat ≤ kDefaultRwRegionStart + kDefaultRwRegionLength := by
  have hregion : kDefaultRwRegionStart = 0x10000 ∧ kDefaultRwRegionLength = 0x8000 ∧
      kReservedDtcmBytes = 512 := ⟨rfl, rfl, rfl⟩
  have hr1 := toNat_regionMask (by decide : kDefaultRwRegionLength < 2 ^ 31) (by omega) hpos
  generalize regionMask kDefaultRwRegionLength offsetSize = r1Mask at hr1 ⊢
  rw [sandboxed, h, if_neg Bool.false_ne_true]
  have hlt : ((a - 0x10000) % r1Mask).toNat < r1Mask.toNat := by
    rw [BitVec.toNat_umod]
    exact Nat.mod_lt _ (by omega)
  generalize (a - 0x10000) % r1Mask = offset at hlt ⊢
  have hclamp : (pastReserved offset).toNat = max 512 offset.toNat := by
    rw [pastReserved]
    split
    · rename_i hsmall
      have : offset.toNat < 512 := hsmall
      simp
      omega
    · rename_i hlarge
      have : ¬ offset.toNat < 512 := hlarge
      omega
  generalize pastReserved offset = clamped at hclamp ⊢
  have hbase : (0x10000 : BitVec 32).toNat = 0x10000 := rfl
  have hsum : (clamped + 0x10000).toNat = clamped.toNat + 0x10000 :=
    BitVec.toNat_add_of_lt (by omega)
  omega

end Regions

theorem sandboxed_inSandbox {offsetSize : BitVec 32} (hpos : 1 ≤ offsetSize.toNat)
    (hle : offsetSize.toNat ≤ kDefaultRwRegionLength - kReservedDtcmBytes) (a : BitVec 32) :
    InSandbox (sandboxed (regionMask kDefaultRwRegionLength offsetSize)
      (regionMask kDefaultRwRegion2Length offsetSize) a).toNat offsetSize.toNat := by
  cases h : choosesRegion2 a with
  | false => exact Or.inl (sandboxed_inRegion1 hpos hle h)
  | true => exact Or.inr (sandboxed_inRegion2 hpos (le_trans hle (by decide)) h)

/-! ### The scratch registers -/

/-- The registers that the code between saving and restoring writes. -/
def scratch : List Reg := [6, 7, 28, 30, 31]

/-- An instruction that writes a scratch register, and no memory. -/
def WritesScratch (i : Rv32.Instruction) : Prop :=
  i.isRegister = true ∧ ∃ rd ∈ scratch, i.rd? = some rd

instance (i : Rv32.Instruction) : Decidable (WritesScratch i) := inferInstanceAs (Decidable (_ ∧ _))

theorem constantCode_writesScratch {rd : Reg} (hrd : rd ∈ scratch) (value : BitVec 32) :
    ∀ i ∈ constantCode rd value, WritesScratch i := by
  intro i hi
  rw [constantCode, List.mem_cons] at hi
  rcases hi with rfl | hi
  · exact ⟨rfl, rd, hrd, rfl⟩
  · split at hi
    · obtain rfl := List.mem_singleton.1 hi
      exact ⟨rfl, rd, hrd, rfl⟩
    · cases hi

theorem maskCode_writesScratch (r1Mask r2Mask : BitVec 32) :
    ∀ i ∈ maskCode r1Mask r2Mask, WritesScratch i := by
  have hselect : ∀ i ∈ selectCode, WritesScratch i := by decide
  have hand : ∀ i ∈ [Rv32.Instruction.op .and 7 7 28], WritesScratch i := by decide
  have hsub : ∀ i ∈ [Rv32.Instruction.op .sub 7 6 7], WritesScratch i := by decide
  have hremainder : ∀ i ∈ remainderCode, WritesScratch i := by decide
  have hclamp : ∀ i ∈ clampCode, WritesScratch i := by decide
  have hadd : ∀ i ∈ [Rv32.Instruction.op .add 31 31 30], WritesScratch i := by decide
  have ht2 := constantCode_writesScratch (by decide : (7 : Reg) ∈ scratch) (r2Mask - r1Mask)
  have ht1 := constantCode_writesScratch (by decide : (6 : Reg) ∈ scratch) r2Mask
  simp only [maskCode, modulusCode, List.forall_mem_append]
  exact ⟨hselect, ⟨⟨⟨ht2, hand⟩, ht1⟩, hsub⟩, hremainder, hclamp, hadd⟩

theorem get_maskCode_of_not_mem (r1Mask r2Mask : BitVec 32) (s : Hart) {r : Reg}
    (h : r ∉ scratch) : (s.afterAll (maskCode r1Mask r2Mask)).get r = s.get r := by
  refine get_afterAll fun i hi => ?_
  obtain ⟨-, rd, hrd, hi⟩ := maskCode_writesScratch r1Mask r2Mask i hi
  rintro heq
  rw [hi] at heq
  exact h (Option.some.inj heq ▸ hrd)

/-! ### Saving and restoring -/

/-- The sixteen bytes below the stack pointer are RAM. -/
def StackInRam (s : Hart) : Prop := ∀ k < 16, isRam (s.get 2 - 16 + BitVec.ofNat 32 k) = true

instance (s : Hart) : Decidable (StackInRam s) := inferInstanceAs (Decidable (∀ k < 16, _))

section Stack

variable {s : Hart}

/-- The four words of sixteen bytes. -/
theorem wordInRam_of_range {ram : BitVec 32 → Bool} {base : BitVec 32}
    (h : ∀ k < 16, ram (base + BitVec.ofNat 32 k) = true) {k : ℕ} (hk : k ≤ 12) :
    WordInRam ram (base + BitVec.ofNat 32 k) := by
  have hnext : ∀ j, base + BitVec.ofNat 32 k + BitVec.ofNat 32 j =
      base + BitVec.ofNat 32 (k + j) := by
    intro j
    rw [BitVec.add_assoc, ← BitVec.ofNat_add]
  refine ⟨h k (by omega), ?_, ?_, ?_⟩
  · exact hnext 1 ▸ h (k + 1) (by omega)
  · exact hnext 2 ▸ h (k + 2) (by omega)
  · exact hnext 3 ▸ h (k + 3) (by omega)

/-- The four words below the stack pointer. -/
theorem StackInRam.wordInRam (h : StackInRam s) {k : ℕ} (hk : k ≤ 12) :
    WordInRam isRam (s.get 2 - 16 + BitVec.ofNat 32 k) := wordInRam_of_range h hk

open WordMemory

/-- A place for a word below the stack pointer, which points at `base`. -/
def slot (base : BitVec 32) (k : ℕ) : BitVec 32 := base + BitVec.ofNat 32 k

/-- A memory with four words from `base` on. -/
def savedMemory (memory : BitVec 32 → BitVec 8) (base a b c d : BitVec 32) : BitVec 32 → BitVec 8 :=
  storeWord (storeWord (storeWord (storeWord memory (slot base 0) a) (slot base 4) b)
    (slot base 8) c) (slot base 12) d

theorem loadWord_slot_of_ne (memory : BitVec 32 → BitVec 8) (base value : BitVec 32) {i j : ℕ}
    (h : 4 ≤ (BitVec.ofNat 32 j - BitVec.ofNat 32 i).toNat)
    (h' : (BitVec.ofNat 32 j - BitVec.ofNat 32 i).toNat + 4 ≤ 2 ^ 32) :
    loadWord (storeWord memory (slot base i) value) (slot base j) =
      loadWord memory (slot base j) := by
  have hdiff : slot base j - slot base i = BitVec.ofNat 32 j - BitVec.ofNat 32 i :=
    add_sub_add_left_eq_sub _ _ base
  exact loadWord_storeWord_of_disjoint (by decide) memory value (hdiff ▸ h) (hdiff ▸ h')

/-- **The saved words are loaded again.** -/
theorem loadWord_savedMemory (memory : BitVec 32 → BitVec 8) (base a b c d : BitVec 32) :
    loadWord (savedMemory memory base a b c d) (slot base 0) = a ∧
    loadWord (savedMemory memory base a b c d) (slot base 4) = b ∧
    loadWord (savedMemory memory base a b c d) (slot base 8) = c ∧
    loadWord (savedMemory memory base a b c d) (slot base 12) = d := by
  have hw : 2 ≤ 32 := by decide
  refine ⟨?_, ?_, ?_, loadWord_storeWord hw _ _ _⟩
  · rw [savedMemory, loadWord_slot_of_ne _ _ _ (by decide) (by decide),
      loadWord_slot_of_ne _ _ _ (by decide) (by decide),
      loadWord_slot_of_ne _ _ _ (by decide) (by decide), loadWord_storeWord hw]
  · rw [savedMemory, loadWord_slot_of_ne _ _ _ (by decide) (by decide),
      loadWord_slot_of_ne _ _ _ (by decide) (by decide), loadWord_storeWord hw]
  · rw [savedMemory, loadWord_slot_of_ne _ _ _ (by decide) (by decide), loadWord_storeWord hw]

variable {ram : BitVec 32 → Bool} {base : BitVec 32}

/-- A store into a slot. -/
theorem execute_sw_slot {rs2 : Reg} {offset : BitVec 12} {k : ℕ} (hbase : s.get 2 = base)
    (hram : WordInRam ram (slot base k)) (hk : offset.signExtend 32 = BitVec.ofNat 32 k) :
    execute ram (.sw rs2 2 offset) s =
      some { s with memory := storeWord s.memory (slot base k) (s.get rs2) } := by
  rw [execute, hbase, hk, ← slot, if_pos hram]

/-- A load from a slot. -/
theorem execute_lw_slot {rd : Reg} {offset : BitVec 12} {k : ℕ} (hbase : s.get 2 = base)
    (hram : WordInRam ram (slot base k)) (hk : offset.signExtend 32 = BitVec.ofNat 32 k) :
    execute ram (.lw rd 2 offset) s = some (s.set rd (loadWord s.memory (slot base k))) := by
  rw [execute, hbase, hk, ← slot, if_pos hram]

/-- The state after saving. -/
def saved (s : Hart) : Hart :=
  { s.set 2 (s.get 2 - 16) with
    memory := savedMemory s.memory (s.get 2 - 16) (s.get 6) (s.get 7) (s.get 28) (s.get 30) }

theorem run_saveCode (hram : ∀ k ≤ 12, WordInRam ram (slot (s.get 2 - 16) k)) :
    run ram saveCode s = some (saved s) := by
  have hpush : execute ram (.opImm .addi 2 2 (-16)) s = some (s.set 2 (s.get 2 - 16)) := by
    rw [execute, ImmOp.apply, BitVec.sub_eq_add_neg,
      show (-16 : BitVec 12).signExtend 32 = -16 by decide]
  have hbase : ∀ memory, Hart.get { s.set 2 (s.get 2 - 16) with memory := memory } 2 =
      s.get 2 - 16 := by
    simp
  have hpushed : (s.set 2 (s.get 2 - 16)).get 2 = s.get 2 - 16 := by simp
  rw [saveCode, run, hpush, Option.bind_some,
    run, execute_sw_slot hpushed (hram 0 (by decide)) (by decide), Option.bind_some,
    run, execute_sw_slot (hbase _) (hram 4 (by decide)) (by decide), Option.bind_some,
    run, execute_sw_slot (hbase _) (hram 8 (by decide)) (by decide), Option.bind_some,
    run, execute_sw_slot (hbase _) (hram 12 (by decide)) (by decide), Option.bind_some, run]
  rfl

/-- The state after restoring, from words `a`, `b`, `c` and `d`. -/
def restored (s : Hart) (base a b c d : BitVec 32) : Hart :=
  ((((s.set 6 a).set 7 b).set 28 c).set 30 d).set 2 (base + 16)

theorem run_restoreCode (hbase : s.get 2 = base) (hram : ∀ k ≤ 12, WordInRam ram (slot base k)) :
    run ram restoreCode s = some (restored s base (loadWord s.memory (slot base 0))
      (loadWord s.memory (slot base 4)) (loadWord s.memory (slot base 8))
      (loadWord s.memory (slot base 12))) := by
  have hpop : (16 : BitVec 12).signExtend 32 = 16 := by decide
  rw [restoreCode, run, execute_lw_slot hbase (hram 0 (by decide)) (by decide), Option.bind_some,
    run, execute_lw_slot (by simpa using hbase) (hram 4 (by decide)) (by decide), Option.bind_some,
    run, execute_lw_slot (by simpa using hbase) (hram 8 (by decide)) (by decide), Option.bind_some,
    run, execute_lw_slot (by simpa using hbase) (hram 12 (by decide)) (by decide), Option.bind_some,
    run, execute, ImmOp.apply, hpop]
  simp [run, restored, hbase]

end Stack

/-- The code of the mask, with RAM below the stack pointer: it runs to its end, moves the address,
and keeps the other registers. -/
theorem run_dynamicMaskCode {ram : BitVec 32 → Bool} {s : Hart}
    (hram : ∀ k ≤ 12, WordInRam ram (slot (s.get 2 - 16) k)) {r1Mask r2Mask : BitVec 32}
    (h1 : r1Mask ≠ 0) (h2 : r2Mask ≠ 0) :
    ∃ s', run ram (saveCode ++ (maskCode r1Mask r2Mask ++ restoreCode)) s = some s' ∧
      s'.get 31 = sandboxed r1Mask r2Mask (s.get 31) ∧ ∀ r, r ≠ 31 → s'.get r = s.get r := by
  have hget : ∀ r, r ≠ 2 → (saved s).get r = s.get r := fun r hr => s.get_set_of_ne _ hr
  have hmask := run_of_isRegister ram
    (fun i hi => (maskCode_writesScratch r1Mask r2Mask i hi).1) (saved s)
  have hresult := get_maskCode (saved s) r1Mask r2Mask h1 h2
  have hkept := fun r (hr : r ∉ scratch) => get_maskCode_of_not_mem r1Mask r2Mask (saved s) hr
  have hmemory : ((saved s).afterAll (maskCode r1Mask r2Mask)).memory = (saved s).memory :=
    memory_afterAll _ _
  generalize (saved s).afterAll (maskCode r1Mask r2Mask) = masked at hmask hresult hkept hmemory
  have hbase : masked.get 2 = s.get 2 - 16 := (hkept 2 (by decide)).trans (by simp [saved])
  have hrestore := run_restoreCode hbase hram
  obtain ⟨ha, hb, hc, hd⟩ := loadWord_savedMemory s.memory (s.get 2 - 16) (s.get 6) (s.get 7)
    (s.get 28) (s.get 30)
  rw [hmemory, saved, ha, hb, hc, hd] at hrestore
  refine ⟨restored masked (s.get 2 - 16) (s.get 6) (s.get 7) (s.get 28) (s.get 30), ?_, ?_, ?_⟩
  · rw [run_append, run_saveCode hram, Option.bind_some, run_append, hmask, Option.bind_some,
      hrestore]
  · rw [← hget 31 (by decide), ← hresult]
    simp [restored]
  · intro r hr
    by_cases hstack : r = 2
    · subst hstack
      simp [restored]
    · rw [restored, Hart.get_set_of_ne _ _ hstack]
      by_cases hmem : r ∈ scratch
      · simp only [scratch, List.mem_cons, List.not_mem_nil, or_false] at hmem
        rcases hmem with rfl | rfl | rfl | rfl | rfl
        · simp
        · simp
        · simp
        · simp
        · exact absurd rfl hr
      · simp only [scratch, List.mem_cons, List.not_mem_nil, or_false, not_or] at hmem
        rw [Hart.get_set_of_ne _ _ hmem.2.2.2.1, Hart.get_set_of_ne _ _ hmem.2.2.1,
          Hart.get_set_of_ne _ _ hmem.2.1, Hart.get_set_of_ne _ _ hmem.1,
          hkept r (by simp [scratch, hmem]), hget r hstack]

/-- The words of the text that the engine prints. -/
theorem assemble_emitDynamicMask (offsetSize : BitVec 32) {e e' : IsgEngine G} {u : Unit}
    (hstrict : e.strictSandboxing = true) (hrun : (emitDynamicMask offsetSize).run e = some (u, e'))
    (hroom : HasRoom e) (hfit : UncheckedFit e') :
    assemble e'.text = assemble e.text ++ dynamicMaskText offsetSize := by
  refine assemble_of_words (Emission.emitDynamicMask offsetSize) hrun hroom hfit ?_
  obtain ⟨strict, e₁, hread, hrun⟩ := run_bind_eq_some.1 hrun
  cases hread
  rw [hstrict, if_pos rfl] at hrun
  exact addsWords_emitDynamicMaskLines offsetSize _ _ _ hrun

/-- **The sandbox is sound**: the engine emits code, if there is room for it, and the code moves the
address in `t6` to one where `offsetSize` bytes are in the sandbox, and keeps every other
register. -/
theorem emitDynamicMask_sound {offsetSize : BitVec 32} (hpos : 1 ≤ offsetSize.toNat)
    (hle : offsetSize.toNat ≤ kDefaultRwRegionLength - kReservedDtcmBytes) {s : Hart}
    (hstack : StackInRam s) :
    Completes (emitDynamicMask offsetSize : EngineM G Unit) 37 1440 37 ∧
    ∃ (code : List Text) (s' : Hart),
      (∀ (e : IsgEngine G) (u : Unit) (e' : IsgEngine G), e.strictSandboxing = true →
        (emitDynamicMask offsetSize).run e = some (u, e') → HasRoom e → UncheckedFit e' →
          assemble e'.text = assemble e.text ++ code) ∧
      runText isRam code s = some s' ∧ InSandbox (s'.get 31).toNat offsetSize.toNat ∧
      ∀ r, r ≠ 31 → s'.get r = s.get r := by
  have hlengths : kDefaultRwRegionLength = 0x8000 ∧ kDefaultRwRegion2Length = 0x400000 ∧
      kReservedDtcmBytes = 512 := ⟨rfl, rfl, rfl⟩
  have hr1 := toNat_regionMask (by decide : kDefaultRwRegionLength < 2 ^ 31) (by omega) hpos
  have h1 := regionMask_ne_zero (by decide : kDefaultRwRegionLength < 2 ^ 31) (by omega) hpos
  have h2 := regionMask_ne_zero (by decide : kDefaultRwRegion2Length < 2 ^ 31) (by omega) hpos
  obtain ⟨s', hrun, haddress, hkept⟩ :=
    run_dynamicMaskCode (fun k hk => hstack.wordInRam hk) h1 h2
  refine ⟨completes_emitDynamicMask offsetSize, dynamicMaskText offsetSize, s',
    fun e u e' => assemble_emitDynamicMask offsetSize, ?_, ?_, hkept⟩
  · have hclamp : kReservedDtcmBytes < (regionMask kDefaultRwRegionLength offsetSize).toNat := by
      omega
    rw [runText, instructionsOf_dynamicMaskText hclamp, Option.bind_some, hrun]
  · rw [haddress]
    exact sandboxed_inSandbox hpos hle _

/-- A word at address zero, with the stack pointer in region 1. -/
theorem emitDynamicMask_sound_word :
    let s : Hart := ⟨fun r => if r = 2 then 0x10100 else 0, fun _ => 0⟩
    Completes (emitDynamicMask 4 : EngineM mt19937_64 Unit) 37 1440 37 ∧
    ∃ (code : List Text) (s' : Hart),
      (∀ (e : IsgEngine mt19937_64) (u : Unit) (e' : IsgEngine mt19937_64),
        e.strictSandboxing = true → (emitDynamicMask 4).run e = some (u, e') → HasRoom e →
          UncheckedFit e' → assemble e'.text = assemble e.text ++ code) ∧
      runText isRam code s = some s' ∧ InSandbox (s'.get 31).toNat (4 : BitVec 32).toNat ∧
      ∀ r, r ≠ 31 → s'.get r = s.get r :=
  emitDynamicMask_sound (by decide) (by decide) (by decide)

end CoralNpu
