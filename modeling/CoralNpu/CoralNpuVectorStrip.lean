/-
**The element-wise instructions, and strip mining.**

An element-wise instruction computes every element of its destination from the elements of the same
index in its sources, and from the old element of the destination if it reads that.  Strip mined it
issues four operations.  These are the four plain instructions on the next registers, one after the
other, however the groups overlap.

Main definitions:

* `CoralNpu.elementwise`, `CoralNpu.elementwiseUnary` — the instructions for an operation on
  elements;
* `CoralNpu.coralNPUVAdd` and its companions — the instructions;
* `CoralNpu.ElementwiseOp`, `CoralNpu.ElementwiseOp.execute` — all of them.

Main results:

* `CoralNpu.runOps_congr` — runs of operations that agree;
* `CoralNpu.binaryOp_shift` — an operation of a strip-mined instruction is a plain one, further on;
* `CoralNpu.stripMine_eq_plain` — **strip mining is four plain instructions**.
-/

import CoralNpu.CoralNpuVectorBits
import CoralNpu.CoralNpuVectorFixedPoint

set_option relaxedAutoImplicit false
set_option autoImplicit false

namespace CoralNpu

/-! ### The instructions -/

section Instructions

/-- An instruction on elements of one size. -/
def elementwise (td t : ElementType)
    (op : BitVec td.bits → BitVec t.bits → BitVec t.bits → Option (BitVec td.bits))
    (scalar stripMine : Bool) : VectorOperands → VectorFile → Option VectorFile :=
  coralNPUBinaryVectorOp false false scalar stripMine op
    (commonBinaryOpGetArg1 td.size t.size t.size)
    (commonBinaryOpGetArg2 td.size t.size)

/-- An instruction that does not read its destination, whose operation is total. -/
def elementwiseTotal (t : ElementType) (op : BitVec t.bits → BitVec t.bits → BitVec t.bits) :
    (scalar stripMine : Bool) → VectorOperands → VectorFile → Option VectorFile :=
  elementwise t t fun _ vs1 vs2 => some (op vs1 vs2)

/-- A truth value as an element. -/
def ofTruth (t : ElementType) (p : Prop) [Decidable p] : BitVec t.bits := if p then 1 else 0

variable (t : ElementType)

/-- `CoralNPUVAdd`. -/
def coralNPUVAdd := elementwiseTotal t fun vs1 vs2 => vs1 + vs2

/-- `CoralNPUVSub`. -/
def coralNPUVSub := elementwiseTotal t fun vs1 vs2 => vs1 - vs2

/-- `CoralNPUVRSub`. -/
def coralNPUVRSub := elementwiseTotal t fun vs1 vs2 => vs2 - vs1

/-- `CoralNPUVEq`. -/
def coralNPUVEq := elementwiseTotal t fun vs1 vs2 => ofTruth t (vs1 = vs2)

/-- `CoralNPUVNe`. -/
def coralNPUVNe := elementwiseTotal t fun vs1 vs2 => ofTruth t (vs1 ≠ vs2)

/-- `CoralNPUVLt`. -/
def coralNPUVLt := elementwiseTotal t fun vs1 vs2 => ofTruth t (t.value vs1 < t.value vs2)

/-- `CoralNPUVLe`. -/
def coralNPUVLe := elementwiseTotal t fun vs1 vs2 => ofTruth t (t.value vs1 ≤ t.value vs2)

/-- `CoralNPUVGt`. -/
def coralNPUVGt := elementwiseTotal t fun vs1 vs2 => ofTruth t (t.value vs1 > t.value vs2)

/-- `CoralNPUVGe`. -/
def coralNPUVGe := elementwiseTotal t fun vs1 vs2 => ofTruth t (t.value vs1 ≥ t.value vs2)

/-- `CoralNPUVAbsd`. -/
def coralNPUVAbsd := elementwise t.makeUnsigned t fun _ vs1 vs2 => some (vAbsd t vs1 vs2)

/-- `CoralNPUVMax`. -/
def coralNPUVMax := elementwiseTotal t fun vs1 vs2 => if t.value vs1 < t.value vs2 then vs2 else vs1

/-- `CoralNPUVMin`. -/
def coralNPUVMin := elementwiseTotal t fun vs1 vs2 => if t.value vs2 < t.value vs1 then vs2 else vs1

/-- `CoralNPUVAdd3`. -/
def coralNPUVAdd3 := elementwise t t fun vd vs1 vs2 => some (vd + vs1 + vs2)

/-- `CoralNPUVAdds`. -/
def coralNPUVAdds := elementwiseTotal t (vAddsHelper t)

/-- `CoralNPUVAddsu`. -/
def coralNPUVAddsu := elementwiseTotal t (vAddsuHelper t)

/-- `CoralNPUVSubs`. -/
def coralNPUVSubs := elementwiseTotal t (vSubsHelper t)

/-- `CoralNPUVSubsu`. -/
def coralNPUVSubsu := elementwiseTotal t (vSubsu t)

/-- `CoralNPUVHadd`. -/
def coralNPUVHadd (round : Bool) := elementwise t t fun _ => vHaddHelper false t round

/-- `CoralNPUVHsub`. -/
def coralNPUVHsub (round : Bool) := elementwise t t fun _ => vHsubHelper false t round

/-- `CoralNPUVAnd`. -/
def coralNPUVAnd := elementwiseTotal t fun vs1 vs2 => vs1 &&& vs2

/-- `CoralNPUVOr`. -/
def coralNPUVOr := elementwiseTotal t fun vs1 vs2 => vs1 ||| vs2

/-- `CoralNPUVXor`. -/
def coralNPUVXor := elementwiseTotal t fun vs1 vs2 => vs1 ^^^ vs2

/-- `CoralNPUVRev`. -/
def coralNPUVRev := elementwiseTotal t vRev

/-- `CoralNPUVRor`. -/
def coralNPUVRor := elementwiseTotal t vRor

/-- The amount of the shifts that do not saturate. -/
def shiftAmount (vs2 : BitVec t.bits) : ℕ := (vs2 &&& BitVec.ofNat t.bits (t.bits - 1)).toNat

/-- `CoralNPUVSll`. -/
def coralNPUVSll := elementwiseTotal t fun vs1 vs2 => vs1 <<< shiftAmount t vs2

/-- `CoralNPUVSra`. -/
def coralNPUVSra := elementwiseTotal t fun vs1 vs2 => vs1.sshiftRight (shiftAmount t vs2)

/-- `CoralNPUVSrl`. -/
def coralNPUVSrl := elementwiseTotal t fun vs1 vs2 => vs1 >>> shiftAmount t vs2

/-- `CoralNPUVShift`. -/
def coralNPUVShift (round : Bool) := elementwise t t fun _ => vShiftHelper t round

/-- `CoralNPUVMul`. -/
def coralNPUVMul := elementwise t t fun _ vs1 vs2 =>
  (t.wide.arith false (t.value vs1 * t.value vs2)).map (BitVec.ofInt t.bits)

/-- `CoralNPUVMuls`. -/
def coralNPUVMuls := elementwise t t fun _ => vMuls false t

/-- `CoralNPUVMulh`. -/
def coralNPUVMulh (round : Bool) := elementwise t t fun _ => vMulhHelper false t round

/-- `CoralNPUVDmulh`. -/
def coralNPUVDmulh (round roundNeg : Bool) :=
  elementwise t t fun _ => vDmulhHelper false t round roundNeg

/-- `CoralNPUVMacc`. -/
def coralNPUVMacc := elementwise t t (vMacc false t)

/-- `CoralNPUVMadd`. -/
def coralNPUVMadd := elementwise t t (vMadd false t)

/-- `CoralNPUVSel`. -/
def coralNPUVSel := elementwise t t fun vd vs1 vs2 => some (if vs1 &&& 1 ≠ 0 then vd else vs2)

/-- An instruction with one source. -/
def elementwiseUnary (op : BitVec t.bits → BitVec t.bits) (stripMine : Bool) :
    VectorOperands → VectorFile → Option VectorFile :=
  coralNPUUnaryVectorOp stripMine fun vs => some (op vs)

/-- `CoralNPUVNot`. -/
def coralNPUVNot := elementwiseUnary t fun vs => ~~~vs

/-- `CoralNPUVClb`. -/
def coralNPUVClb := elementwiseUnary t fun vs =>
  if vs &&& (1 <<< (t.bits - 1)) ≠ 0 then (~~~vs).clz else vs.clz

/-- `CoralNPUVClz`. -/
def coralNPUVClz := elementwiseUnary t BitVec.clz

/-- `CoralNPUVCpop`. -/
def coralNPUVCpop := elementwiseUnary t BitVec.cpop

/-- `CoralNPUVMv`. -/
def coralNPUVMv := elementwiseUnary t id

end Instructions

/-- The element-wise instructions. -/
inductive ElementwiseOp where
  | vAdd | vSub | vRSub | vEq | vNe | vLt | vLe | vGt | vGe | vAbsd | vMax | vMin | vAdd3
  | vAdds | vAddsu | vSubs | vSubsu | vHadd (round : Bool) | vHsub (round : Bool)
  | vAnd | vOr | vXor | vRev | vRor | vSll | vSra | vSrl | vShift (round : Bool)
  | vMul | vMuls | vMulh (round : Bool) | vDmulh (round roundNeg : Bool) | vMacc | vMadd | vSel
  | vNot | vClb | vClz | vCpop | vMv
  deriving DecidableEq

/-- What an instruction does to the registers, for elements of a type. -/
def ElementwiseOp.execute (t : ElementType) (scalar stripMine : Bool) (inst : VectorOperands)
    (file : VectorFile) : ElementwiseOp → Option VectorFile
  | vAdd => coralNPUVAdd t scalar stripMine inst file
  | vSub => coralNPUVSub t scalar stripMine inst file
  | vRSub => coralNPUVRSub t scalar stripMine inst file
  | vEq => coralNPUVEq t scalar stripMine inst file
  | vNe => coralNPUVNe t scalar stripMine inst file
  | vLt => coralNPUVLt t scalar stripMine inst file
  | vLe => coralNPUVLe t scalar stripMine inst file
  | vGt => coralNPUVGt t scalar stripMine inst file
  | vGe => coralNPUVGe t scalar stripMine inst file
  | vAbsd => coralNPUVAbsd t scalar stripMine inst file
  | vMax => coralNPUVMax t scalar stripMine inst file
  | vMin => coralNPUVMin t scalar stripMine inst file
  | vAdd3 => coralNPUVAdd3 t scalar stripMine inst file
  | vAdds => coralNPUVAdds t scalar stripMine inst file
  | vAddsu => coralNPUVAddsu t scalar stripMine inst file
  | vSubs => coralNPUVSubs t scalar stripMine inst file
  | vSubsu => coralNPUVSubsu t scalar stripMine inst file
  | vHadd round => coralNPUVHadd t round scalar stripMine inst file
  | vHsub round => coralNPUVHsub t round scalar stripMine inst file
  | vAnd => coralNPUVAnd t scalar stripMine inst file
  | vOr => coralNPUVOr t scalar stripMine inst file
  | vXor => coralNPUVXor t scalar stripMine inst file
  | vRev => coralNPUVRev t scalar stripMine inst file
  | vRor => coralNPUVRor t scalar stripMine inst file
  | vSll => coralNPUVSll t scalar stripMine inst file
  | vSra => coralNPUVSra t scalar stripMine inst file
  | vSrl => coralNPUVSrl t scalar stripMine inst file
  | vShift round => coralNPUVShift t round scalar stripMine inst file
  | vMul => coralNPUVMul t scalar stripMine inst file
  | vMuls => coralNPUVMuls t scalar stripMine inst file
  | vMulh round => coralNPUVMulh t round scalar stripMine inst file
  | vDmulh round roundNeg => coralNPUVDmulh t round roundNeg scalar stripMine inst file
  | vMacc => coralNPUVMacc t scalar stripMine inst file
  | vMadd => coralNPUVMadd t scalar stripMine inst file
  | vSel => coralNPUVSel t scalar stripMine inst file
  | vNot => coralNPUVNot t stripMine inst file
  | vClb => coralNPUVClb t stripMine inst file
  | vClz => coralNPUVClz t stripMine inst file
  | vCpop => coralNPUVCpop t stripMine inst file
  | vMv => coralNPUVMv t stripMine inst file

/-! ### Strip mining -/

/-- Runs of operations that agree. -/
theorem runOps_congr {op op' : ℕ → VectorFile → Option VectorFile} {n : ℕ}
    (h : ∀ k < n, ∀ file, op k file = op' k file) (file : VectorFile) :
    runOps op n file = runOps op' n file := by
  induction n with
  | zero => rfl
  | succ n ih =>
      rw [runOps, runOps, ih fun k hk => h k (Nat.lt_succ_of_lt hk)]
      exact congrArg _ (funext (h n (Nat.lt_succ_self n)))

/-- A single operation. -/
theorem runOps_one (op : ℕ → VectorFile → Option VectorFile) (file : VectorFile) :
    runOps op 1 file = op 0 file := rfl

/-- A single value. -/
theorem allSome_one {α : Type} [Inhabited α] (f : ℕ → Option α) :
    allSome 1 f = (f 0).map fun _ i => (f i).getD default := by
  rw [allSome]
  cases hzero : f 0 with
  | none =>
      refine if_neg fun h => ?_
      have hsome := h 0 Nat.one_pos
      rw [hzero] at hsome
      cases hsome
  | some a =>
      refine if_pos fun i hi => ?_
      obtain rfl : i = 0 := Nat.lt_one_iff.1 hi
      rw [hzero]
      rfl

section Shift

variable {td t1 t2 : ElementType}

/-- An operation with one destination. -/
theorem binaryOp_single (scalar : Bool) (numOps : ℕ)
    (op : BitVec td.bits → BitVec t1.bits → BitVec t2.bits → Option (BitVec td.bits))
    (arg1Getter arg2Getter : SourceArgGetter) (inst : VectorOperands) (k : ℕ) (file : VectorFile) :
    binaryOp 1 scalar numOps op arg1Getter arg2Getter inst k file =
      (binaryOpData scalar numOps op arg1Getter arg2Getter inst k file 0).map
        (Function.update file (inst.vd + k)) := by
  rw [binaryOp, allSome_one]
  cases hdata : binaryOpData scalar numOps op arg1Getter arg2Getter inst k file 0 with
  | none => rfl
  | some data => simp [submit, hdata]

/-- The first argument of an operation is that of a plain instruction, further on. -/
theorem getInstructionSource_arg1_shift (t : ElementType) (scalar : Bool) (inst : VectorOperands)
    (k : ℕ) (file : VectorFile) (e : ℕ) :
    inst.getInstructionSource t file
        (commonBinaryOpGetArg1 t.size t.size t.size scalar 4 k e 0) =
      (inst.shift k).getInstructionSource t file
        (commonBinaryOpGetArg1 t.size t.size t.size scalar 1 0 e 0) := by
  rw [commonBinaryOpGetArg1_same, commonBinaryOpGetArg1_same, Nat.zero_mul, Nat.zero_add]
  exact groupElement_add t file inst.vs1 k e

/-- The second argument likewise; a scalar stays. -/
theorem getInstructionSource_arg2_shift (t : ElementType) (inst : VectorOperands) (k : ℕ)
    (file : VectorFile) (e : ℕ) :
    inst.getInstructionSource t file
        (commonBinaryOpGetArg2 t.size t.size inst.vs2.isScalar 4 k e 0) =
      (inst.shift k).getInstructionSource t file
        (commonBinaryOpGetArg2 t.size t.size inst.vs2.isScalar 1 0 e 0) := by
  rw [commonBinaryOpGetArg2_same, commonBinaryOpGetArg2_same, Nat.zero_mul, Nat.zero_add]
  obtain ⟨vd, vs1, vs2⟩ := inst
  cases vs2 with
  | scalar value => rfl
  | group start => exact groupElement_add t file start k e

/-- **An operation of a strip-mined instruction is a plain one, further on.** -/
theorem binaryOp_shift {scalar : Bool}
    {op : BitVec td.bits → BitVec t1.bits → BitVec t2.bits → Option (BitVec td.bits)}
    {arg1Getter arg2Getter : SourceArgGetter} {inst : VectorOperands} {k : ℕ} {file : VectorFile}
    (harg1 : ∀ e, inst.getInstructionSource t1 file (arg1Getter scalar 4 k e 0) =
      (inst.shift k).getInstructionSource t1 file (arg1Getter scalar 1 0 e 0))
    (harg2 : ∀ e, inst.getInstructionSource t2 file (arg2Getter scalar 4 k e 0) =
      (inst.shift k).getInstructionSource t2 file (arg2Getter scalar 1 0 e 0)) :
    binaryOp 1 scalar 4 op arg1Getter arg2Getter inst k file =
      binaryOp 1 scalar 1 op arg1Getter arg2Getter (inst.shift k) 0 file := by
  rw [binaryOp_single, binaryOp_single, binaryOpData, binaryOpData]
  simp only [harg1, harg2, Nat.zero_mul, Nat.add_zero]
  rfl

/-- A binary instruction. -/
theorem elementwise_stripMine (t : ElementType) (hsize : td.size = t.size)
    (op : BitVec td.bits → BitVec t.bits → BitVec t.bits → Option (BitVec td.bits))
    (inst : VectorOperands) (file : VectorFile) :
    elementwise td t op inst.vs2.isScalar true inst file =
      runOps (fun i => elementwise td t op inst.vs2.isScalar false (inst.shift i)) 4 file := by
  have hdest : destRegsPerOp false false t.size t.size = 1 := if_neg (by simp)
  simp only [elementwise, coralNPUBinaryVectorOp, hsize, hdest]
  refine runOps_congr (fun k _ file => ?_) file
  exact (binaryOp_shift (getInstructionSource_arg1_shift t _ inst k file)
    (getInstructionSource_arg2_shift t inst k file)).trans (runOps_one _ file).symm

/-- A unary instruction. -/
theorem elementwiseUnary_stripMine (t : ElementType) (op : BitVec t.bits → BitVec t.bits)
    (inst : VectorOperands) (file : VectorFile) :
    elementwiseUnary t op true inst file =
      runOps (fun i => elementwiseUnary t op false (inst.shift i)) 4 file := by
  refine runOps_congr (fun k _ file => ?_) file
  exact (binaryOp_shift (getInstructionSource_arg1_shift t _ inst k file)
    (getInstructionSource_arg1_shift t _ inst k file)).trans (runOps_one _ file).symm

end Shift

/-- **Strip mining is four plain instructions**, one after the other, on the next registers. -/
theorem stripMine_eq_plain (op : ElementwiseOp) (t : ElementType) (inst : VectorOperands)
    (file : VectorFile) :
    op.execute t inst.vs2.isScalar true inst file =
      runOps (fun i file => op.execute t inst.vs2.isScalar false (inst.shift i) file) 4 file := by
  cases op with
  | vAbsd => exact elementwise_stripMine t (by cases t <;> rfl) _ inst file
  | vNot | vClb | vClz | vCpop | vMv => exact elementwiseUnary_stripMine t _ inst file
  | _ => exact elementwise_stripMine t rfl _ inst file

end CoralNpu
