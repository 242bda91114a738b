/-
**What the vector instructions access.**

The semantic function of a vector instruction walks over the operations that strip mining issues,
over the elements of a destination register and over the destination registers of an operation, and
takes each argument from an element of a source operand.  Which element that is comes from the
widths of the types and from the lane.  The loads, stores and convolutions name registers of their
operands directly.

The register groups have to hold all of these.

Main definitions:

* `CoralNpu.OperandAccess` — an access of an operand: an element, a register or a destination;
* `CoralNpu.semfunc`, `CoralNpu.accesses` — the semantic functions of the opcodes, and their
  accesses;
* `CoralNpu.groupsOf`, `CoralNpu.OperandGroups.Covers` — the groups of a word, and groups that hold
  an access;
* `CoralNpu.AccessesCovered` — all accesses are held by the groups of a word;
* `CoralNpu.FieldsMisread` — the words of open patterns whose fields give other groups.

Main results:

* `CoralNpu.binaryVectorOp_covered` — a binary operation is covered when its arguments are, lane by
  lane;
* `CoralNpu.accesses_covered` — groups that fit a semantic function cover all its accesses;
* `CoralNpu.groupsFit_of_mem` — the groups of every pattern that leaves no field open fit;
* `CoralNpu.accessesCovered_iff` — **all accesses are covered unless fields are misread**.
-/

import CoralNpu.CoralNpuVectorOperands

set_option relaxedAutoImplicit false
set_option autoImplicit false

namespace CoralNpu

open BinFmt
open CodeImage (Word)
open CoralNPUV2ArgsType (func1 sz form)

/-! ### Accesses -/

/-- `kVectorRegisterWidth`, in bytes. -/
def kVectorRegisterWidth : ℕ := 32

/-- An access of an operand: an element of a source by its index in the whole group, a register of a
source, an element of a register of a source, or a register of the destination. -/
inductive OperandAccess where
  | element (operand size index : ℕ)
  | register (operand index : ℕ)
  | span (operand index size element : ℕ)
  | dest (index : ℕ)
  deriving DecidableEq

/-- `SourceArgGetter`: the element from which an argument is taken. -/
abbrev SourceArgGetter :=
  (scalar : Bool) → (numOps opIndex dstElementIndex dstRegIndex : ℕ) → OperandAccess

/-- `CommonBinaryOpGetArg1`, for types with these sizes. -/
def commonBinaryOpGetArg1 (vd vs1 vs2 : ℕ) : SourceArgGetter :=
  fun _ numOps opIndex dstElementIndex dstRegIndex =>
    let eltsPerRegister := kVectorRegisterWidth / vs1
    let srcElementIndex := opIndex * eltsPerRegister + dstElementIndex * vd / vs1
    -- special case for VAcc instructions
    if vd = vs1 ∧ vs1 = 2 * vs2 then
      .element 0 vs1 (srcElementIndex + numOps * eltsPerRegister * dstRegIndex)
    else .element 0 vs1 (srcElementIndex + dstRegIndex)

/-- `CommonBinaryOpGetArg2`. -/
def commonBinaryOpGetArg2 (vd vs2 : ℕ) : SourceArgGetter :=
  fun scalar _ opIndex dstElementIndex dstRegIndex =>
    let eltsPerRegister := kVectorRegisterWidth / vs2
    let srcElementIndex := opIndex * eltsPerRegister + dstElementIndex * vd / vs2 + dstRegIndex
    .element 1 vs2 (if scalar then 0 else srcElementIndex)

/-- The vector operations that strip mining issues. -/
def opsOf (stripMine : Bool) : ℕ := if stripMine then 4 else 1

/-- The registers that an operation of `CoralNPUBinaryVectorOp` writes. -/
def destRegsPerOp (halftype widenDst : Bool) (vd vs2 : ℕ) : ℕ :=
  if (vd > vs2 ∧ ¬ halftype) ∨ widenDst then 2 else 1

/-- `CoralNPUBinaryVectorOp`. -/
def binaryVectorOp (halftype widenDst : Bool) (vd vs2 : ℕ) (scalar stripMine : Bool)
    (arg1Getter arg2Getter : SourceArgGetter) : List OperandAccess :=
  let numOps := opsOf stripMine
  let destRegs := destRegsPerOp halftype widenDst vd vs2
  (List.range numOps).flatMap fun opIndex =>
    ((List.range destRegs).map fun i => .dest (opIndex + i * numOps)) ++
      (List.range (kVectorRegisterWidth / vd)).flatMap fun dstElementIndex =>
        (List.range destRegs).flatMap fun dstRegIndex =>
          [arg1Getter scalar numOps opIndex dstElementIndex dstRegIndex,
            arg2Getter scalar numOps opIndex dstElementIndex dstRegIndex]

/-- `CoralNPUUnaryVectorOp`. -/
def unaryVectorOp (t : ℕ) (stripMine : Bool) : List OperandAccess :=
  let numOps := opsOf stripMine
  (List.range numOps).flatMap fun opIndex =>
    .dest opIndex :: (List.range (kVectorRegisterWidth / t)).map fun dstElementIndex =>
      commonBinaryOpGetArg1 t t t false numOps opIndex dstElementIndex 0

/-! ### The getters of arguments -/

/-- `PackedBinaryOpGetArg1` and, with an offset of one, `PackedBinaryOpGetArg2`. -/
def packedBinaryOpGetArg (offset vd vs : ℕ) : SourceArgGetter :=
  fun _ _ opIndex dstElementIndex _ =>
    let eltsPerRegister := kVectorRegisterWidth / vs
    .element 0 vs (opIndex * eltsPerRegister + dstElementIndex * vd / vs + offset)

/-- `VMvpOpGetArg1`. -/
def vMvpOpGetArg1 (t : ℕ) : SourceArgGetter :=
  fun scalar numOps opIndex dstElementIndex dstRegIndex =>
    if dstRegIndex = 0 then commonBinaryOpGetArg1 t t t scalar numOps opIndex dstElementIndex 0
    else commonBinaryOpGetArg2 t t scalar numOps opIndex dstElementIndex 0

/-- `VSransOpGetArg1`. -/
def vSransOpGetArg1 (vd vs1 : ℕ) : SourceArgGetter :=
  fun _ numOps opIndex dstElementIndex _ =>
    let eltsPerRegister := kVectorRegisterWidth / vs1
    let srcElementIndex := opIndex * eltsPerRegister + dstElementIndex * vd / vs1
    if vs1 / vd = 2 then
      .element 0 vs1
        (srcElementIndex + if dstElementIndex % 2 = 1 then numOps * eltsPerRegister else 0)
    else
      let interleave := [0, 2, 1, 3]
      .element 0 vs1
        (srcElementIndex + interleave.getD (dstElementIndex % 4) 0 * numOps * eltsPerRegister)

/-- `interleave_start` of the slides to the next register: the register and the operand. -/
def nextStart (_ : Bool) (opIndex : ℕ) : ℕ × ℕ := (opIndex, 0)

/-- `interleave_end` of the slides to the next register. -/
def nextEnd (horizontal : Bool) (opIndex : ℕ) : ℕ × ℕ :=
  if horizontal then [(1, 0), (2, 0), (3, 0), (0, 1)].getD opIndex (0, 0) else (opIndex, 1)

/-- `VSlidenOpGetArg1`. -/
def vSlidenOpGetArg1 (t : ℕ) (horizontal : Bool) (index : ℕ) : SourceArgGetter :=
  fun _ _ opIndex dstElementIndex _ =>
    let eltsPerRegister := kVectorRegisterWidth / t
    if dstElementIndex + index < eltsPerRegister then
      let (registerNum, sourceArg) := nextStart horizontal opIndex
      .element sourceArg t (registerNum * eltsPerRegister + dstElementIndex + index)
    else
      let (registerNum, sourceArg) := nextEnd horizontal opIndex
      .element sourceArg t
        (registerNum * eltsPerRegister + dstElementIndex + index - eltsPerRegister)

/-- `interleave_start` of the slides to the previous register. -/
def previousStart (horizontal : Bool) (opIndex : ℕ) : ℕ × ℕ :=
  if horizontal then [(3, 0), (0, 1), (1, 1), (2, 1)].getD opIndex (0, 0) else (opIndex, 0)

/-- `interleave_end` of the slides to the previous register. -/
def previousEnd (_ : Bool) (opIndex : ℕ) : ℕ × ℕ := (opIndex, 1)

/-- `VSlidepOpGetArg1`; the sum does not wrap around in the end, so that its order does not
matter. -/
def vSlidepOpGetArg1 (t : ℕ) (horizontal : Bool) (index : ℕ) : SourceArgGetter :=
  fun _ _ opIndex dstElementIndex _ =>
    let eltsPerRegister := kVectorRegisterWidth / t
    if dstElementIndex < index then
      let (registerNum, sourceArg) := previousStart horizontal opIndex
      .element sourceArg t
        (registerNum * eltsPerRegister + dstElementIndex + eltsPerRegister - index)
    else
      let (registerNum, sourceArg) := previousEnd horizontal opIndex
      .element sourceArg t (registerNum * eltsPerRegister + dstElementIndex - index)

/-- `VEvnOpGetArg1` and, with an offset of one, `VOddOpGetArg1`. -/
def vEvnOpGetArg1 (offset t : ℕ) : SourceArgGetter :=
  fun scalar numOps opIndex dstElementIndex _ =>
    let eltsPerRegister := kVectorRegisterWidth / t
    let srcElementIndex := opIndex * eltsPerRegister * 2 + dstElementIndex * 2 + offset
    let eltsPerSrc := eltsPerRegister * numOps
    if srcElementIndex < eltsPerSrc then .element 0 t srcElementIndex
    else .element 1 t (if scalar then 0 else srcElementIndex - eltsPerSrc)

/-- `VEvnoddOpGetArg1`. -/
def vEvnoddOpGetArg1 (t : ℕ) : SourceArgGetter :=
  fun scalar numOps opIndex dstElementIndex dstRegIndex =>
    if dstRegIndex = 0 then vEvnOpGetArg1 0 t scalar numOps opIndex dstElementIndex dstRegIndex
    else vEvnOpGetArg1 1 t scalar numOps opIndex dstElementIndex dstRegIndex

/-- `VZipOpGetArg1`. -/
def vZipOpGetArg1 (t : ℕ) : SourceArgGetter :=
  fun scalar numOps opIndex dstElementIndex dstRegIndex =>
    let eltsPerRegister := kVectorRegisterWidth / t
    let halfEltsPerRegister := eltsPerRegister / 2
    let srcElementIndex := opIndex * halfEltsPerRegister + dstElementIndex / 2 +
      dstRegIndex * halfEltsPerRegister * numOps
    if dstElementIndex % 2 = 1 then .element 1 t (if scalar then 0 else srcElementIndex)
    else .element 0 t srcElementIndex

/-! ### Loads, stores and convolutions -/

/-- Fields of the commands of the convolutions: `CoralNPUVConvCmd` and `CoralNPUVDwconvCmd`. -/
structure ConvCmd where
  mode : ℕ
  start : ℕ
  stop : ℕ
  sparsity : Fin 4
  regbase : Fin 16

/-- The scalar values that accesses depend on: the length of a load or store, and the command of a
convolution. -/
structure ScalarValues where
  length : ℕ
  convCmd : ConvCmd

/-- `CoralNPUVLd` and its child `CoralNPUVLdRegWrite`; `postIncrement` is the number of source
operands when the address is written back. -/
def vLd (hasLength hasStride : Bool) (postIncrement : Option ℕ) (stripMine : Bool) :
    List OperandAccess :=
  let lengthArg := if hasLength then [.element 1 4 0] else []
  let strideArg := if hasStride then [.element 1 4 0] else []
  let incrementArg :=
    if ¬ hasLength ∧ ¬ hasStride ∧ ∃ n ∈ postIncrement, n ≠ 1 then [.element 1 4 0] else []
  [OperandAccess.element 0 4 0] ++ lengthArg ++ strideArg ++ incrementArg ++
    (List.range (opsOf stripMine)).map .dest

/-- The elements that `VectorStoreHelper` reads in a register; a quad store takes them by
quarters. -/
def storeElements (t : ℕ) (isQuad : Bool) : List ℕ :=
  let eltsPerRegister := kVectorRegisterWidth / t
  if isQuad then
    let quadSize := eltsPerRegister / 4
    (List.range 4).flatMap fun i => (List.range quadSize).map fun j => i * quadSize + j
  else List.range eltsPerRegister

/-- `VectorStoreHelper`: it stops storing, but not taking registers, at the length. -/
def vectorStoreHelper (t : ℕ) (hasLength hasStride : Bool) (postIncrement : Option ℕ)
    (stripMine isQuad : Bool) (v : ScalarValues) : List OperandAccess :=
  let eltsPerRegister := kVectorRegisterWidth / t
  let numOps := opsOf stripMine
  let eltsToStore :=
    if hasLength then min v.length (numOps * eltsPerRegister) else numOps * eltsPerRegister
  let lengthArg := if hasLength then [.element 2 4 0] else []
  let strideArg := if hasStride then [.element 2 4 0] else []
  let incrementArg :=
    if ¬ hasLength ∧ ¬ hasStride ∧ ∃ n ∈ postIncrement, n ≠ 2 then [.element 2 4 0] else []
  [.element 1 4 0] ++ lengthArg ++ strideArg ++
    ((List.range numOps).flatMap fun opNum =>
      .register 0 opNum :: ((storeElements t isQuad).filter fun element =>
        opNum * (storeElements t isQuad).length + element < eltsToStore).map fun element =>
          .span 0 opNum t element) ++ incrementArg

/-- `CoralNPUVDup`. -/
def vDup (t : ℕ) (stripMine : Bool) : List OperandAccess :=
  .element 0 t 0 :: (List.range (opsOf stripMine)).map .dest

/-- The words of a vector. -/
def kVecLenInWord : ℕ := 8

/-- A register of a source, with all its elements. -/
def wholeRegister (operand index size : ℕ) : List OperandAccess :=
  .register operand index ::
    (List.range (kVectorRegisterWidth / size)).map fun element => .span operand index size element

/-- `CoralNPUVcGet`. -/
def vcGet : List OperandAccess := (List.range kVecLenInWord).map .dest

/-- `CoralNPUAcSet`. -/
def acSet : List OperandAccess :=
  (List.range kVecLenInWord).flatMap fun opIndex => wholeRegister 0 opIndex 4

/-- `CoralNPUADwInit`. -/
def aDwInit : List OperandAccess :=
  (List.range 4).flatMap fun opIndex => wholeRegister 0 opIndex 1 ++ [.dest opIndex]

/-- `CoralNPUVConv`; a command that is not supported traps. -/
def vConv (cmd : ConvCmd) : List OperandAccess :=
  .element 1 4 0 ::
    if cmd.mode ≠ 0 ∨ cmd.start > cmd.stop ∨ cmd.start ≥ kVecLenInWord ∨
        cmd.stop ≥ kVecLenInWord then
      []
    else
      ((List.range kVecLenInWord).flatMap fun vecIdx => wholeRegister 0 vecIdx 1) ++
        (List.range (cmd.stop + 1 - cmd.start)).flatMap fun k => wholeRegister 2 k 1

/-- The registers of `vs1` that a depthwise convolution selects. -/
def vs1Idx (regbase : Fin 16) : List ℕ :=
  let r := regbase.val
  if r ≤ 6 then [r, r + 1, r + 2]
  else if r = 7 then [1, 0, 2]
  else if r ≤ 11 then [2 * r - 15, 2 * r - 15 + 1, 0]
  else [2 * r - 22, 0, 1]

/-- The words of the selected registers that it reads. -/
def sparseWords : Fin 4 → List (ℕ × ℕ)
  | 0 => ((List.range 8).map fun i => (0, i)) ++ ((List.range 8).map fun i => (1, i)) ++
      (List.range 8).map fun i => (2, i)
  | 1 => [(0, 7)] ++ ((List.range 7).map fun i => (1, i)) ++ ((List.range 8).map fun i => (1, i)) ++
      ((List.range 7).map fun i => (1, i + 1)) ++ [(2, 0)]
  | 2 =>
    ((List.range 8).map fun i => (0, i)) ++ ((List.range 7).map fun i => (0, i + 1)) ++ [(1, 0)] ++
      ((List.range 6).map fun i => (0, i + 2)) ++ [(1, 0), (1, 1)]
  | 3 => []

/-- `CoralNPUVDwconv`. -/
def vDwconv (writeAcc : Bool) (cmd : ConvCmd) : List OperandAccess :=
  [.element 1 4 0] ++ ((vs1Idx cmd.regbase).map fun index => .register 0 index) ++
    ((sparseWords cmd.sparsity).map fun word =>
      .span 0 ((vs1Idx cmd.regbase).getD word.1 0) 4 word.2) ++
    ((List.range 3).flatMap fun r => wholeRegister 2 r 1) ++
    if writeAcc then (List.range 4).map .dest else []

/-! ### Semantic functions -/

/-- The semantic functions, as far as their accesses differ. -/
inductive SemanticFunction where
  /-- Binary operations on elements of one type, with the common getters. -/
  | elementwise
  /-- `CoralNPUVAddw`, `CoralNPUVSubw` and `CoralNPUVMulw`. -/
  | widening
  /-- `CoralNPUVAcc`. -/
  | accumulate
  /-- `CoralNPUVPadd` and `CoralNPUVPsub`. -/
  | packed
  /-- `CoralNPUVMvp`. -/
  | movePair
  /-- `CoralNPUVSrans`, narrowing by a factor. -/
  | narrowing (factor : ℕ)
  /-- `CoralNPUVSlidevn` and `CoralNPUVSlidehn`. -/
  | slideNext (horizontal : Bool) (index : ℕ)
  /-- `CoralNPUVSlidevp` and `CoralNPUVSlidehp`. -/
  | slidePrevious (horizontal : Bool) (index : ℕ)
  /-- `CoralNPUVEvn` and `CoralNPUVOdd`. -/
  | alternate (offset : ℕ)
  /-- `CoralNPUVEvnodd`. -/
  | alternateBoth
  /-- `CoralNPUVZip`. -/
  | zip
  /-- `CoralNPUVNot`, `CoralNPUVClb`, `CoralNPUVClz`, `CoralNPUVCpop` and `CoralNPUVMv`. -/
  | unary
  /-- `CoralNPUVLd`. -/
  | load (hasLength hasStride : Bool)
  /-- `CoralNPUVSt` and `CoralNPUVStQ`. -/
  | store (hasLength hasStride isQuad : Bool)
  /-- `CoralNPUVDup`. -/
  | dup
  /-- `CoralNPUVcGet`. -/
  | vcGet
  /-- `CoralNPUAcSet`. -/
  | acSet
  /-- `CoralNPUADwInit`. -/
  | aDwInit
  /-- `CoralNPUVConv`. -/
  | conv
  /-- `CoralNPUVDwconv`. -/
  | dwconv (writeAcc : Bool)
  deriving DecidableEq

/-- The semantic function of an instruction description. -/
def semfunc : VectorStem → SemanticFunction
  | .vaddw | .vaddwU | .vsubw | .vsubwU | .vmulw | .vmulwU => .widening
  | .vacc | .vaccU => .accumulate
  | .vpadd | .vpaddU | .vpsub | .vpsubU => .packed
  | .vmvp => .movePair
  | .vsrans | .vsransR | .vsransu | .vsransuR => .narrowing 2
  | .vsraqs | .vsraqsR | .vsraqsu | .vsraqsuR => .narrowing 4
  | .vsliden1 | .vslidevn1 => .slideNext false 1
  | .vsliden2 | .vslidevn2 => .slideNext false 2
  | .vsliden3 | .vslidevn3 => .slideNext false 3
  | .vsliden4 | .vslidevn4 => .slideNext false 4
  | .vslidehn1 => .slideNext true 1
  | .vslidehn2 => .slideNext true 2
  | .vslidehn3 => .slideNext true 3
  | .vslidehn4 => .slideNext true 4
  | .vslidep1 | .vslidevp1 => .slidePrevious false 1
  | .vslidep2 | .vslidevp2 => .slidePrevious false 2
  | .vslidep3 | .vslidevp3 => .slidePrevious false 3
  | .vslidep4 | .vslidevp4 => .slidePrevious false 4
  | .vslidehp1 => .slidePrevious true 1
  | .vslidehp2 => .slidePrevious true 2
  | .vslidehp3 => .slidePrevious true 3
  | .vslidehp4 => .slidePrevious true 4
  | .vevn => .alternate 0
  | .vodd => .alternate 1
  | .vevnodd => .alternateBoth
  | .vzip => .zip
  | .vnot | .vclb | .vclz | .vcpop | .vmv => .unary
  | .vld | .vldP => .load false false
  | .vldL | .vldLp => .load true false
  | .vldS | .vldSp => .load false true
  | .vldTp => .load true true
  | .vst | .vstP => .store false false false
  | .vstL | .vstLp => .store true false false
  | .vstS | .vstSp => .store false true false
  | .vstTp => .store true true false
  | .vstqS | .vstqSp => .store false true true
  | .vdup => .dup
  | .vcget => .vcGet
  | .acset | .actr => .acSet
  | .adwinit => .aDwInit
  | .aconv => .conv
  | .adwconv => .dwconv false
  | .vdwconv => .dwconv true
  | _ => .elementwise

/-- The bytes of an element of the destination; a description without a width has words. -/
def elementSize (op : VectorOpcode) : ℕ :=
  match op.width with
  | some .b => 1
  | some .h => 2
  | some .w | none => 4

/-- The accesses of a binary operation with elements of one type and one getter for both
arguments. -/
def binarySame (widenDst : Bool) (t : ℕ) (scalar stripMine : Bool) (getter : SourceArgGetter) :
    List OperandAccess := binaryVectorOp false widenDst t t scalar stripMine getter getter

/-- The accesses of the semantic function that the description of an opcode binds: the types are
those of its width, `scalar` is the form and `strip_mine` the mask. -/
def accesses (op : VectorOpcode) (v : ScalarValues) : List OperandAccess :=
  let t := elementSize op
  let scalar := decide (op.form = some .vx)
  let stripMine := op.masked
  let postIncrement :=
    if .vs1 ∈ vectorDestinations op then some (vectorSources op).length else none
  match semfunc op.stem with
  | .elementwise =>
      binaryVectorOp false false t t scalar stripMine (commonBinaryOpGetArg1 t t t)
        (commonBinaryOpGetArg2 t t)
  | .widening =>
      binaryVectorOp false false t (t / 2) scalar stripMine
        (commonBinaryOpGetArg1 t (t / 2) (t / 2))
        (commonBinaryOpGetArg2 t (t / 2))
  | .accumulate =>
      binaryVectorOp false false t (t / 2) scalar stripMine (commonBinaryOpGetArg1 t t (t / 2))
        (commonBinaryOpGetArg2 t (t / 2))
  | .packed =>
      binaryVectorOp true false t (t / 2) false stripMine (packedBinaryOpGetArg 0 t (t / 2))
        (packedBinaryOpGetArg 1 t (t / 2))
  | .movePair => binarySame true t scalar stripMine (vMvpOpGetArg1 t)
  | .narrowing factor =>
      binaryVectorOp false false t t scalar stripMine (vSransOpGetArg1 t (factor * t))
        (commonBinaryOpGetArg2 t t)
  | .slideNext horizontal index =>
      binaryVectorOp false false t t false (horizontal || stripMine)
        (vSlidenOpGetArg1 t horizontal index) (commonBinaryOpGetArg2 t t)
  | .slidePrevious horizontal index =>
      binaryVectorOp false false t t false (horizontal || stripMine)
        (vSlidepOpGetArg1 t horizontal index) (commonBinaryOpGetArg2 t t)
  | .alternate offset => binarySame false t scalar stripMine (vEvnOpGetArg1 offset t)
  | .alternateBoth => binarySame true t scalar stripMine (vEvnoddOpGetArg1 t)
  | .zip => binarySame true t scalar stripMine (vZipOpGetArg1 t)
  | .unary => unaryVectorOp t stripMine
  | .load hasLength hasStride => vLd hasLength hasStride postIncrement stripMine
  | .store hasLength hasStride isQuad =>
      vectorStoreHelper t hasLength hasStride postIncrement stripMine isQuad v
  | .dup => vDup t stripMine
  | .vcGet => vcGet
  | .acSet => acSet
  | .aDwInit => aDwInit
  | .conv => vConv v.convCmd
  | .dwconv writeAcc => vDwconv writeAcc v.convCmd

/-! ### Groups that hold the accesses -/

/-- The number of registers of an operand; `none` for a scalar. -/
def VectorOperand.size : VectorOperand → Option ℕ
  | .vregs group => some group.length
  | _ => none

theorem consecutive_size (start n : ℕ) : (consecutive start n).size = some n := by
  simp [consecutive, VectorOperand.size]

theorem scalarOf_size (w : Word) (s : VectorSourceOp) : (scalarOf w s).size = none := by
  rcases scalarOf_eq w s with heq | ⟨num, heq⟩ <;> rw [heq] <;> rfl

/-- The operands of an instruction: the numbers of registers of the sources, `none` for scalars, and
of the destination. -/
structure OperandGroups where
  sources : List (Option ℕ)
  dest : Option ℕ

/-- The groups that the encoding class makes for a word. -/
def groupsOf (op : VectorOpcode) (w : Word) : OperandGroups where
  sources := (vectorSources op).map fun s => (getVectorSource op.stem w s).size
  dest := if .vd ∈ vectorDestinations op then (getVectorDestination op.stem w .vd).size else none

/-- The groups hold an access: an element is one of a group, and the only one of a scalar; registers
are those of a group. -/
def OperandGroups.Covers (g : OperandGroups) : OperandAccess → Prop
  | .element operand size index =>
      match g.sources[operand]? with
      | some (some n) => index < n * (kVectorRegisterWidth / size)
      | some none => index = 0
      | none => False
  | .register operand index =>
      match g.sources[operand]? with
      | some (some n) => index < n
      | _ => False
  | .span operand index size element =>
      match g.sources[operand]? with
      | some (some n) => index < n ∧ element < kVectorRegisterWidth / size
      | _ => False
  | .dest index =>
      match g.dest with
      | some n => index < n
      | none => False

/-- All accesses of the semantic function of an opcode are held by the groups of a word, whatever
the scalar values are. -/
def AccessesCovered (op : VectorOpcode) (w : Word) : Prop :=
  ∀ v : ScalarValues, ∀ access ∈ accesses op v, (groupsOf op w).Covers access

/-! ### Operations -/

section Covered

variable {g : OperandGroups} {n d t index : ℕ}

theorem covers_element {k : ℕ} (h : g.sources[k]? = some (some n))
    (hlt : index < n * (kVectorRegisterWidth / t)) : g.Covers (.element k t index) := by
  simp only [OperandGroups.Covers, h]
  exact hlt

theorem covers_scalar {k : ℕ} (h : g.sources[k]? = some none) : g.Covers (.element k t 0) := by
  simp only [OperandGroups.Covers, h]

theorem covers_register {k : ℕ} (h : g.sources[k]? = some (some n)) (hlt : index < n) :
    g.Covers (.register k index) := by
  simp only [OperandGroups.Covers, h]
  exact hlt

theorem covers_span {k size element : ℕ} (h : g.sources[k]? = some (some n)) (hlt : index < n)
    (helement : element < kVectorRegisterWidth / size) : g.Covers (.span k index size element) := by
  simp only [OperandGroups.Covers, h]
  exact ⟨hlt, helement⟩

theorem covers_dest (h : g.dest = some d) (hlt : index < d) : g.Covers (.dest index) := by
  simp only [OperandGroups.Covers, h]
  exact hlt

theorem covers_dest_range (h : g.dest = some d) (hle : n ≤ d) :
    ∀ access ∈ (List.range n).map OperandAccess.dest, g.Covers access := by
  rw [List.forall_mem_map]
  intro i hi
  exact covers_dest h (lt_of_lt_of_le (List.mem_range.1 hi) hle)

/-- **A binary operation is covered when its arguments are, lane by lane.** -/
theorem binaryVectorOp_covered {halftype widenDst scalar stripMine : Bool} {vd vs2 : ℕ}
    {arg1 arg2 : SourceArgGetter} (hdest : g.dest = some d)
    (hd : opsOf stripMine * destRegsPerOp halftype widenDst vd vs2 ≤ d)
    (hargs : ∀ opIndex < opsOf stripMine, ∀ e < kVectorRegisterWidth / vd,
      ∀ r < destRegsPerOp halftype widenDst vd vs2,
        g.Covers (arg1 scalar (opsOf stripMine) opIndex e r) ∧
          g.Covers (arg2 scalar (opsOf stripMine) opIndex e r)) :
    ∀ access ∈ binaryVectorOp halftype widenDst vd vs2 scalar stripMine arg1 arg2,
    g.Covers access := by
  rw [binaryVectorOp]
  simp only [List.forall_mem_flatMap, List.mem_range, List.forall_mem_append, List.forall_mem_map]
  intro opIndex hop
  refine ⟨fun i hi => covers_dest hdest (lt_of_lt_of_le ?_ hd), fun e he r hr => ?_⟩
  · -- the registers of one operation are `numOps` apart
    have hmul : (i + 1) * opsOf stripMine ≤
        opsOf stripMine * destRegsPerOp halftype widenDst vd vs2 := by
      rw [Nat.mul_comm (opsOf stripMine)]
      exact Nat.mul_le_mul_right _ hi
    rw [Nat.add_mul] at hmul
    omega
  · intro access haccess
    simp only [List.mem_cons, List.not_mem_nil, or_false] at haccess
    rcases haccess with rfl | rfl
    · exact (hargs opIndex hop e he r hr).1
    · exact (hargs opIndex hop e he r hr).2

/-- The sizes of the elements. -/
def IsSize (t : ℕ) : Prop := t = 1 ∨ t = 2 ∨ t = 4

/-- The second operand of a binary operation: a scalar or a group of one register for an
operation. -/
def SecondOperand (g : OperandGroups) (scalar stripMine : Bool) : Prop :=
  g.sources[1]? = some (if scalar then none else some (opsOf stripMine))

instance instDecidableIsSize (t : ℕ) : Decidable (IsSize t) :=
  inferInstanceAs (Decidable (t = 1 ∨ t = 2 ∨ t = 4))

instance instDecidableSecondOperand (g : OperandGroups) (scalar stripMine : Bool) :
    Decidable (SecondOperand g scalar stripMine) :=
  inferInstanceAs
    (Decidable (g.sources[1]? = some (if scalar then none else some (opsOf stripMine))))

variable {scalar stripMine : Bool}

theorem covers_second (h : SecondOperand g scalar stripMine)
    (hlt : index < opsOf stripMine * (kVectorRegisterWidth / t)) :
    g.Covers (.element 1 t (if scalar then 0 else index)) := by
  cases scalar with
  | false => exact covers_element h hlt
  | true => exact covers_scalar h

/-- The second argument. -/
theorem commonBinaryOpGetArg2_covered (ht : IsSize t) (h : SecondOperand g scalar stripMine)
    {opIndex e : ℕ} (hop : opIndex < opsOf stripMine) (he : e < kVectorRegisterWidth / t)
    (numOps : ℕ) : g.Covers (commonBinaryOpGetArg2 t t scalar numOps opIndex e 0) := by
  refine covers_second h ?_
  rw [kVectorRegisterWidth] at he ⊢
  rcases ht with rfl | rfl | rfl <;> omega

/-- The second argument of a widening operation. -/
theorem commonBinaryOpGetArg2_covered_widening {s : ℕ} (hs : s = 1 ∨ s = 2)
    (h : SecondOperand g scalar stripMine) {opIndex e r : ℕ} (hop : opIndex < opsOf stripMine)
    (he : e < kVectorRegisterWidth / (2 * s)) (hr : r < 2) (numOps : ℕ) :
    g.Covers (commonBinaryOpGetArg2 (2 * s) s scalar numOps opIndex e r) := by
  refine covers_second h ?_
  rw [kVectorRegisterWidth] at he ⊢
  rcases hs with rfl | rfl <;> omega

/-- The first argument of an operation on elements of one type. -/
theorem commonBinaryOpGetArg1_covered (ht : IsSize t)
    (h : g.sources[0]? = some (some (opsOf stripMine))) {opIndex e : ℕ}
    (hop : opIndex < opsOf stripMine) (he : e < kVectorRegisterWidth / t) (numOps : ℕ) :
    g.Covers (commonBinaryOpGetArg1 t t t scalar numOps opIndex e 0) := by
  have hne : ¬ (t = t ∧ t = 2 * t) := by
    rcases ht with rfl | rfl | rfl <;> decide
  rw [commonBinaryOpGetArg1, if_neg hne]
  refine covers_element h ?_
  rw [kVectorRegisterWidth] at he ⊢
  rcases ht with rfl | rfl | rfl <;> omega

theorem destRegsPerOp_same (t : ℕ) : destRegsPerOp false false t t = 1 := by
  simp [destRegsPerOp]

theorem destRegsPerOp_widenDst (t : ℕ) : destRegsPerOp false true t t = 2 := by
  simp [destRegsPerOp]

theorem destRegsPerOp_widening {s : ℕ} (hs : s = 1 ∨ s = 2) :
    destRegsPerOp false false (2 * s) s = 2 := by
  rcases hs with rfl | rfl <;> rfl

/-- **A binary operation that writes one register takes each argument once.** -/
theorem binaryVectorOp_covered_one {halftype widenDst : Bool} {vd vs2 : ℕ}
    {arg1 arg2 : SourceArgGetter} (hregs : destRegsPerOp halftype widenDst vd vs2 = 1)
    (hdest : g.dest = some (opsOf stripMine))
    (hargs : ∀ opIndex < opsOf stripMine, ∀ e < kVectorRegisterWidth / vd,
      g.Covers (arg1 scalar (opsOf stripMine) opIndex e 0) ∧
        g.Covers (arg2 scalar (opsOf stripMine) opIndex e 0)) :
    ∀ access ∈ binaryVectorOp halftype widenDst vd vs2 scalar stripMine arg1 arg2,
    g.Covers access := by
  refine binaryVectorOp_covered hdest (by rw [hregs, Nat.mul_one]) fun opIndex hop e he r hr => ?_
  obtain rfl : r = 0 := by omega
  exact hargs opIndex hop e he

/-- The same for one that writes two registers. -/
theorem binaryVectorOp_covered_two {halftype widenDst : Bool} {vd vs2 : ℕ}
    {arg1 arg2 : SourceArgGetter} (hregs : destRegsPerOp halftype widenDst vd vs2 = 2)
    (hdest : g.dest = some (opsOf stripMine * 2))
    (hargs : ∀ opIndex < opsOf stripMine, ∀ e < kVectorRegisterWidth / vd, ∀ r < 2,
      g.Covers (arg1 scalar (opsOf stripMine) opIndex e r) ∧
        g.Covers (arg2 scalar (opsOf stripMine) opIndex e r)) :
    ∀ access ∈ binaryVectorOp halftype widenDst vd vs2 scalar stripMine arg1 arg2,
    g.Covers access := by
  refine binaryVectorOp_covered hdest (by rw [hregs]) fun opIndex hop e he r hr => ?_
  exact hargs opIndex hop e he r (by omega)

/-! ### Binary operations -/

theorem elementwise_covered (ht : IsSize t) (h0 : g.sources[0]? = some (some (opsOf stripMine)))
    (h1 : SecondOperand g scalar stripMine) (hdest : g.dest = some (opsOf stripMine)) :
    ∀ access ∈ binaryVectorOp false false t t scalar stripMine (commonBinaryOpGetArg1 t t t)
      (commonBinaryOpGetArg2 t t), g.Covers access :=
  binaryVectorOp_covered_one (destRegsPerOp_same t) hdest fun _ hop _ he =>
    ⟨commonBinaryOpGetArg1_covered ht h0 hop he _, commonBinaryOpGetArg2_covered ht h1 hop he _⟩

theorem widening_covered {s : ℕ} (hs : s = 1 ∨ s = 2)
    (h0 : g.sources[0]? = some (some (opsOf stripMine))) (h1 : SecondOperand g scalar stripMine)
    (hdest : g.dest = some (opsOf stripMine * 2)) :
    ∀ access ∈ binaryVectorOp false false (2 * s) s scalar stripMine
      (commonBinaryOpGetArg1 (2 * s) s s) (commonBinaryOpGetArg2 (2 * s) s), g.Covers access := by
  refine binaryVectorOp_covered_two
    (destRegsPerOp_widening hs) hdest fun opIndex hop e he r hr => ?_
  refine ⟨?_, commonBinaryOpGetArg2_covered_widening hs h1 hop he hr _⟩
  have hne : ¬ (2 * s = s ∧ s = 2 * s) := by omega
  rw [commonBinaryOpGetArg1, if_neg hne]
  refine covers_element h0 ?_
  rw [kVectorRegisterWidth] at he ⊢
  rcases hs with rfl | rfl <;> omega

/-- The second half of the registers of `vs1` belongs to the second destination register. -/
theorem accumulate_covered {s : ℕ} (hs : s = 1 ∨ s = 2)
    (h0 : g.sources[0]? = some (some (opsOf stripMine * 2))) (h1 : SecondOperand g scalar stripMine)
    (hdest : g.dest = some (opsOf stripMine * 2)) :
    ∀ access ∈ binaryVectorOp false false (2 * s) s scalar stripMine
      (commonBinaryOpGetArg1 (2 * s) (2 * s) s) (commonBinaryOpGetArg2 (2 * s) s),
      g.Covers access := by
  refine binaryVectorOp_covered_two
    (destRegsPerOp_widening hs) hdest fun opIndex hop e he r hr => ?_
  refine ⟨?_, commonBinaryOpGetArg2_covered_widening hs h1 hop he hr _⟩
  rw [commonBinaryOpGetArg1, if_pos ⟨rfl, rfl⟩]
  refine covers_element h0 ?_
  rw [kVectorRegisterWidth] at he ⊢
  have hr' : r = 0 ∨ r = 1 := by omega
  rcases hs with rfl | rfl <;> rcases hr' with rfl | rfl <;> omega

theorem packed_covered {s : ℕ} (hs : s = 1 ∨ s = 2)
    (h0 : g.sources[0]? = some (some (opsOf stripMine))) (hdest : g.dest = some (opsOf stripMine)) :
    ∀ access ∈ binaryVectorOp true false (2 * s) s false stripMine
      (packedBinaryOpGetArg 0 (2 * s) s) (packedBinaryOpGetArg 1 (2 * s) s),
      g.Covers access := by
  have hregs : destRegsPerOp true false (2 * s) s = 1 := by simp [destRegsPerOp]
  refine binaryVectorOp_covered_one hregs hdest fun opIndex hop e he => ?_
  rw [kVectorRegisterWidth] at he
  constructor <;> refine covers_element h0 ?_ <;> rw [kVectorRegisterWidth]
  · rcases hs with rfl | rfl <;> omega
  · rcases hs with rfl | rfl <;> omega

theorem movePair_covered (ht : IsSize t) (h0 : g.sources[0]? = some (some (opsOf stripMine)))
    (h1 : SecondOperand g scalar stripMine) (hdest : g.dest = some (opsOf stripMine * 2)) :
    ∀ access ∈ binarySame true t scalar stripMine (vMvpOpGetArg1 t), g.Covers access := by
  refine binaryVectorOp_covered_two (destRegsPerOp_widenDst t) hdest fun opIndex hop e he r hr => ?_
  rw [and_self, vMvpOpGetArg1]
  split
  · exact commonBinaryOpGetArg1_covered ht h0 hop he _
  · exact commonBinaryOpGetArg2_covered ht h1 hop he _

/-- Neighbours in the destination come from different registers of the wide operand. -/
theorem narrowing_covered_two (ht : t = 1 ∨ t = 2)
    (h0 : g.sources[0]? = some (some (opsOf stripMine * 2))) (h1 : SecondOperand g scalar stripMine)
    (hdest : g.dest = some (opsOf stripMine)) :
    ∀ access ∈ binaryVectorOp false false t t scalar stripMine (vSransOpGetArg1 t (2 * t))
      (commonBinaryOpGetArg2 t t), g.Covers access := by
  refine binaryVectorOp_covered_one (destRegsPerOp_same t) hdest fun opIndex hop e he => ?_
  have hsize : IsSize t := by rcases ht with rfl | rfl <;> simp [IsSize]
  refine ⟨?_, commonBinaryOpGetArg2_covered hsize h1 hop he _⟩
  have htwo : 2 * t / t = 2 := by rcases ht with rfl | rfl <;> rfl
  rw [vSransOpGetArg1, if_pos htwo]
  refine covers_element h0 ?_
  rw [kVectorRegisterWidth] at he ⊢
  split <;> rcases ht with rfl | rfl <;> omega

theorem narrowing_covered_four (h0 : g.sources[0]? = some (some (opsOf stripMine * 4)))
    (h1 : SecondOperand g scalar stripMine) (hdest : g.dest = some (opsOf stripMine)) :
    ∀ access ∈ binaryVectorOp false false 1 1 scalar stripMine (vSransOpGetArg1 1 (4 * 1))
      (commonBinaryOpGetArg2 1 1), g.Covers access := by
  refine binaryVectorOp_covered_one (destRegsPerOp_same 1) hdest fun opIndex hop e he => ?_
  refine ⟨?_, commonBinaryOpGetArg2_covered (Or.inl rfl) h1 hop he _⟩
  rw [vSransOpGetArg1, if_neg (by decide)]
  refine covers_element h0 ?_
  rw [kVectorRegisterWidth] at he ⊢
  have hquarter : e % 4 = 0 ∨ e % 4 = 1 ∨ e % 4 = 2 ∨ e % 4 = 3 := by omega
  rcases hquarter with hq | hq | hq | hq <;> rw [hq] <;>
    simp only [List.getD_cons_zero, List.getD_cons_succ] <;> omega

/-- An element behind those of some registers. -/
theorem covers_lane (ht : IsSize t) {k registerNum : ℕ} (h : g.sources[k]? = some (some n))
    (hlt : registerNum < n) (hindex : index < registerNum * (kVectorRegisterWidth / t) + 32 / t) :
    g.Covers (.element k t index) := by
  refine covers_element h (lt_of_lt_of_le hindex ?_)
  rw [kVectorRegisterWidth]
  rcases ht with rfl | rfl | rfl <;> omega

/-- The operations of a horizontal slide. -/
theorem cases_of_lt_opsOf_true {opIndex : ℕ} (hop : opIndex < opsOf true) :
    opIndex = 0 ∨ opIndex = 1 ∨ opIndex = 2 ∨ opIndex = 3 := by
  rw [opsOf, if_pos rfl] at hop
  omega

/-- The registers that a slide takes its last elements from. -/
theorem nextEnd_covered {horizontal : Bool}
    (h0 : g.sources[0]? = some (some (opsOf (horizontal || stripMine))))
    (h1 : SecondOperand g false (horizontal || stripMine)) {opIndex : ℕ}
    (hop : opIndex < opsOf (horizontal || stripMine)) :
    ∃ registerNum sourceArg n, nextEnd horizontal opIndex = (registerNum, sourceArg) ∧
      g.sources[sourceArg]? = some (some n) ∧ registerNum < n := by
  cases horizontal with
  | false => exact ⟨_, _, _, rfl, h1, hop⟩
  | true =>
      rw [Bool.true_or] at h0 h1 hop
      rcases cases_of_lt_opsOf_true hop with rfl | rfl | rfl | rfl
      · exact ⟨_, _, _, rfl, h0, by decide⟩
      · exact ⟨_, _, _, rfl, h0, by decide⟩
      · exact ⟨_, _, _, rfl, h0, by decide⟩
      · exact ⟨_, _, _, rfl, h1, by decide⟩

/-- The registers that a slide takes its first elements from. -/
theorem previousStart_covered {horizontal : Bool}
    (h0 : g.sources[0]? = some (some (opsOf (horizontal || stripMine))))
    (h1 : SecondOperand g false (horizontal || stripMine)) {opIndex : ℕ}
    (hop : opIndex < opsOf (horizontal || stripMine)) :
    ∃ registerNum sourceArg n, previousStart horizontal opIndex = (registerNum, sourceArg) ∧
      g.sources[sourceArg]? = some (some n) ∧ registerNum < n := by
  cases horizontal with
  | false => exact ⟨_, _, _, rfl, h0, hop⟩
  | true =>
      rw [Bool.true_or] at h0 h1 hop
      rcases cases_of_lt_opsOf_true hop with rfl | rfl | rfl | rfl
      · exact ⟨_, _, _, rfl, h0, by decide⟩
      · exact ⟨_, _, _, rfl, h1, by decide⟩
      · exact ⟨_, _, _, rfl, h1, by decide⟩
      · exact ⟨_, _, _, rfl, h1, by decide⟩

/-- A slide to the next register takes its last elements from the next register or operand. -/
theorem slideNext_covered (ht : IsSize t) {horizontal : Bool} (hindex : index ≤ 4)
    (h0 : g.sources[0]? = some (some (opsOf (horizontal || stripMine))))
    (h1 : SecondOperand g false (horizontal || stripMine))
    (hdest : g.dest = some (opsOf (horizontal || stripMine))) :
    ∀ access ∈ binaryVectorOp false false t t false (horizontal || stripMine)
      (vSlidenOpGetArg1 t horizontal index) (commonBinaryOpGetArg2 t t), g.Covers access := by
  refine binaryVectorOp_covered_one (destRegsPerOp_same t) hdest fun opIndex hop e he => ?_
  refine ⟨?_, commonBinaryOpGetArg2_covered ht h1 hop he _⟩
  rw [vSlidenOpGetArg1]
  rw [kVectorRegisterWidth] at he
  split
  · rename_i hlt
    rw [kVectorRegisterWidth] at hlt
    refine covers_lane ht h0 hop ?_
    rw [kVectorRegisterWidth]
    omega
  · obtain ⟨registerNum, sourceArg, n, hend, hsource, hregister⟩ := nextEnd_covered h0 h1 hop
    rw [hend]
    refine covers_lane ht hsource hregister ?_
    rw [kVectorRegisterWidth]
    rcases ht with rfl | rfl | rfl <;> omega

/-- A slide to the previous register takes its first elements from the previous register or
operand. -/
theorem slidePrevious_covered (ht : IsSize t) {horizontal : Bool} (hindex : index ≤ 4)
    (h0 : g.sources[0]? = some (some (opsOf (horizontal || stripMine))))
    (h1 : SecondOperand g false (horizontal || stripMine))
    (hdest : g.dest = some (opsOf (horizontal || stripMine))) :
    ∀ access ∈ binaryVectorOp false false t t false (horizontal || stripMine)
      (vSlidepOpGetArg1 t horizontal index) (commonBinaryOpGetArg2 t t), g.Covers access := by
  refine binaryVectorOp_covered_one (destRegsPerOp_same t) hdest fun opIndex hop e he => ?_
  refine ⟨?_, commonBinaryOpGetArg2_covered ht h1 hop he _⟩
  rw [vSlidepOpGetArg1]
  rw [kVectorRegisterWidth] at he
  split
  · rename_i hlt
    obtain ⟨registerNum, sourceArg, n, hstart, hsource, hregister⟩ :=
      previousStart_covered h0 h1 hop
    rw [hstart]
    refine covers_lane ht hsource hregister ?_
    rw [kVectorRegisterWidth]
    rcases ht with rfl | rfl | rfl <;> omega
  · refine covers_lane ht h1 hop ?_
    rw [kVectorRegisterWidth]
    omega

/-- Every other element of the concatenated operands. -/
theorem vEvnOpGetArg1_covered (ht : IsSize t) {offset : ℕ} (hoffset : offset < 2)
    (h0 : g.sources[0]? = some (some (opsOf stripMine))) (h1 : SecondOperand g scalar stripMine)
    {opIndex e : ℕ} (hop : opIndex < opsOf stripMine) (he : e < kVectorRegisterWidth / t) (r : ℕ) :
    g.Covers (vEvnOpGetArg1 offset t scalar (opsOf stripMine) opIndex e r) := by
  rw [vEvnOpGetArg1]
  split
  · rename_i hlt
    exact covers_element h0 (hlt.trans_eq (Nat.mul_comm _ _))
  · refine covers_second h1 ?_
    rw [kVectorRegisterWidth] at he ⊢
    rcases ht with rfl | rfl | rfl <;> omega

theorem alternate_covered (ht : IsSize t) {offset : ℕ} (hoffset : offset < 2)
    (h0 : g.sources[0]? = some (some (opsOf stripMine))) (h1 : SecondOperand g scalar stripMine)
    (hdest : g.dest = some (opsOf stripMine)) :
    ∀ access ∈ binarySame false t scalar stripMine (vEvnOpGetArg1 offset t), g.Covers access :=
  binaryVectorOp_covered_one (destRegsPerOp_same t) hdest fun _ hop _ he =>
    ⟨vEvnOpGetArg1_covered ht hoffset h0 h1 hop he _,
      vEvnOpGetArg1_covered ht hoffset h0 h1 hop he _⟩

theorem alternateBoth_covered (ht : IsSize t) (h0 : g.sources[0]? = some (some (opsOf stripMine)))
    (h1 : SecondOperand g scalar stripMine) (hdest : g.dest = some (opsOf stripMine * 2)) :
    ∀ access ∈ binarySame true t scalar stripMine (vEvnoddOpGetArg1 t), g.Covers access := by
  refine binaryVectorOp_covered_two (destRegsPerOp_widenDst t) hdest fun opIndex hop e he r hr => ?_
  rw [and_self, vEvnoddOpGetArg1]
  split
  · exact vEvnOpGetArg1_covered ht (by decide) h0 h1 hop he _
  · exact vEvnOpGetArg1_covered ht (by decide) h0 h1 hop he _

/-- Half of the elements of a destination register come from each operand. -/
theorem zip_covered (ht : IsSize t) (h0 : g.sources[0]? = some (some (opsOf stripMine)))
    (h1 : SecondOperand g scalar stripMine) (hdest : g.dest = some (opsOf stripMine * 2)) :
    ∀ access ∈ binarySame true t scalar stripMine (vZipOpGetArg1 t), g.Covers access := by
  refine binaryVectorOp_covered_two (destRegsPerOp_widenDst t) hdest fun opIndex hop e he r hr => ?_
  rw [and_self, vZipOpGetArg1]
  have hhalf : opIndex * (kVectorRegisterWidth / t / 2) + e / 2 +
      r * (kVectorRegisterWidth / t / 2) * opsOf stripMine <
        opsOf stripMine * (kVectorRegisterWidth / t) := by
    have hr' : r = 0 ∨ r = 1 := by omega
    rw [kVectorRegisterWidth] at he ⊢
    rcases ht with rfl | rfl | rfl <;> rcases hr' with rfl | rfl <;> omega
  split
  · exact covers_second h1 hhalf
  · exact covers_element h0 hhalf

/-! ### Other operations -/

theorem unary_covered (ht : IsSize t) (h0 : g.sources[0]? = some (some (opsOf stripMine)))
    (hdest : g.dest = some (opsOf stripMine)) :
    ∀ access ∈ unaryVectorOp t stripMine, g.Covers access := by
  rw [unaryVectorOp]
  simp only [List.forall_mem_flatMap, List.forall_mem_cons, List.forall_mem_map, List.mem_range]
  intro opIndex hop
  exact ⟨covers_dest hdest hop, fun e he => commonBinaryOpGetArg1_covered ht h0 hop he _⟩

/-- All of a register of a group. -/
theorem wholeRegister_covered {k size : ℕ} (h : g.sources[k]? = some (some n)) (hlt : index < n) :
    ∀ access ∈ wholeRegister k index size, g.Covers access := by
  simp only [wholeRegister, List.forall_mem_cons, List.forall_mem_map, List.mem_range]
  exact ⟨covers_register h hlt, fun element helement => covers_span h hlt helement⟩

theorem load_covered {hasLength hasStride : Bool} {postIncrement : Option ℕ}
    (h0 : g.sources[0]? = some none)
    (h1 : hasLength = true ∨ hasStride = true ∨ (∃ n ∈ postIncrement, n ≠ 1) →
      g.sources[1]? = some none)
    (hdest : g.dest = some (opsOf stripMine)) :
    ∀ access ∈ vLd hasLength hasStride postIncrement stripMine, g.Covers access := by
  simp only [vLd, List.forall_mem_append, List.mem_ite_nil_right, List.mem_singleton, forall_eq]
  refine ⟨⟨⟨⟨covers_scalar h0, ?_⟩, ?_⟩, ?_⟩, covers_dest_range hdest le_rfl⟩
  · rintro _ ⟨hlength, rfl⟩
    exact covers_scalar (h1 (Or.inl hlength))
  · rintro _ ⟨hstride, rfl⟩
    exact covers_scalar (h1 (Or.inr (Or.inl hstride)))
  · rintro _ ⟨⟨-, -, hincrement⟩, rfl⟩
    exact covers_scalar (h1 (Or.inr (Or.inr hincrement)))

/-- A quad store takes elements of the register only. -/
theorem lt_of_mem_storeElements (ht : IsSize t) {isQuad : Bool} :
    ∀ element ∈ storeElements t isQuad, element < kVectorRegisterWidth / t := by
  rcases ht with rfl | rfl | rfl <;> cases isQuad <;> decide

theorem store_covered (ht : IsSize t) {hasLength hasStride isQuad : Bool} {postIncrement : Option ℕ}
    (h0 : g.sources[0]? = some (some (opsOf stripMine))) (h1 : g.sources[1]? = some none)
    (h2 : hasLength = true ∨ hasStride = true ∨ (∃ n ∈ postIncrement, n ≠ 2) →
      g.sources[2]? = some none) (v : ScalarValues) :
    ∀ access ∈ vectorStoreHelper t hasLength hasStride postIncrement stripMine isQuad v,
      g.Covers access := by
  simp only [vectorStoreHelper, List.forall_mem_append, List.forall_mem_flatMap,
    List.forall_mem_cons, List.forall_mem_map, List.mem_range, List.mem_filter,
    List.mem_ite_nil_right, List.mem_singleton, forall_eq]
  refine ⟨⟨⟨⟨covers_scalar h1, ?_⟩, ?_⟩,
    fun opNum hop => ⟨covers_register h0 hop, fun element helement => ?_⟩⟩, ?_⟩
  · rintro _ ⟨hlength, rfl⟩
    exact covers_scalar (h2 (Or.inl hlength))
  · rintro _ ⟨hstride, rfl⟩
    exact covers_scalar (h2 (Or.inr (Or.inl hstride)))
  · exact covers_span h0 hop (lt_of_mem_storeElements ht element helement.1)
  · rintro _ ⟨⟨-, -, hincrement⟩, rfl⟩
    exact covers_scalar (h2 (Or.inr (Or.inr hincrement)))

theorem dup_covered (h0 : g.sources[0]? = some none) (hdest : g.dest = some (opsOf stripMine)) :
    ∀ access ∈ vDup t stripMine, g.Covers access := by
  rw [vDup, List.forall_mem_cons]
  exact ⟨covers_scalar h0, covers_dest_range hdest le_rfl⟩

/-- `acset` reads eight registers. -/
theorem acSet_covered_iff (h0 : g.sources[0]? = some (some n)) :
    (∀ access ∈ acSet, g.Covers access) ↔ kVecLenInWord ≤ n := by
  simp only [acSet, List.forall_mem_flatMap, List.mem_range]
  constructor
  · intro hall
    have hlast := hall 7 (by decide) (.register 0 7) List.mem_cons_self
    have hlt : 7 < n := by simpa [OperandGroups.Covers, h0] using hlast
    exact hlt
  · intro hle opIndex hop
    exact wholeRegister_covered h0 (lt_of_lt_of_le hop hle)

/-- `adwinit` reads and writes four registers. -/
theorem aDwInit_covered (h0 : g.sources[0]? = some (some n)) (hn : 4 ≤ n)
    (hdest : g.dest = some 4) : ∀ access ∈ aDwInit, g.Covers access := by
  simp only [aDwInit, List.forall_mem_flatMap, List.forall_mem_append, List.forall_mem_singleton,
    List.mem_range]
  intro opIndex hop
  exact ⟨wholeRegister_covered h0 (lt_of_lt_of_le hop hn), covers_dest hdest hop⟩

theorem conv_covered (h0 : g.sources[0]? = some (some 8)) (h1 : g.sources[1]? = some none)
    (h2 : g.sources[2]? = some (some 8)) (cmd : ConvCmd) :
    ∀ access ∈ vConv cmd, g.Covers access := by
  rw [vConv, List.forall_mem_cons]
  refine ⟨covers_scalar h1, ?_⟩
  split
  · simp
  · rename_i hcmd
    simp only [kVecLenInWord, not_or, not_le, gt_iff_lt, not_lt] at hcmd
    simp only [List.forall_mem_append, List.forall_mem_flatMap, List.mem_range]
    exact ⟨fun vecIdx h => wholeRegister_covered h0 h,
      fun k hk => wholeRegister_covered h2 (by omega)⟩

/-- The registers that a depthwise convolution selects are among nine. -/
theorem vs1Idx_getD_lt (regbase : Fin 16) :
    (∀ index ∈ vs1Idx regbase, index < 9) ∧ ∀ i < 3, (vs1Idx regbase).getD i 0 < 9 := by
  revert regbase
  decide

theorem sparseWords_lt (sparsity : Fin 4) :
    ∀ word ∈ sparseWords sparsity, word.1 < 3 ∧ word.2 < 8 := by
  revert sparsity
  decide

theorem dwconv_covered (h0 : g.sources[0]? = some (some 9)) (h1 : g.sources[1]? = some none)
    (h2 : g.sources[2]? = some (some 4)) {writeAcc : Bool}
    (hdest : writeAcc = true → g.dest = some 4)
    (cmd : ConvCmd) : ∀ access ∈ vDwconv writeAcc cmd, g.Covers access := by
  obtain ⟨hidx, hgetD⟩ := vs1Idx_getD_lt cmd.regbase
  simp only [vDwconv, List.forall_mem_append, List.forall_mem_singleton, List.forall_mem_flatMap,
    List.forall_mem_map, List.mem_range]
  refine ⟨⟨⟨⟨covers_scalar h1, fun index h => covers_register h0 (hidx index h)⟩,
    fun word h => ?_⟩, fun r hr => wholeRegister_covered h2 (by omega)⟩, ?_⟩
  · obtain ⟨hregister, helement⟩ := sparseWords_lt _ word h
    exact covers_span h0 (hgetD word.1 hregister) helement
  · cases writeAcc with
    | false => simp
    | true => exact covers_dest_range (hdest rfl) le_rfl

end Covered

/-! ### The groups of an opcode -/

/-- The groups that the fields of a word give. -/
theorem groupsOf_eq {op : VectorOpcode} {w : Word} (h : FieldsOf op w) :
    groupsOf op w = ⟨(vectorSources op).map (sourceGroupSize op w),
      if .vd ∈ vectorDestinations op then some (destGroupSize op) else none⟩ := by
  rw [groupsOf, getVectorDestination_eq h]
  have hsources : ∀ s ∈ vectorSources op,
      (getVectorSource op.stem w s).size = sourceGroupSize op w s := by
    intro s hs
    rw [getVectorSource_eq h hs]
    cases sourceGroupSize op w s with
    | none => exact scalarOf_size w s
    | some n => exact consecutive_size _ n
  rw [List.map_congr_left hsources, consecutive_size]

/-- The groups of an opcode, for any word when its pattern leaves no field open. -/
def closedGroups (op : VectorOpcode) : OperandGroups where
  sources := (vectorSources op).map (sourceGroupSize op 0)
  dest := if .vd ∈ vectorDestinations op then some (destGroupSize op) else none

theorem groupsOf_eq_closedGroups {op : VectorOpcode} {w : Word} (h : FieldsOf op w)
    (hopen : isOpen op.stem = false) : groupsOf op w = closedGroups op := by
  rw [groupsOf_eq h, closedGroups]
  congr 1
  refine List.map_congr_left fun s _ => ?_
  cases s with
  | vs1 => simp only [sourceGroupSize, hopen, Bool.false_eq_true, if_false]
  | vs2 | vd | vs3 | rs2 => rfl

/-- What the semantic function of an opcode needs of the groups. -/
def groupsFit (op : VectorOpcode) (g : OperandGroups) : Bool :=
  let t := elementSize op
  let scalar := decide (op.form = some .vx)
  let n := opsOf op.masked
  let postIncrement :=
    if .vs1 ∈ vectorDestinations op then some (vectorSources op).length else none
  match semfunc op.stem with
  | .elementwise =>
      IsSize t ∧ g.sources[0]? = some (some n) ∧ SecondOperand g scalar op.masked ∧ g.dest = some n
  | .alternate offset =>
      IsSize t ∧ offset < 2 ∧ g.sources[0]? = some (some n) ∧ SecondOperand g scalar op.masked ∧
        g.dest = some n
  | .widening =>
      (t = 2 ∨ t = 4) ∧ g.sources[0]? = some (some n) ∧ SecondOperand g scalar op.masked ∧
        g.dest = some (n * 2)
  | .accumulate =>
      (t = 2 ∨ t = 4) ∧ g.sources[0]? = some (some (n * 2)) ∧ SecondOperand g scalar op.masked ∧
        g.dest = some (n * 2)
  | .packed => (t = 2 ∨ t = 4) ∧ g.sources[0]? = some (some n) ∧ g.dest = some n
  | .movePair | .alternateBoth | .zip =>
      IsSize t ∧ g.sources[0]? = some (some n) ∧ SecondOperand g scalar op.masked ∧
        g.dest = some (n * 2)
  | .narrowing factor =>
      (factor = 2 ∧ (t = 1 ∨ t = 2) ∨ factor = 4 ∧ t = 1) ∧
        g.sources[0]? = some (some (n * factor)) ∧ SecondOperand g scalar op.masked ∧
        g.dest = some n
  | .slideNext horizontal index | .slidePrevious horizontal index =>
      IsSize t ∧ index ≤ 4 ∧ g.sources[0]? = some (some (opsOf (horizontal || op.masked))) ∧
        SecondOperand g false (horizontal || op.masked) ∧
        g.dest = some (opsOf (horizontal || op.masked))
  | .unary => IsSize t ∧ g.sources[0]? = some (some n) ∧ g.dest = some n
  | .load hasLength hasStride =>
      g.sources[0]? = some none ∧
        (hasLength = true ∨ hasStride = true ∨ (∃ k ∈ postIncrement, k ≠ 1) →
          g.sources[1]? = some none) ∧ g.dest = some n
  | .store hasLength hasStride _ =>
      IsSize t ∧ g.sources[0]? = some (some n) ∧ g.sources[1]? = some none ∧
        (hasLength = true ∨ hasStride = true ∨ (∃ k ∈ postIncrement, k ≠ 2) →
          g.sources[2]? = some none)
  | .dup => g.sources[0]? = some none ∧ g.dest = some n
  | .vcGet => g.dest = some kVecLenInWord
  | .acSet => g.sources[0]? = some (some kVecLenInWord)
  | .aDwInit => g.sources[0]? = some (some 4) ∧ g.dest = some 4
  | .conv =>
      g.sources[0]? = some (some 8) ∧ g.sources[1]? = some none ∧ g.sources[2]? = some (some 8)
  | .dwconv writeAcc =>
      g.sources[0]? = some (some 9) ∧ g.sources[1]? = some none ∧ g.sources[2]? = some (some 4) ∧
        (writeAcc = true → g.dest = some 4)

/-- All patterns that leave no field open. -/
theorem groupsFit_of_mem : ∀ p ∈ vectorPatterns, isOpen p.opcode.stem = true ∨
    groupsFit p.opcode (closedGroups p.opcode) = true := by
  decide +kernel

theorem vcGet_covered {g : OperandGroups} (hdest : g.dest = some kVecLenInWord) :
    ∀ access ∈ vcGet, g.Covers access :=
  covers_dest_range hdest le_rfl

/-- **Groups that fit cover all accesses.** -/
theorem accesses_covered {op : VectorOpcode} {g : OperandGroups} (h : groupsFit op g = true)
    (v : ScalarValues) : ∀ access ∈ accesses op v, g.Covers access := by
  rw [groupsFit] at h
  rw [accesses]
  generalize elementSize op = t at h ⊢
  cases hshape : semfunc op.stem <;> simp only [hshape, decide_eq_true_eq] at h
  case elementwise =>
    exact elementwise_covered h.1 h.2.1 h.2.2.1 h.2.2.2
  case widening =>
    obtain ⟨rfl | rfl, h0, h1, hdest⟩ := h
    · exact widening_covered (Or.inl rfl) h0 h1 hdest
    · exact widening_covered (Or.inr rfl) h0 h1 hdest
  case accumulate =>
    obtain ⟨rfl | rfl, h0, h1, hdest⟩ := h
    · exact accumulate_covered (Or.inl rfl) h0 h1 hdest
    · exact accumulate_covered (Or.inr rfl) h0 h1 hdest
  case packed =>
    obtain ⟨rfl | rfl, h0, hdest⟩ := h
    · exact packed_covered (Or.inl rfl) h0 hdest
    · exact packed_covered (Or.inr rfl) h0 hdest
  case movePair =>
    exact movePair_covered h.1 h.2.1 h.2.2.1 h.2.2.2
  case narrowing factor =>
    obtain ⟨⟨rfl, ht⟩ | ⟨rfl, rfl⟩, h0, h1, hdest⟩ := h
    · exact narrowing_covered_two ht h0 h1 hdest
    · exact narrowing_covered_four h0 h1 hdest
  case slideNext horizontal index =>
    exact slideNext_covered h.1 h.2.1 h.2.2.1 h.2.2.2.1 h.2.2.2.2
  case slidePrevious horizontal index =>
    exact slidePrevious_covered h.1 h.2.1 h.2.2.1 h.2.2.2.1 h.2.2.2.2
  case alternate offset =>
    exact alternate_covered h.1 h.2.1 h.2.2.1 h.2.2.2.1 h.2.2.2.2
  case alternateBoth =>
    exact alternateBoth_covered h.1 h.2.1 h.2.2.1 h.2.2.2
  case zip =>
    exact zip_covered h.1 h.2.1 h.2.2.1 h.2.2.2
  case unary =>
    exact unary_covered h.1 h.2.1 h.2.2
  case load hasLength hasStride =>
    exact load_covered h.1 h.2.1 h.2.2
  case store hasLength hasStride isQuad =>
    exact store_covered h.1 h.2.1 h.2.2.1 h.2.2.2 v
  case dup =>
    exact dup_covered h.1 h.2
  case vcGet =>
    exact vcGet_covered h
  case acSet =>
    exact (acSet_covered_iff h).2 le_rfl
  case aDwInit =>
    exact aDwInit_covered h.1 le_rfl h.2
  case conv =>
    exact conv_covered h.1 h.2.1 h.2.2 v.convCmd
  case dwconv writeAcc =>
    exact dwconv_covered h.1 h.2.1 h.2.2.1 h.2.2.2 v.convCmd

/-! ### Opcodes whose patterns leave fields open -/

/-- The words whose fields give `vs1` another size than their opcode reads: the fields of a scalar
form, or of a narrowing shift for an opcode that reads eight registers. -/
def FieldsMisread (op : VectorOpcode) (w : Word) : Prop :=
  isOpen op.stem = true ∧
    (form.get w = 3 ∨
      op.stem ≠ .adwinit ∧ func1.get w = 0b010 ∧ (sz.get w = 0 ∨ sz.get w = 1))

instance instDecidableFieldsMisread (op : VectorOpcode) (w : Word) :
    Decidable (FieldsMisread op w) :=
  inferInstanceAs (Decidable (_ ∧ _))

section Open

variable {op : VectorOpcode} {w : Word}

theorem stem_cases_of_isOpen {stem : VectorStem} (h : isOpen stem = true) :
    (stem = .acset ∨ stem = .actr) ∨ stem = .adwinit := by
  rwa [isOpen, Bool.or_eq_true, Bool.or_eq_true, decide_eq_true_eq, decide_eq_true_eq,
    decide_eq_true_eq] at h

/-- Their only source is `vs1`. -/
theorem sources_of_isOpen (h : FieldsOf op w) (hopen : isOpen op.stem = true) :
    (groupsOf op w).sources[0]? = some (openVs1Size op.stem w) := by
  have hsources : vectorSources op = [.vs1] := by
    rcases stem_cases_of_isOpen hopen with (hstem | hstem) | hstem <;> rw [vectorSources, hstem]
  rw [groupsOf_eq h, hsources, List.map_singleton, sourceGroupSize, if_pos hopen]
  rfl

/-- A scalar in place of the registers that are read. -/
theorem not_covers_register {g : OperandGroups} (h0 : g.sources[0]? = some none) :
    ¬ g.Covers (.register 0 0) := by
  simp [OperandGroups.Covers, h0]

/-- `acset` and `actr`. -/
theorem acSet_covered_iff_not_misread (h : FieldsOf op w)
    (hstem : op.stem = .acset ∨ op.stem = .actr) :
    (∀ access ∈ acSet, (groupsOf op w).Covers access) ↔ ¬ FieldsMisread op w := by
  have hopen : isOpen op.stem = true := by
    rcases hstem with heq | heq <;> rw [heq] <;> rfl
  have hadwinit : op.stem ≠ .adwinit := by
    rcases hstem with heq | heq <;> rw [heq] <;> decide
  have h0 := sources_of_isOpen h hopen
  rw [openVs1Size, if_neg hadwinit, if_neg hadwinit] at h0
  rw [FieldsMisread]
  by_cases hthree : form.get w = 3
  · rw [if_pos hthree] at h0
    refine iff_of_false (fun hall => ?_) (fun hnot => hnot ⟨hopen, Or.inl hthree⟩)
    exact not_covers_register h0 (hall _ (by decide))
  · rw [if_neg hthree] at h0
    by_cases hsrans : func1.get w = 0b010 ∧ (sz.get w = 0 ∨ sz.get w = 1)
    · rw [if_pos hsrans] at h0
      rw [acSet_covered_iff h0]
      exact iff_of_false (by decide) fun hnot => hnot ⟨hopen, Or.inr ⟨hadwinit, hsrans⟩⟩
    · rw [if_neg hsrans] at h0
      rw [acSet_covered_iff h0]
      refine iff_of_true le_rfl ?_
      rintro ⟨-, hmisread | ⟨-, hmisread⟩⟩
      · exact hthree hmisread
      · exact hsrans hmisread

/-- `adwinit`: a narrowing shift has registers enough. -/
theorem aDwInit_covered_iff_not_misread (h : FieldsOf op w) (hstem : op.stem = .adwinit) :
    (∀ access ∈ aDwInit, (groupsOf op w).Covers access) ↔ ¬ FieldsMisread op w := by
  have hopen : isOpen op.stem = true := by
    rw [hstem]
    rfl
  have h0 := sources_of_isOpen h hopen
  rw [openVs1Size, if_pos hstem, if_pos hstem] at h0
  have hdest : (groupsOf op w).dest = some 4 := by
    rw [groupsOf_eq h]
    simp [vectorDestinations, destGroupSize, hstem]
  rw [FieldsMisread]
  by_cases hthree : form.get w = 3
  · rw [if_pos hthree] at h0
    refine iff_of_false (fun hall => ?_) (fun hnot => hnot ⟨hopen, Or.inl hthree⟩)
    exact not_covers_register h0 (hall _ (by decide))
  · rw [if_neg hthree] at h0
    refine iff_of_true ?_ ?_
    · split at h0
      · exact aDwInit_covered h0 (by decide) hdest
      · exact aDwInit_covered h0 (by decide) hdest
    · rintro ⟨-, hmisread | ⟨hne, -⟩⟩
      · exact hthree hmisread
      · exact hne hstem

end Open

/-- Accesses that do not depend on scalar values. -/
theorem accessesCovered_of_forall {op : VectorOpcode} {w : Word} {list : List OperandAccess}
    (h : ∀ v, accesses op v = list) :
    AccessesCovered op w ↔ ∀ access ∈ list, (groupsOf op w).Covers access := by
  simp only [AccessesCovered, h]
  exact ⟨fun hall => hall ⟨0, ⟨0, 0, 0, 0, 0⟩⟩, fun hall _ => hall⟩

/-- **All accesses are covered exactly when the fields are not misread.** -/
theorem accessesCovered_iff {zbb : List (List (Pattern Opcode))} (hzbb : OnlyZbb zbb)
    (decoders : Decoders 32 (decodeGroups zbb)) {w : Word} {op : VectorOpcode}
    (h : parseInstruction decoders w = some (.vector op)) :
    AccessesCovered op w ↔ ¬ FieldsMisread op w := by
  have hfields := fieldsOf_of_parse hzbb decoders h
  cases hopen : isOpen op.stem with
  | false =>
      obtain ⟨p, hp, rfl, -⟩ := exists_pattern_of_parse hzbb decoders h
      have hfit := (groupsFit_of_mem p hp).resolve_left (by rw [hopen]; decide)
      rw [← groupsOf_eq_closedGroups hfields hopen] at hfit
      refine iff_of_true (accesses_covered hfit) fun hmisread => ?_
      rw [hmisread.1] at hopen
      cases hopen
  | true =>
      rcases stem_cases_of_isOpen hopen with hstem | hstem
      · rw [← acSet_covered_iff_not_misread hfields hstem]
        have hshape : semfunc op.stem = .acSet := by
          rcases hstem with heq | heq <;> rw [heq] <;> rfl
        exact accessesCovered_of_forall fun v => by rw [accesses, hshape]
      · rw [← aDwInit_covered_iff_not_misread hfields hstem]
        have hshape : semfunc op.stem = .aDwInit := by
          rw [hstem]
          rfl
        exact accessesCovered_of_forall fun v => by rw [accesses, hshape]

/-- `vadd_b_vv` of the registers `v1` and `v2`. -/
theorem accessesCovered_iff_vadd :
    AccessesCovered ⟨.vadd, some .b, some .vv, false⟩ 0x204000 ↔
      ¬ FieldsMisread ⟨.vadd, some .b, some .vv, false⟩ 0x204000 :=
  @accessesCovered_iff [] (fun _ h => by cases h)
    (Decoders.of (Decoder.preferring ⟨.zbb 0, []⟩) _) _ _
    (parseInstruction_vadd _ false (by decide +kernel))

/-- A word of `acset` with `func1` and `sz` as in `vsrans_b_vv`: two registers for eight. -/
theorem not_accessesCovered_acset : ¬ ∀ (w : Word) (op : VectorOpcode)
    (decoders : Decoders 32 (decodeGroups [])),
    parseInstruction decoders w = some (.vector op) → AccessesCovered op w := by
  intro h
  let decoders : Decoders 32 (decodeGroups []) := Decoders.of (Decoder.preferring ⟨.zbb 0, []⟩) _
  have hparse := parseInstruction_of_not_shadowed decoders
    (p := ⟨⟨.acset, none, none, false⟩, [.eq CoralNPUV2ArgsType.func2 0b01_0000,
      .eq CoralNPUV2ArgsType.vs2 0, .eq CoralNPUV2ArgsType.m 0, .eq CoralNPUV2ArgsType.vd 48]⟩)
    (w := 0x40000c08) (by decide +kernel) (by decide +kernel) (by decide +kernel)
  have hcovers := h _ _ decoders hparse ⟨0, ⟨0, 0, 0, 0, 0⟩⟩ (.register 0 2) (by decide)
  have hsource : (groupsOf ⟨.acset, none, none, false⟩ 0x40000c08).sources[0]? = some (some 2) := by
    decide +kernel
  simp only [OperandGroups.Covers, hsource] at hcovers
  exact lt_irrefl _ hcovers

end CoralNpu
