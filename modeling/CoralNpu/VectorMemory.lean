/-
**The vector load and store wrappers.**

Every vector load or store of the instruction set goes through a wrapper that validates the
accesses of the instruction and only then runs the load or store of the simulator library.  There
are seven access shapes (strided, mask, whole register, indexed, unit segment, strided segment,
indexed segment), each with a load and a store; a load and the store of its shape do the same with
their operands one place apart.  Each shape is one definition below, and each wrapper is its shape
at the wrapper's own operand indices.

Main definitions:

* `CoralNpu.RiscVVectorMemory` — the loads and stores of the simulator library, as parameters;
* `CoralNpu.coralNPUV2VlStrided` … `CoralNpu.coralNPUV2VsSegmentIndexed` — the wrappers;
* `CoralNpu.VectorMemoryInstruction` and its `execute` — the wrappers as one instruction set.
-/

import Mathlib.Data.PNat.Basic
import CoralNpu.VectorAccess

set_option relaxedAutoImplicit false
set_option autoImplicit false

namespace CoralNpu

/-- The loads and stores of the simulator library. -/
structure RiscVVectorMemory where
  vlStrided : ℕ → Instruction → CoralNPUV2State → CoralNPUV2State
  vlm : Instruction → CoralNPUV2State → CoralNPUV2State
  vlRegister : ℕ → ℕ → Instruction → CoralNPUV2State → CoralNPUV2State
  vlIndexed : ℕ → Instruction → CoralNPUV2State → CoralNPUV2State
  vlSegment : ℕ → Instruction → CoralNPUV2State → CoralNPUV2State
  vlSegmentStrided : ℕ → Instruction → CoralNPUV2State → CoralNPUV2State
  vlSegmentIndexed : ℕ → Instruction → CoralNPUV2State → CoralNPUV2State
  vsStrided : ℕ → Instruction → CoralNPUV2State → CoralNPUV2State
  vsm : Instruction → CoralNPUV2State → CoralNPUV2State
  vsRegister : ℕ → Instruction → CoralNPUV2State → CoralNPUV2State
  vsIndexed : ℕ → Instruction → CoralNPUV2State → CoralNPUV2State
  vsSegment : ℕ → Instruction → CoralNPUV2State → CoralNPUV2State
  vsSegmentStrided : ℕ → Instruction → CoralNPUV2State → CoralNPUV2State
  vsSegmentIndexed : ℕ → Instruction → CoralNPUV2State → CoralNPUV2State

/-! ### Helpers -/

/-- `kMaxEmul`: a group of eight registers, in eighths of a register. -/
def kMaxEmul : ℕ := 64

/-- `GetIndexValue`: index `i` of a group of index registers, least significant byte first. -/
def getIndexValue (indexOp : ℕ → ℕ → BitVec 8) (i indexBytes indicesPerReg : ℕ) : BitVec 64 :=
  let regIdx := i / indicesPerReg
  let byteOffset := i % indicesPerReg * indexBytes
  (List.range indexBytes).foldl (fun indexVal b =>
    indexVal ||| (indexOp regIdx (byteOffset + b)).setWidth 64 <<< (b * 8)) 0

/-- `ValidateIndexedVectorAccess`. -/
def validateIndexedVectorAccess (s : CoralNPUV2State) (inst : Instruction) (maskSourceIndex : ℤ)
    (elementCount : ℕ) (ignoreVstart : Bool) (indexOp : ℕ → ℕ → BitVec 8)
    (indexWidth indicesPerReg : ℕ)
    (validator : CoralNPUV2State → ℕ → BitVec 32 → Bool × CoralNPUV2State) :
    Bool × CoralNPUV2State :=
  validateVectorAccess s inst maskSourceIndex elementCount ignoreVstart fun s i =>
    validator s i ((getIndexValue indexOp i indexWidth indicesPerReg).setWidth 32)

/-- The address of a field of a segment. -/
def fieldAddress (segmentAddress : BitVec 32) (field elementWidth : ℕ) : BitVec 32 :=
  segmentAddress + BitVec.ofNat 32 (field * elementWidth)

/-- The loop over the fields of a segment, over the fields still to come. -/
def checkFields (inst : Instruction) (segmentAddress : BitVec 32) (elementWidth : ℕ)
    (permission : MemoryPermission) :
    List ℕ → CoralNPUV2State → Bool × CoralNPUV2State
  | [], s => (true, s)
  | field :: fields, s =>
      match checkVectorAccess s inst (fieldAddress segmentAddress field elementWidth) elementWidth
        permission with
      | (false, s') => (false, s')
      | (true, s') => checkFields inst segmentAddress elementWidth permission fields s'

/-- The tail of every wrapper: `if (success)` the library's operation runs. -/
def onSuccess (operation : CoralNPUV2State → CoralNPUV2State) :
    Bool × CoralNPUV2State → CoralNPUV2State
  | (true, s) => operation s
  | (false, s) => s

namespace Instruction

/-- The 32-bit base address of an access. -/
def base (inst : Instruction) (baseSource : ℕ) : BitVec 32 :=
  (inst.sourceUInt64 baseSource).setWidth 32

/-- The number of fields of a segment, one more than the operand. -/
def numFields (inst : Instruction) (nfSource : ℕ) : ℕ := (inst.sourceInt32 nfSource + 1).toNat

end Instruction

/-- The effective multiplier of a strided access, in eighths of a register. -/
def effectiveMultiplier (s : CoralNPUV2State) (elementWidth : ℕ) : ℕ :=
  elementWidth * s.rvVector.vectorLengthMultiplier / s.rvVector.selectedElementWidth

/-! ### The seven shapes -/

/-- Unit-stride and strided accesses. -/
def stridedAccess (baseSource strideSource : ℕ) (maskSource : ℤ) (permission : MemoryPermission)
    (operation : ℕ → Instruction → CoralNPUV2State → CoralNPUV2State) (elementWidth : ℕ)
    (inst : Instruction) (s : CoralNPUV2State) : CoralNPUV2State :=
  let base := inst.base baseSource
  let stride := inst.sourceInt64 strideSource
  let emul := effectiveMultiplier s elementWidth
  if emul > kMaxEmul ∨ emul = 0 then s.trap false 0 .illegalInstruction inst.address else
  let vl := s.rvVector.vectorLength
  onSuccess (operation elementWidth inst) <|
    validateStridedVectorAccess s inst maskSource vl false base stride elementWidth permission
      fun s i => checkVectorAccess s inst (elementAddress base stride i) elementWidth permission

/-- Mask accesses: the bytes that hold `vl` mask bits. -/
def maskAccess (baseSource : ℕ) (permission : MemoryPermission)
    (operation : Instruction → CoralNPUV2State → CoralNPUV2State) (inst : Instruction)
    (s : CoralNPUV2State) : CoralNPUV2State :=
  let base := inst.base baseSource
  let numBytes := (s.rvVector.vectorLength + 7) / 8
  onSuccess (operation inst) <|
    validateStridedVectorAccess s inst (-1) numBytes true base 1 1 permission
      fun s i => checkVectorAccess s inst (elementAddress base 1 i) 1 permission

/-- Whole-register accesses. -/
def registerAccess (baseSource : ℕ) (permission : MemoryPermission)
    (operation : Instruction → CoralNPUV2State → CoralNPUV2State) (numRegs elementWidth : ℕ)
    (inst : Instruction) (s : CoralNPUV2State) : CoralNPUV2State :=
  let base := inst.base baseSource
  let numElements := s.rvVector.vectorRegisterByteLength * numRegs / elementWidth
  onSuccess (operation inst) <|
    validateStridedVectorAccess s inst (-1) numElements true base elementWidth elementWidth
      permission
      fun s i => checkVectorAccess s inst
        (elementAddress base elementWidth i) elementWidth permission

/-- Indexed accesses: the index register group gives each element's offset. -/
def indexedAccess (baseSource indexSource : ℕ) (maskSource : ℤ) (permission : MemoryPermission)
    (operation : ℕ → Instruction → CoralNPUV2State → CoralNPUV2State) (indexWidth : ℕ)
    (inst : Instruction) (s : CoralNPUV2State) : CoralNPUV2State :=
  let base := inst.base baseSource
  let indexOp := fun k => (inst.vectorSource indexSource).getRegister s k
  let sewBytes := s.rvVector.selectedElementWidth
  let indicesPerReg := s.rvVector.vectorRegisterByteLength / indexWidth
  onSuccess (operation indexWidth inst) <|
    validateIndexedVectorAccess s inst maskSource s.rvVector.vectorLength false indexOp indexWidth
      indicesPerReg
      fun s _ indexVal => checkVectorAccess s inst (base + indexVal) sewBytes permission

/-- Unit segment accesses: each segment is checked as one access of all its fields. -/
def segmentAccess (baseSource : ℕ) (maskSource : ℤ) (nfSource : ℕ) (permission : MemoryPermission)
    (operation : ℕ → Instruction → CoralNPUV2State → CoralNPUV2State) (elementWidth : ℕ)
    (inst : Instruction) (s : CoralNPUV2State) : CoralNPUV2State :=
  let base := inst.base baseSource
  let segmentByteSize := inst.numFields nfSource * elementWidth
  let vl := s.rvVector.vectorLength
  onSuccess (operation elementWidth inst) <|
    validateStridedVectorAccess s inst maskSource vl false base segmentByteSize segmentByteSize
      permission
      fun s i => checkVectorAccess s inst (elementAddress base segmentByteSize i) segmentByteSize
        permission

/-- Strided segment accesses: the range is tried with whole segments, the walk checks fields. -/
def segmentStridedAccess (baseSource strideSource : ℕ) (maskSource : ℤ) (nfSource : ℕ)
    (permission : MemoryPermission)
    (operation : ℕ → Instruction → CoralNPUV2State → CoralNPUV2State) (elementWidth : ℕ)
    (inst : Instruction) (s : CoralNPUV2State) : CoralNPUV2State :=
  let base := inst.base baseSource
  let segmentStride := inst.sourceInt64 strideSource
  let numFields := inst.numFields nfSource
  let vl := s.rvVector.vectorLength
  onSuccess (operation elementWidth inst) <|
    validateStridedVectorAccess s inst maskSource vl false base segmentStride
      (numFields * elementWidth) permission
      fun s i => checkFields inst (elementAddress base segmentStride i) elementWidth permission
        (List.range numFields) s

/-- Indexed segment loads: the fields of each segment are checked one by one. -/
def segmentIndexedAccess (baseSource indexSource : ℕ) (maskSource : ℤ) (nfSource : ℕ)
    (permission : MemoryPermission)
    (operation : ℕ → Instruction → CoralNPUV2State → CoralNPUV2State) (indexWidth : ℕ)
    (inst : Instruction) (s : CoralNPUV2State) : CoralNPUV2State :=
  let base := inst.base baseSource
  let indexOp := fun k => (inst.vectorSource indexSource).getRegister s k
  let numFields := inst.numFields nfSource
  let elementWidth := s.rvVector.selectedElementWidth
  let indicesPerReg := s.rvVector.vectorRegisterByteLength / indexWidth
  onSuccess (operation indexWidth inst) <|
    validateIndexedVectorAccess s inst maskSource s.rvVector.vectorLength false indexOp indexWidth
      indicesPerReg
      fun s _ indexVal => checkFields inst (base + indexVal) elementWidth permission
        (List.range numFields) s

/-! ### The wrappers -/

section Wrappers

variable (mpact : RiscVVectorMemory)

/-- `CoralNPUV2VlStrided`. -/
def coralNPUV2VlStrided := stridedAccess 0 1 2 .read mpact.vlStrided

/-- `CoralNPUV2Vlm`. -/
def coralNPUV2Vlm := maskAccess 0 .read mpact.vlm

/-- `CoralNPUV2VlRegister`. -/
def coralNPUV2VlRegister (numRegs elementWidthBytes : ℕ) :=
  registerAccess 0 .read (mpact.vlRegister numRegs elementWidthBytes) numRegs elementWidthBytes

/-- `CoralNPUV2VlIndexed`. -/
def coralNPUV2VlIndexed := indexedAccess 0 1 2 .read mpact.vlIndexed

/-- `CoralNPUV2VlSegment`. -/
def coralNPUV2VlSegment := segmentAccess 0 1 2 .read mpact.vlSegment

/-- `CoralNPUV2VlSegmentStrided`. -/
def coralNPUV2VlSegmentStrided := segmentStridedAccess 0 1 2 3 .read mpact.vlSegmentStrided

/-- `CoralNPUV2VlSegmentIndexed`. -/
def coralNPUV2VlSegmentIndexed := segmentIndexedAccess 0 1 2 3 .read mpact.vlSegmentIndexed

/-- `CoralNPUV2VsStrided`. -/
def coralNPUV2VsStrided := stridedAccess 1 2 3 .write mpact.vsStrided

/-- `CoralNPUV2Vsm`. -/
def coralNPUV2Vsm := maskAccess 1 .write mpact.vsm

/-- `CoralNPUV2VsRegister`: the elements are eight bytes whatever the encoding. -/
def coralNPUV2VsRegister (numRegs : ℕ) :=
  registerAccess 1 .write (mpact.vsRegister numRegs) numRegs 8

/-- `CoralNPUV2VsIndexed`. -/
def coralNPUV2VsIndexed := indexedAccess 1 2 3 .write mpact.vsIndexed

/-- `CoralNPUV2VsSegment`. -/
def coralNPUV2VsSegment := segmentAccess 1 2 3 .write mpact.vsSegment

/-- `CoralNPUV2VsSegmentStrided`. -/
def coralNPUV2VsSegmentStrided := segmentStridedAccess 1 2 3 4 .write mpact.vsSegmentStrided

/-- `CoralNPUV2VsSegmentIndexed`: unlike the loads, this wrapper calls `ValidateVectorAccess`
itself and adds the 64-bit index to the 64-bit base. -/
def coralNPUV2VsSegmentIndexed (indexWidth : ℕ) (inst : Instruction) (s : CoralNPUV2State) :
    CoralNPUV2State :=
  let base := inst.sourceUInt64 1
  let indexOp := fun k => (inst.vectorSource 2).getRegister s k
  let numFields := inst.numFields 4
  let elementWidth := s.rvVector.selectedElementWidth
  let indicesPerReg := s.rvVector.vectorRegisterByteLength / indexWidth
  onSuccess (mpact.vsSegmentIndexed indexWidth inst) <|
    validateVectorAccess s inst 3 s.rvVector.vectorLength false fun s i =>
      let indexVal := getIndexValue indexOp i indexWidth indicesPerReg
      let segmentAddress := (base + indexVal).setWidth 32
      checkFields inst segmentAddress elementWidth .write (List.range numFields) s

/-- The 64-bit sum of base and index, cut to 32 bits, is the 32-bit sum: the indexed segment store
checks the addresses the indexed segment load would. -/
theorem coralNPUV2VsSegmentIndexed_eq :
    coralNPUV2VsSegmentIndexed mpact =
      segmentIndexedAccess 1 2 3 4 .write mpact.vsSegmentIndexed := by
  funext indexWidth inst s
  simp only [coralNPUV2VsSegmentIndexed, segmentIndexedAccess, validateIndexedVectorAccess,
    Instruction.base, BitVec.setWidth_add _ _ (by decide : 32 ≤ 64)]

end Wrappers

/-! ### The instructions -/

/-- A vector load or store instruction, with the parameters its encoding binds: no width is
zero. -/
inductive VectorMemoryInstruction where
  | vlStrided (elementWidth : ℕ+)
  | vlm
  | vlRegister (numRegs : ℕ) (elementWidth : ℕ+)
  | vlIndexed (indexWidth : ℕ+)
  | vlSegment (elementWidth : ℕ+)
  | vlSegmentStrided (elementWidth : ℕ+)
  | vlSegmentIndexed (indexWidth : ℕ+)
  | vsStrided (elementWidth : ℕ+)
  | vsm
  | vsRegister (numRegs : ℕ)
  | vsIndexed (indexWidth : ℕ+)
  | vsSegment (elementWidth : ℕ+)
  | vsSegmentStrided (elementWidth : ℕ+)
  | vsSegmentIndexed (indexWidth : ℕ+)

namespace VectorMemoryInstruction

variable (mpact : RiscVVectorMemory)

/-- The wrapper bound to an instruction. -/
def execute : VectorMemoryInstruction → Instruction → CoralNPUV2State → CoralNPUV2State
  | vlStrided elementWidth => coralNPUV2VlStrided mpact elementWidth
  | vlm => coralNPUV2Vlm mpact
  | vlRegister numRegs elementWidth => coralNPUV2VlRegister mpact numRegs elementWidth
  | vlIndexed indexWidth => coralNPUV2VlIndexed mpact indexWidth
  | vlSegment elementWidth => coralNPUV2VlSegment mpact elementWidth
  | vlSegmentStrided elementWidth => coralNPUV2VlSegmentStrided mpact elementWidth
  | vlSegmentIndexed indexWidth => coralNPUV2VlSegmentIndexed mpact indexWidth
  | vsStrided elementWidth => coralNPUV2VsStrided mpact elementWidth
  | vsm => coralNPUV2Vsm mpact
  | vsRegister numRegs => coralNPUV2VsRegister mpact numRegs
  | vsIndexed indexWidth => coralNPUV2VsIndexed mpact indexWidth
  | vsSegment elementWidth => coralNPUV2VsSegment mpact elementWidth
  | vsSegmentStrided elementWidth => coralNPUV2VsSegmentStrided mpact elementWidth
  | vsSegmentIndexed indexWidth => coralNPUV2VsSegmentIndexed mpact indexWidth

/-- The library operation behind an instruction. -/
def operation : VectorMemoryInstruction → Instruction → CoralNPUV2State → CoralNPUV2State
  | vlStrided elementWidth => mpact.vlStrided elementWidth
  | vlm => mpact.vlm
  | vlRegister numRegs elementWidth => mpact.vlRegister numRegs elementWidth
  | vlIndexed indexWidth => mpact.vlIndexed indexWidth
  | vlSegment elementWidth => mpact.vlSegment elementWidth
  | vlSegmentStrided elementWidth => mpact.vlSegmentStrided elementWidth
  | vlSegmentIndexed indexWidth => mpact.vlSegmentIndexed indexWidth
  | vsStrided elementWidth => mpact.vsStrided elementWidth
  | vsm => mpact.vsm
  | vsRegister numRegs => mpact.vsRegister numRegs
  | vsIndexed indexWidth => mpact.vsIndexed indexWidth
  | vsSegment elementWidth => mpact.vsSegment elementWidth
  | vsSegmentStrided elementWidth => mpact.vsSegmentStrided elementWidth
  | vsSegmentIndexed indexWidth => mpact.vsSegmentIndexed indexWidth

end VectorMemoryInstruction

end CoralNpu
