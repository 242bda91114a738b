/-
**The simulator state the instruction wrappers work on.**

The wrappers of `coralnpu_v2_instructions.cc` read the operands of an instruction and the vector
configuration, may raise a trap, and hand the instruction on to the simulator library.  This module
holds the part of the state they read and write, and the operands of an instruction.

Main definitions:

* `CoralNpu.CoralNPUV2State` — memory regions, vector configuration, vector registers, memory and
  the traps raised so far;
* `CoralNpu.CoralNPUV2State.trap` — raising a trap;
* `CoralNpu.Instruction` — address, scalar sources and vector sources of an instruction.
-/

import Mathlib.Data.Int.Notation
import CoralNpu.MemoryRegion

set_option relaxedAutoImplicit false
set_option autoImplicit false

namespace CoralNpu

/-- The exception codes the wrappers raise. -/
inductive ExceptionCode where
  | instructionAccessFault
  | illegalInstruction
  | breakpoint
  | loadAccessFault
  | storeAccessFault
  deriving DecidableEq, Repr

/-- One call of `Trap`. -/
structure TrapRecord where
  isInterrupt : Bool
  trapValue : BitVec 32
  exceptionCode : ExceptionCode
  epc : BitVec 32
  deriving DecidableEq, Repr

/-- The vector configuration.  The multiplier counts eighths of a register, so that fractional
values are whole numbers; the element width is in bytes. -/
structure RiscVVectorState where
  vectorLength : ℕ
  vstart : ℕ
  vectorLengthMultiplier : ℕ
  selectedElementWidth : ℕ
  vectorRegisterByteLength : ℕ

/-- The state: `vectorRegisters r b` is byte `b` of vector register `r`. -/
structure CoralNPUV2State where
  memoryRegions : List CoralNPUV2MemoryRegion
  rvVector : RiscVVectorState
  vectorRegisters : ℕ → ℕ → BitVec 8
  memory : BitVec 32 → BitVec 8
  traps : List TrapRecord

namespace CoralNPUV2State

/-- `CoralNPUV2State::HasPermission`. -/
def hasPermission (s : CoralNPUV2State) (address size : BitVec 32)
    (permissions : MemoryPermission) : Bool :=
  CoralNpu.hasPermission s.memoryRegions address size permissions

/-- `Trap`: the trap is recorded; neither memory nor a vector register changes. -/
def trap (s : CoralNPUV2State) (isInterrupt : Bool) (trapValue : BitVec 32)
    (exceptionCode : ExceptionCode) (epc : BitVec 32) : CoralNPUV2State :=
  { s with traps := s.traps ++ [⟨isInterrupt, trapValue, exceptionCode, epc⟩] }

/-- A state with the given regions and vector configuration, all registers and memory zero. -/
def create (memoryRegions : List CoralNPUV2MemoryRegion) (rvVector : RiscVVectorState) :
    CoralNPUV2State :=
  { memoryRegions := registerRegions memoryRegions, rvVector := rvVector,
    vectorRegisters := fun _ _ => 0, memory := fun _ => 0, traps := [] }

end CoralNPUV2State

/-- A vector source: a group of registers, or the all-ones operand of an unmasked instruction. -/
inductive VectorSource where
  | registers (first : ℕ)
  | allOnes

/-- `GetRegister(k)` of a vector source, as the bytes of its data buffer. -/
def VectorSource.getRegister (s : CoralNPUV2State) (k : ℕ) : VectorSource → ℕ → BitVec 8
  | registers first => s.vectorRegisters (first + k)
  | allOnes => fun _ => 0xFF

/-- An instruction: its address, the 64-bit values of its scalar sources and its vector sources,
both by source index. -/
structure Instruction where
  address : BitVec 32
  scalarSource : ℕ → BitVec 64
  vectorSource : ℕ → VectorSource

namespace Instruction

/-- `GetInstructionSource<uint64_t>`. -/
def sourceUInt64 (inst : Instruction) (index : ℕ) : BitVec 64 := inst.scalarSource index

/-- `GetInstructionSource<int64_t>`. -/
def sourceInt64 (inst : Instruction) (index : ℕ) : ℤ := (inst.scalarSource index).toInt

/-- `GetInstructionSource<int32_t>`. -/
def sourceInt32 (inst : Instruction) (index : ℕ) : ℤ :=
  ((inst.scalarSource index).setWidth 32).toInt

end Instruction

end CoralNpu
