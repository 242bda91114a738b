/-
**The instruction stream generator: preamble, builders and hazard generators.**

On top of the emitters of single lines the engine offers longer pieces of code: the preamble in
front of every test, vector configurations, floating point poison pills, blocks of vector and memory
instructions, and the address sandbox in front of a memory access.  The hazard generators are
clients that put such pieces together.

Main definitions:

* `CoralNpu.emitPreamble`, `CoralNpu.emitVtype`, `CoralNpu.emitDataHazard` — longer pieces;
* `CoralNpu.emitDynamicMask` — the address sandbox;
* `CoralNpu.emitVectorLoadStrided`, `CoralNpu.emitVectorLoadIndexed`, … — the block builders;
* `CoralNpu.generateControlHazard`, … — the hazard generators;
* `CoralNpu.EngineCall`, `CoralNpu.Client` — the calls of the engine's interface, and the programs
  that make them.
-/

import CoralNpu.IsgEngine

set_option relaxedAutoImplicit false
set_option autoImplicit false

namespace CoralNpu

open AsciiText

variable {G : Prng}

/-- `EmitInstruction`, once for each of the instructions. -/
def emitInstructions (insts : List String) : EngineM G Unit :=
  insts.forM fun inst => emitInstruction inst.toList

/-! ### The preamble -/

/-- `SetupTrapHandler`. -/
def setupTrapHandler (trapAddr : BitVec 32) : EngineM G Unit := do
  emitInstructionFormat ("addi t0, zero, ".toList ++ decimal trapAddr.toNat)
  emitInstruction "csrw mtvec, t0".toList

/-- The jump over the trap handler, and the part of the handler that saves the cause of the trap. -/
def trapHandlerEntry : List String :=
  ["jal zero, 0x70",
   "csrrw t0, mscratch, t0",
   "csrrw t0, mtval, t0",
   "lui t0, 0x10",
   "sw t1, 4(t0)",
   "sw t2, 8(t0)",
   "csrrs t1, mscratch, zero",
   "sw t1, 0(t0)",
   "csrrs t1, mtval, zero",
   "sw t1, 20(t0)",
   "csrrs t1, mcause, zero",
   "sw t1, 12(t0)",
   "csrrs t1, mepc, zero",
   "sw t1, 16(t0)",
   "lw t1, 12(t0)",
   "addi t2, zero, 3"]

/-- The part of the handler that makes `mret` go to the end of the test. -/
def trapHandlerReturn : List String :=
  ["lui t1, 0x2",
   "addi t1, t1, -4",
   "csrw mepc, t1"]

/-- The part of the handler that restores the registers. -/
def trapHandlerRestore : List String :=
  ["ebreak",
   "lw t1, 20(t0)",
   "csrw mscratch, t1",
   "lw t1, 4(t0)",
   "lw t2, 8(t0)",
   "lw t0, 0(t0)",
   "mret"]

/-- The body of the loop that fills the data memory. -/
def fillLoop : List String :=
  ["sw t1, 0(t0)",
   "slli t3, t1, 0xd",
   "xor t1, t1, t3",
   "srli t3, t1, 0x11",
   "xor t1, t1, t3",
   "slli t3, t1, 0x5",
   "xor t1, t1, t3",
   "addi t0, t0, 4",
   "addi t2, t2, -1"]

/-- The trap handler. -/
def emitTrapHandler : EngineM G Unit := do
  emitInstructions trapHandlerEntry
  let ebreakAddr := (← currentPc) + 20
  emitInstructionFormat ("beq t1, t2, ".toList ++ hexAlt ebreakAddr)
  emitInstructions trapHandlerReturn
  let restoreAddr := (← currentPc) + 8
  emitInstructionFormat ("jal zero, ".toList ++ hexAlt restoreAddr)
  emitInstructions trapHandlerRestore

/-- The loop that fills the data memory with pseudo-random words. -/
def emitFillLoop : EngineM G Unit := do
  emitLi "t0".toList (BitVec.ofNat 32 kDefaultRwRegionStart)
  let sv := (← draw).setWidth 32
  emitLi "t1".toList (if sv = 0 then 1 else sv)
  emitLi "t2".toList 8192
  let loopStartPc ← currentPc
  appendUnchecked "1:\n".toList
  emitInstructions fillLoop
  emitInstructionFormat ("bne t2, zero, 0x".toList ++ hex loopStartPc)

/-- Random values for the scalar registers, the control registers and the float registers. -/
def emitRegisterInit : EngineM G Unit := do
  emitLi "t0".toList 0x6600
  emitInstruction "csrw mstatus, t0".toList
  (List.range' 1 31).forM fun i => do
    emitLi ("x".toList ++ decimal i) ((← draw).setWidth 32)
  let fflagsHigh ← draw
  let fflagsLow ← draw
  let fcsrVal :=
    BitVec.ofNat 32 (fflagsHigh.toNat % 5) <<< 5 ||| BitVec.ofNat 32 (fflagsLow.toNat % 32)
  emitInstructionFormat ("addi t0, zero, ".toList ++ decimal fcsrVal.toNat)
  emitInstruction "csrw fcsr, t0".toList
  emitLi "t0".toList ((← draw).setWidth 32)
  emitInstruction "csrw mscratch, t0".toList
  emitLi "t0".toList ((← draw).setWidth 32)
  emitInstruction "csrw mepc, t0".toList
  emitLi "t0".toList ((← draw).setWidth 32)
  emitInstruction "csrw mcause, t0".toList
  emitInstructionFormat ("addi t0, zero, ".toList ++ decimal ((← draw).toNat % 4))
  emitInstruction "csrw vxrm, t0".toList
  emitInstructionFormat ("addi t0, zero, ".toList ++ decimal ((← draw).toNat % 2))
  emitInstruction "csrw vxsat, t0".toList
  emitInstruction "csrw vstart, zero".toList
  (List.range 32).forM fun i => do
    emitLi "t0".toList ((← draw).setWidth 32)
    emitInstructionFormat ("mv.w.x f".toList ++ decimal i ++ ", t0".toList)

/-- The tracker reset of the preamble. -/
def resetTracker : EngineM G Unit :=
  modify fun e => { e with
    vectorState := { e.vectorState with sew := .e8, lmul := .m8, configured := false, vl := 0 }
    trace := { e.trace with events := e.trace.events ++ [.trackerReset] } }

/-- A random address in the first four kilobytes of the data memory, past the reserved bytes. -/
def drawDataAddress : EngineM G (BitVec 32) := do
  let value ← draw
  return BitVec.ofNat 32 (kDefaultRwRegionStart + kReservedDtcmBytes +
    value.toNat % (0x1000 - kReservedDtcmBytes))

/-- The vector registers, and addresses for the pointer registers. -/
def emitVectorInit : EngineM G Unit := do
  resetTracker
  emitLi "t0".toList (BitVec.ofNat 32 (kDefaultRwRegionStart + kReservedDtcmBytes))
  [0, 8, 16, 24].forM fun i => do
    emitInstructionFormat ("vle8.v v".toList ++ decimal i ++ ",(t0)".toList)
    emitInstruction "addi t0, t0, 1024".toList
  emitLi "t0".toList (← drawDataAddress)
  emitLi "t1".toList (← drawDataAddress)
  emitLi "t2".toList (← drawDataAddress)
  emitLi "t3".toList (← drawDataAddress)
  emitLi "sp".toList (BitVec.ofNat 32 (kDefaultRwRegionStart + kDefaultRwRegionLength))

/-- The text that opens the preamble. -/
def preambleHead : Text := "; BEGIN PROTECTED\n.text\n.global _start\n_start:\n".toList

/-- The text that closes the preamble. -/
def preambleTail : Text := "; END PROTECTED\n; BEGIN MUTABLE\n_mutable_start:\n".toList

/-- `EmitPreamble`. -/
def emitPreamble : EngineM G Unit := do
  appendUnchecked preambleHead
  emitTrapHandler
  setupTrapHandler 0x4
  emitFillLoop
  emitRegisterInit
  emitVectorInit
  appendUnchecked preambleTail

/-! ### Longer pieces -/

/-- The mnemonics without a destination that have a name of their own. -/
def withoutDestination : List (String × String) :=
  [("csrrw", "csrw"), ("csrrs", "csrs"), ("csrrc", "csrc"), ("csrrwi", "csrwi"),
   ("csrrsi", "csrsi"), ("csrrci", "csrci")]

/-- The text ends with one of the given texts. -/
def endsWithAny (suffixes : List String) (text : Text) : Bool :=
  suffixes.any fun suffix => suffix.toList.isSuffixOf text

/-- The text starts with one of the given texts. -/
def startsWithAny (prefixes : List String) (text : Text) : Bool :=
  prefixes.any fun start => start.toList.isPrefixOf text

/-- `StrContains`. -/
def containsText (part : Text) : Text → Bool
  | [] => part.isEmpty
  | c :: text => part.isPrefixOf (c :: text) || containsText part text

/-- A dot put in front of the last `n` characters. -/
def insertDot (n : ℕ) (text : Text) : Text :=
  text.take (text.length - n) ++ '.' :: text.drop (text.length - n)

/-- `CanonicalizeMnemonic`. -/
def canonicalizeMnemonic (name : Text) : Text :=
  let lower := name.map Char.toLower
  let isNr := containsText "_nr".toList lower || "nr".toList.isSuffixOf lower
  let lower := lower.takeWhile (· != '_')
  let lower := if "nr".toList.isSuffixOf lower then lower.take (lower.length - 2) else lower
  match withoutDestination.find? fun pair => isNr && pair.1.toList == lower with
  | some pair => pair.2.toList
  | none =>
      if endsWithAny ["vv", "vx", "vi", "vf", "wx"] lower then
        if '.' ∈ lower then lower else insertDot 2 lower
      else if endsWithAny ["vvm", "vxm", "vim"] lower then
        if '.' ∈ lower then lower else insertDot 3 lower
      else if startsWithAny ["vls", "vlox", "vlux", "vss", "vsox", "vsux", "vle"] lower ||
          (startsWithAny ["vse"] lower && lower != "vsetvli".toList &&
            lower != "vsetivli".toList && lower != "vsetvl".toList) then
        if '.' ∈ lower then lower else lower ++ ".v".toList
      else lower

/-- The longest mnemonic the table of `EmitDataHazard` holds. -/
def kMaxMnemonicLen : ℕ := 32

/-- `EmitDataHazard`, on the names of its opcodes. -/
def emitDataHazard (name1 name2 : Text) : EngineM G Unit := do
  let mnemonic1 := (canonicalizeMnemonic name1).take (kMaxMnemonicLen - 1)
  let mnemonic2 := (canonicalizeMnemonic name2).take (kMaxMnemonicLen - 1)
  emitInstructionFormat (mnemonic1 ++ " t0, t1, t2".toList)
  emitInstructionFormat (mnemonic2 ++ " t3, t0, t4".toList)

/-- `EmitFpPoisonPills`. -/
def emitFpPoisonPills : EngineM G Unit := do
  appendChecked ("; COVERPOINT: FP Poison Pills".toList ++ "\n".toList)
  emitLi "t0".toList 0xFFFFFFFF
  emitInstruction "mv.w.x f1, t0".toList
  emitLi "t0".toList 0x7F800001
  emitInstruction "mv.w.x f2, t0".toList
  emitLi "t0".toList 0x00000001
  emitInstructions
    ["mv.w.x f3, t0",
     "mv.x.w t1, f1",
     "mv.w.x f4, t1",
     "mv.x.w t2, f2",
     "mv.w.x f5, t2",
     "mv.x.w t3, f3",
     "mv.w.x f6, t3",
     "fadd.s f7, f1, f2",
     "fsub.s f8, f2, f3",
     "fmul.s f9, f1, f3",
     "fdiv.s f10, f1, f1"]

/-- The element width `EmitVtype` takes for a number. -/
def sewOfInt (sew : ℤ) : Option VectorSew :=
  if sew = 8 then some .e8
  else if sew = 16 then some .e16
  else if sew = 32 then some .e32
  else if sew = 64 then some .e64
  else none

/-- The multiplier `EmitVtype` takes for a number. -/
def lmulOfInt (lmul : ℤ) : Option VectorLmul :=
  if lmul = 1 then some .m1
  else if lmul = 2 then some .m2
  else if lmul = 4 then some .m4
  else if lmul = 8 then some .m8
  else none

/-- `EmitVtype`.  An unsupported number aborts; `vl = -1` keeps the vector length. -/
def emitVtype (sew lmul : ℤ) (vl : BitVec 32) : EngineM G Unit := do
  match sewOfInt sew, lmulOfInt lmul with
  | some sew, some lmul =>
      if vl ≠ -1 then
        emitLi "t3".toList vl
        emitVsetvli "zero".toList "t3".toList sew lmul true true
        setVl vl
      else
        emitVsetvli "zero".toList "zero".toList sew lmul true true
  | _, _ => failure

/-! ### Register groups -/

/-- `GetLmulRatio`, in eighths. -/
def VectorLmul.eighths : VectorLmul → ℕ
  | mf8 => 1
  | mf4 => 2
  | mf2 => 4
  | m1 => 8
  | m2 => 16
  | m4 => 32
  | m8 => 64

/-- `GetSewBits`. -/
def VectorSew.bits : VectorSew → ℕ
  | e8 => 8
  | e16 => 16
  | e32 => 32
  | e64 => 64

/-- The ratio `CalculateEmul` compares, in sixteenths: a power of two for every configuration. -/
def emulRatio (sew : VectorSew) (lmul : VectorLmul) (eew : ℕ) : ℕ :=
  eew * (2 * lmul.eighths) / sew.bits

/-- The group size for a ratio of at most eight. -/
def groupOfRatio (ratio : ℕ) : VectorLmul :=
  if ratio ≥ 8 * 16 then .m8
  else if ratio ≥ 4 * 16 then .m4
  else if ratio ≥ 2 * 16 then .m2
  else if ratio ≥ 16 then .m1
  else if ratio ≥ 8 then .mf2
  else if ratio ≥ 4 then .mf4
  else .mf8

/-- `CalculateEmul`. -/
def calculateEmul (sew : VectorSew) (lmul : VectorLmul) (eew : ℕ) : EngineM G VectorLmul := do
  let ratio := emulRatio sew lmul eew
  let value ← draw
  if value.toNat % 16 = 0 then return .m1
  else if ratio > 8 * 16 then
    emitVsetvli "zero".toList "zero".toList .e32 .m8 true true
    return .m8
  else return groupOfRatio ratio

/-- `SimpleAtoi` into a `uint32_t`. -/
def simpleAtoi (text : Text) : Option (BitVec 32) :=
  let digits := match strip text with
    | '+' :: digits => digits
    | digits => digits
  if digits = [] then none
  else
    match parseDigits 10 digits 0 with
    | some value => if value < 2 ^ 32 then some (BitVec.ofNat 32 value) else none
    | none => none

/-- The number of registers a group of registers starts at a multiple of. -/
def VectorLmul.align : VectorLmul → BitVec 32
  | m2 => 2
  | m4 => 4
  | m8 => 8
  | _ => 1

/-- The random choice of register zero in `AlignVectorReg`. -/
def drawRegNum (regNum : BitVec 32) : EngineM G (BitVec 32) := do
  let value ← draw
  if value.toNat % 16 = 0 then
    let value ← draw
    return if value.toNat % 2 = 0 then 0 else regNum
  else
    return regNum

/-- `AlignVectorReg`. -/
def alignVectorReg (regStr : Text) (lmul : VectorLmul) : EngineM G Text :=
  match regStr with
  | 'v' :: number =>
      match simpleAtoi number with
      | none => return regStr
      | some regNum => do
          let regNum ← drawRegNum regNum
          return 'v' :: decimal ((regNum &&& ~~~(lmul.align - 1)).toNat % 32)
  | _ => return regStr

/-! ### The address sandbox -/

/-- The `addi` immediate that completes `lui` to a constant. -/
def lowerPart (value : BitVec 32) : ℤ := (value - ((value + 0x800) >>> 12) <<< 12).toInt

/-- The `lui` immediate of a constant. -/
def upperPart (value : BitVec 32) : BitVec 32 := (value + 0x800) >>> 12

/-- The number of offsets into a region at which `offsetSize` bytes fit. -/
def regionMask (length : ℕ) (offsetSize : BitVec 32) : BitVec 32 :=
  if length > offsetSize.toNat then BitVec.ofNat 32 length - offsetSize + 1 else 1

/-- A constant into a register that is not needed for anything else: `lui`, and `addi` when the
lower part is not zero. -/
def emitConstant (reg : String) (value : BitVec 32) : EngineM G Unit := do
  emitInstructionFormat
    ("lui ".toList ++ reg.toList ++ ", 0x".toList ++ hex (upperPart value).toNat)
  if lowerPart value ≠ 0 then
    emitInstructionFormat
      ("addi ".toList ++ reg.toList ++ ", ".toList ++ reg.toList ++ ", ".toList ++
        signed (lowerPart value))

/-- Saving the scratch registers, and choosing the region by bit 29 of the address. -/
def dynamicMaskEntry : List String :=
  ["addi sp, sp, -16",
   "sw t1, 0(sp)",
   "sw t2, 4(sp)",
   "sw t3, 8(sp)",
   "sw t5, 12(sp)",
   "srli t5, t6, 0x1d",
   "slli t5, t5, 0x1d",
   "lui t1, 0x20000",
   "and t5, t5, t1",
   "sltiu t1, t5, 1",
   "sub t3, zero, t1"]

/-- The remainder of the address in its region. -/
def dynamicMaskRemainder : List String :=
  ["sub t2, t1, t2",
   "lui t1, 0x10",
   "and t1, t1, t3",
   "or t5, t5, t1",
   "sub t6, t6, t5",
   "sltiu t1, t2, 1",
   "add t2, t2, t1",
   "remu t6, t6, t2"]

/-- Back to an address, with the scratch registers restored. -/
def dynamicMaskExit : List String :=
  ["add t6, t6, t5",
   "lw t1, 0(sp)",
   "lw t2, 4(sp)",
   "lw t3, 8(sp)",
   "lw t5, 12(sp)",
   "addi sp, sp, 16"]

/-- Moving an address of region 1 past the reserved bytes. -/
def emitReservedClamp : EngineM G Unit := do
  emitInstructionFormat ("sltiu t1, t6, ".toList ++ decimal kReservedDtcmBytes)
  emitInstructions ["sub t1, zero, t1", "and t1, t1, t3"]
  emitInstructionFormat ("addi t2, zero, ".toList ++ decimal kReservedDtcmBytes)
  emitInstructions ["sub t2, t2, t6", "and t2, t2, t1", "add t6, t6, t2"]

/-- The lines of `EmitDynamicMask`. -/
def emitDynamicMaskLines (offsetSize : BitVec 32) : EngineM G Unit := do
  let r1Mask := regionMask kDefaultRwRegionLength offsetSize
  let r2Mask := regionMask kDefaultRwRegion2Length offsetSize
  let diff := r2Mask - r1Mask
  emitInstructions dynamicMaskEntry
  emitConstant "t2" diff
  emitInstruction "and t2, t2, t3".toList
  emitConstant "t1" r2Mask
  emitInstructions dynamicMaskRemainder
  (if r1Mask.toNat > kReservedDtcmBytes then emitReservedClamp else pure ())
  emitInstructions dynamicMaskExit

/-- `EmitDynamicMask`: nothing without strict sandboxing. -/
def emitDynamicMask (offsetSize : BitVec 32) : EngineM G Unit := do
  let strict ← strictSandboxing
  if strict then emitDynamicMaskLines offsetSize else pure ()

/-! ### Vector and memory blocks -/

/-- The arithmetic of a vector block. -/
def emitVectorArithmetic (mnemonic : String) (vd vs2 vs1 : Text) (masked : Bool) :
    EngineM G Unit := do
  let alignedVd ← alignVectorReg vd (← vectorState).lmul
  let alignedVs2 ← alignVectorReg vs2 (← vectorState).lmul
  let alignedVs1 ← alignVectorReg vs1 (← vectorState).lmul
  emitInstructionFormat (mnemonic.toList ++ " ".toList ++ alignedVd ++ ", ".toList ++ alignedVs2 ++
    ", ".toList ++ alignedVs1 ++ (if masked then ", v0.t".toList else []))

/-- `VectorBlockBuilder::EmitVadd`. -/
def emitVadd (vd vs2 vs1 : Text) (masked : Bool) : EngineM G Unit :=
  emitVectorArithmetic "vadd.vv" vd vs2 vs1 masked

/-- `VectorBlockBuilder::EmitVmul`. -/
def emitVmul (vd vs2 vs1 : Text) (masked : Bool) : EngineM G Unit :=
  emitVectorArithmetic "vmul.vv" vd vs2 vs1 masked

/-- `VectorBlockBuilder::EmitVsub`. -/
def emitVsub (vd vs2 vs1 : Text) (masked : Bool) : EngineM G Unit :=
  emitVectorArithmetic "vsub.vv" vd vs2 vs1 masked

/-- `VectorBlockBuilder::EmitVdiv`. -/
def emitVdiv (vd vs2 vs1 : Text) (masked : Bool) : EngineM G Unit :=
  emitVectorArithmetic "vdiv.vv" vd vs2 vs1 masked

/-- The line that adds a register and a scratch register into `t6`. -/
def addressLine (rs1 scratch : Text) : Text :=
  "add t6, ".toList ++ rs1 ++ ", ".toList ++ scratch

/-- The line `addi rd, rs, 0`. -/
def moveLine (rd rs : Text) : Text := "addi ".toList ++ rd ++ ", ".toList ++ rs ++ ", 0".toList

/-- `MemoryBlockBuilder::EmitLoad`. -/
def emitLoad (rd rs1 : Text) (imm : BitVec 32) : EngineM G Unit := do
  let scratch := if rs1 = "t6".toList then "t1" else "t6"
  emitConstant scratch imm
  emitInstructionFormat (addressLine rs1 scratch.toList)
  emitDynamicMask 4
  emitInstructionFormat ("lw ".toList ++ rd ++ ", 0(t6)".toList)

/-- `MemoryBlockBuilder::EmitStore`.  Unlike the load it emits the `addi` of the offset even when
the lower part is zero. -/
def emitStore (rs2 rs1 : Text) (imm : BitVec 32) : EngineM G Unit := do
  let scratch :=
    if rs1 = "t1".toList ∨ rs2 = "t1".toList then
      if rs1 = "t2".toList ∨ rs2 = "t2".toList then "t3" else "t2"
    else "t1"
  emitInstructionFormat
    ("lui ".toList ++ scratch.toList ++ ", 0x".toList ++ hex (upperPart imm).toNat)
  emitInstructionFormat ("addi ".toList ++ scratch.toList ++ ", ".toList ++ scratch.toList ++
    ", ".toList ++ signed (lowerPart imm))
  emitInstructionFormat (addressLine rs1 scratch.toList)
  emitInstructionFormat (moveLine "t4".toList rs2)
  emitDynamicMask 4
  emitInstructionFormat "sw t4, 0(t6)".toList

/-- `MemoryBlockBuilder::EmitVectorLoadStrided`. -/
def emitVectorLoadStrided (vd rs1 rs2 : Text) : EngineM G Unit := do
  emitInstructionFormat ("andi t4, ".toList ++ rs2 ++ ", 0x7".toList)
  emitInstructionFormat (moveLine "t6".toList rs1)
  emitDynamicMask 2048
  let tracker ← vectorState
  let emul ← calculateEmul tracker.sew tracker.lmul 32
  let alignedVd ← alignVectorReg vd emul
  emitInstructionFormat ("vlse32.v ".toList ++ alignedVd ++ ", (t6), t4".toList)

/-- The register the masked indices of an indexed load go to: the first of the candidates that is
neither the destination nor the index register, or the last of them. -/
def chooseTempVs2 (alignedVd alignedVs2 : Text) (emul : VectorLmul) :
    Text → List Text → EngineM G Text
  | candidate, [] => alignVectorReg candidate emul
  | candidate, next :: candidates => do
      let tempVs2 ← alignVectorReg candidate emul
      if tempVs2 = alignedVd ∨ tempVs2 = alignedVs2 then
        chooseTempVs2 alignedVd alignedVs2 emul next candidates
      else
        return tempVs2

/-- `MemoryBlockBuilder::EmitVectorLoadIndexed`. -/
def emitVectorLoadIndexed (vd rs1 vs2 : Text) : EngineM G Unit := do
  let tracker ← vectorState
  let emul ← calculateEmul tracker.sew tracker.lmul 32
  let alignedVd ← alignVectorReg vd (← vectorState).lmul
  let alignedVs2 ← alignVectorReg vs2 emul
  let tempVs2 ← chooseTempVs2 alignedVd alignedVs2 emul "v31".toList ["v15".toList, "v23".toList]
  let scratch := if rs1 = "t1".toList then "t4" else "t1"
  emitInstructionFormat ("addi ".toList ++ scratch.toList ++ ", zero, 0xFF".toList)
  emitInstructionFormat ("vand.vx ".toList ++ tempVs2 ++ ", ".toList ++ alignedVs2 ++ ", ".toList ++
    scratch.toList)
  emitInstructionFormat (moveLine "t6".toList rs1)
  emitDynamicMask 0x400
  emitInstructionFormat ("vloxei32.v ".toList ++ alignedVd ++ ", (t6), ".toList ++ tempVs2)

/-! ### Hazard generators -/

/-- The name of a vector register. -/
def vectorRegister (n : ℕ) : Text := 'v' :: decimal n

/-- `GenerateDataHazard`. -/
def generateDataHazard : EngineM G Unit := do
  let regWrite := (← draw).toNat % 31 + 1
  let regRead1 := (← draw).toNat % 31 + 1
  let regRead2 := (← draw).toNat % 31 + 1
  let dest := (← draw).toNat % 31 + 1
  let dist := (← draw).toNat % 5
  let ta := (← draw).toNat % 2 == 0
  let ma := (← draw).toNat % 2 == 0
  let masked := (← draw).toNat % 2 == 0
  emitVsetvli "t2".toList "zero".toList .e8 .m1 ta ma
  emitVadd (vectorRegister regWrite) (vectorRegister regRead1) (vectorRegister regRead2) masked
  emitInstructions (List.replicate dist "addi x0, x0, 0")
  emitVsub (vectorRegister dest) (vectorRegister regWrite) (vectorRegister regRead1) masked

/-- `GenerateControlHazard`. -/
def generateControlHazard : EngineM G Unit := do
  let dist := (← draw).toNat % 4 + 1
  emitInstructions ["addi t0, zero, 2", "addi t1, zero, 0"]
  let beqPc ← currentPc
  emitInstructionFormat ("beq t0, t1, 0x".toList ++ hex (beqPc + dist * 4 + 12))
  emitInstructions (List.replicate dist "addi x0, x0, 0")
  emitInstruction "addi t0, t0, -1".toList
  emitInstructionFormat ("bne t0, t1, 0x".toList ++ hex beqPc)

/-- `GenerateStructuralHazard`. -/
def generateStructuralHazard : EngineM G Unit := do
  let iters := (← draw).toNat % 3 + 2
  emitVsetvli "t2".toList "zero".toList .e32 .m8 true true
  let baseReg := (← draw).toNat % 4 * 8
  let vs2 := (baseReg + 8) % 32
  let vs1 := (baseReg + 16) % 32
  let vs2Div := (baseReg + 24) % 32
  (List.range iters).forM fun _ =>
    emitVmul (vectorRegister baseReg) (vectorRegister vs2) (vectorRegister vs1) false
  emitVdiv (vectorRegister vs2) (vectorRegister vs2Div) (vectorRegister baseReg) false

/-- `GenerateEdgeCaseOperands`. -/
def generateEdgeCaseOperands : EngineM G Unit := do
  emitInstructions ["addi t0, zero, -1", "lui t2, 0x80000", "div t4, t2, t0"]
  emitInstructionFormat ("lui t5, 0x".toList ++ hex (kDefaultRwRegionStart >>> 12))
  emitLoad "t6".toList "t5".toList 25
  emitInstructions ["addi t1, zero, 0", "div t4, t2, t1"]

/-! ### Calls and clients -/

/-- A call of the engine's interface, or of one of its builders.  An opcode stands under its
name. -/
inductive EngineCall where
  | emitPreamble
  | emitInstruction (inst : Text)
  | emitInstructionFormat (inst : Text)
  | emitVsetvli (rd rs1 : Text) (sew : VectorSew) (lmul : VectorLmul)
      (tailAgnostic maskAgnostic : Bool)
  | emitVsetivli (rd : Text) (uimm : BitVec 32) (sew : VectorSew) (lmul : VectorLmul)
      (tailAgnostic maskAgnostic : Bool)
  | emitEbreak
  | emitMpause
  | emitIllegalInstruction
  | emitDataHazard (name1 name2 : Text)
  | emitFpPoisonPills
  | emitVtype (sew lmul : ℤ) (vl : BitVec 32)
  | setExpectedTrap (mcause mepc mtval : BitVec 64)
  | reset
  | setSeed (seed : BitVec 64)
  | emitCoverpoint (name : Text)
  | emitSafePointerInit (regs : List Text)
  | addHazardTag (tag : Text)
  | setupTrapHandler (trapAddr : BitVec 32)
  | currentPc
  | draw
  | vectorState
  | strictSandboxing
  | setStrictSandboxing (strict : Bool)
  | emitVadd (vd vs2 vs1 : Text) (masked : Bool)
  | emitVmul (vd vs2 vs1 : Text) (masked : Bool)
  | emitVsub (vd vs2 vs1 : Text) (masked : Bool)
  | emitVdiv (vd vs2 vs1 : Text) (masked : Bool)
  | emitLoad (rd rs1 : Text) (imm : BitVec 32)
  | emitStore (rs2 rs1 : Text) (imm : BitVec 32)
  | emitVectorLoadStrided (vd rs1 rs2 : Text)
  | emitVectorLoadIndexed (vd rs1 vs2 : Text)

/-- What a call returns to its client. -/
inductive Response where
  | nothing
  | number (value : BitVec 64)
  | address (pc : ℕ)
  | tracker (vectorState : VectorStateTracker)
  | flag (value : Bool)

/-- A call on the engine. -/
def EngineCall.run : EngineCall → EngineM G Response
  | emitPreamble => do CoralNpu.emitPreamble; pure .nothing
  | emitInstruction inst => do CoralNpu.emitInstruction inst; pure .nothing
  | emitInstructionFormat inst => do CoralNpu.emitInstructionFormat inst; pure .nothing
  | emitVsetvli rd rs1 sew lmul ta ma => do
      CoralNpu.emitVsetvli rd rs1 sew lmul ta ma; pure .nothing
  | emitVsetivli rd uimm sew lmul ta ma => do
      CoralNpu.emitVsetivli rd uimm sew lmul ta ma; pure .nothing
  | emitEbreak => do CoralNpu.emitEbreak; pure .nothing
  | emitMpause => do CoralNpu.emitMpause; pure .nothing
  | emitIllegalInstruction => do CoralNpu.emitIllegalInstruction; pure .nothing
  | emitDataHazard name1 name2 => do CoralNpu.emitDataHazard name1 name2; pure .nothing
  | emitFpPoisonPills => do CoralNpu.emitFpPoisonPills; pure .nothing
  | emitVtype sew lmul vl => do CoralNpu.emitVtype sew lmul vl; pure .nothing
  | setExpectedTrap mcause mepc mtval => do
      CoralNpu.setExpectedTrap mcause mepc mtval; pure .nothing
  | reset => do CoralNpu.reset; pure .nothing
  | setSeed seed => do CoralNpu.setSeed seed; pure .nothing
  | emitCoverpoint name => do CoralNpu.emitCoverpoint name; pure .nothing
  | emitSafePointerInit regs => do CoralNpu.emitSafePointerInit regs; pure .nothing
  | addHazardTag tag => do CoralNpu.addHazardTag tag; pure .nothing
  | setupTrapHandler trapAddr => do CoralNpu.setupTrapHandler trapAddr; pure .nothing
  | currentPc => do return .address (← CoralNpu.currentPc)
  | draw => do return .number (← CoralNpu.draw)
  | vectorState => do return .tracker (← CoralNpu.vectorState)
  | strictSandboxing => do return .flag (← CoralNpu.strictSandboxing)
  | setStrictSandboxing strict => do CoralNpu.setStrictSandboxing strict; pure .nothing
  | emitVadd vd vs2 vs1 masked => do CoralNpu.emitVadd vd vs2 vs1 masked; pure .nothing
  | emitVmul vd vs2 vs1 masked => do CoralNpu.emitVmul vd vs2 vs1 masked; pure .nothing
  | emitVsub vd vs2 vs1 masked => do CoralNpu.emitVsub vd vs2 vs1 masked; pure .nothing
  | emitVdiv vd vs2 vs1 masked => do CoralNpu.emitVdiv vd vs2 vs1 masked; pure .nothing
  | emitLoad rd rs1 imm => do CoralNpu.emitLoad rd rs1 imm; pure .nothing
  | emitStore rs2 rs1 imm => do CoralNpu.emitStore rs2 rs1 imm; pure .nothing
  | emitVectorLoadStrided vd rs1 rs2 => do
      CoralNpu.emitVectorLoadStrided vd rs1 rs2; pure .nothing
  | emitVectorLoadIndexed vd rs1 vs2 => do
      CoralNpu.emitVectorLoadIndexed vd rs1 vs2; pure .nothing

/-- A client: it makes calls, and what it does next may depend on what they return. -/
inductive Client where
  | done
  | call (c : EngineCall) (next : Response → Client)

/-- A client on the engine. -/
def Client.run : Client → EngineM G Unit
  | done => pure ()
  | call c next => do
      let response ← c.run
      (next response).run

end CoralNpu
