/-
**The base instruction group.**

The fields of the instruction formats, and the patterns of the group without vectors.

Main definitions:

* `CoralNpu.BaseOpcode` — the opcodes of the group;
* `CoralNpu.coralNpuInst` — `CoralNPUInst`.
-/

import CoralNpu.BinFmt

set_option relaxedAutoImplicit false
set_option autoImplicit false

namespace CoralNpu

open BinFmt

/-! ### Formats -/

-- The fields of any format of an instruction without vectors.
def Inst32Format.bits : Field := ⟨7, 25⟩
def Inst32Format.opcode : Field := ⟨0, 7⟩

-- Risc-V R-Type format.
def RType.func7 : Field := ⟨25, 7⟩
def RType.rs2 : Field := ⟨20, 5⟩
def RType.rs1 : Field := ⟨15, 5⟩
def RType.func3 : Field := ⟨12, 3⟩
def RType.rd : Field := ⟨7, 5⟩
def RType.opcode : Field := ⟨0, 7⟩

-- Risc-V I-Type format.
def IType.imm12 : Field := ⟨20, 12⟩
def IType.rs1 : Field := ⟨15, 5⟩
def IType.func3 : Field := ⟨12, 3⟩
def IType.rd : Field := ⟨7, 5⟩
def IType.opcode : Field := ⟨0, 7⟩

-- Risc-V S-Type format.
def SType.func3 : Field := ⟨12, 3⟩
def SType.opcode : Field := ⟨0, 7⟩

-- Risc-V B-Type format.
def BType.func3 : Field := ⟨12, 3⟩
def BType.opcode : Field := ⟨0, 7⟩

-- Risc-V U-Type format.
def UType.opcode : Field := ⟨0, 7⟩

-- Risc-V J-Type format.
def JType.imm20 : Field := ⟨12, 20⟩
def JType.rd : Field := ⟨7, 5⟩
def JType.opcode : Field := ⟨0, 7⟩

-- Risc-V Fence format.
def Fence.func3 : Field := ⟨12, 3⟩
def Fence.opcode : Field := ⟨0, 7⟩

-- CoralNPU system instruction format (cache, getvl).
def CoralNPUSystemType.func2 : Field := ⟨28, 4⟩
def CoralNPUSystemType.m : Field := ⟨27, 1⟩
def CoralNPUSystemType.mode : Field := ⟨25, 2⟩
def CoralNPUSystemType.rs2 : Field := ⟨20, 5⟩
def CoralNPUSystemType.rs1 : Field := ⟨15, 5⟩
def CoralNPUSystemType.func1 : Field := ⟨12, 3⟩
def CoralNPUSystemType.rd : Field := ⟨7, 5⟩
def CoralNPUSystemType.opcode : Field := ⟨0, 7⟩

/-! ### The group -/

/-- The opcodes of the base group. -/
inductive BaseOpcode where
  | lui | auipc | jal | j | jalr | jr | ret | beq | bne | blt | bge | bltu | bgeu | lb | lh | li
  | lw | lbu | lhu | mv | nop | sb | sh | sw | addi | slti | sltiu | xori | ori | andi | slli
  | srli | srai | add | sub | sll | slt | sltu | xor | srl | sra | or | and | fence | ecall
  | ebreak | fencei | mul | mulh | mulhsu | mulhu | div | divu | rem | remu | csrrw | csrrs
  | csrrc | csrrsNr | csrrcNr | csrrwNr | csrrsNw | csrrcNw | csrrwi | csrrsi | csrrci | csrrsiNr
  | csrrciNr | csrrwiNr | csrrsiNw | csrrciNw | uret | sret | mret | wfi | mpause | sfenceVmaZz
  | sfenceVmaZn | sfenceVmaNz | sfenceVmaNn | flushall | flushat | getmaxvlB | getmaxvlH
  | getmaxvlW | getvlBX | getvlHX | getvlWX | getvlBXx | getvlHXx | getvlWXx | getmaxvlBM
  | getmaxvlHM | getmaxvlWM | getvlBXM | getvlHXM | getvlWXM | getvlBXxM | getvlHXxM | getvlWXxM
  | flog | slog | clog | klog
  deriving DecidableEq

/-- The instructions for the vector length, which differ in mask, mode and sources. -/
def getvlInst (op : BaseOpcode) (m mode : ℕ) (rs2 rs1 : Constraint) : Pattern BaseOpcode :=
  ⟨op, [.eq CoralNPUSystemType.func2 0b0001, .eq CoralNPUSystemType.m m,
    .eq CoralNPUSystemType.mode mode, rs2, rs1, .eq CoralNPUSystemType.func1 0,
    .ne CoralNPUSystemType.rd 0, .eq CoralNPUSystemType.opcode 0b111_0111]⟩

/-- The log instructions. -/
def logInst (op : BaseOpcode) (func1 : ℕ) : Pattern BaseOpcode :=
  ⟨op, [.eq CoralNPUSystemType.func2 0b0111, .eq CoralNPUSystemType.m 1,
    .eq CoralNPUSystemType.mode 0, .eq CoralNPUSystemType.rs2 0, .ne CoralNPUSystemType.rs1 0,
    .eq CoralNPUSystemType.func1 func1, .eq CoralNPUSystemType.rd 0,
    .eq CoralNPUSystemType.opcode 0b111_0111]⟩

/-- `CoralNPUInst`. -/
def coralNpuInst : List (Pattern BaseOpcode) := [
  ⟨.lui, [.eq UType.opcode 0b011_0111]⟩,
  ⟨.auipc, [.eq UType.opcode 0b001_0111]⟩,
  ⟨.jal, [.ne JType.rd 0, .eq JType.opcode 0b110_1111]⟩,
  ⟨.j, [.eq JType.rd 0, .eq JType.opcode 0b110_1111]⟩,
  ⟨.jalr, [.ne IType.rd 0, .eq IType.func3 0b000, .eq IType.opcode 0b110_0111]⟩,
  ⟨.jr, [.eq IType.rd 0, .ne IType.rs1 1, .eq IType.func3 0b000, .eq IType.opcode 0b110_0111]⟩,
  ⟨.ret, [.eq IType.rd 0, .eq IType.rs1 1, .eq IType.imm12 0, .eq IType.func3 0b000,
      .eq IType.opcode 0b110_0111]⟩,
  ⟨.beq, [.eq BType.func3 0b000, .eq BType.opcode 0b110_0011]⟩,
  ⟨.bne, [.eq BType.func3 0b001, .eq BType.opcode 0b110_0011]⟩,
  ⟨.blt, [.eq BType.func3 0b100, .eq BType.opcode 0b110_0011]⟩,
  ⟨.bge, [.eq BType.func3 0b101, .eq BType.opcode 0b110_0011]⟩,
  ⟨.bltu, [.eq BType.func3 0b110, .eq BType.opcode 0b110_0011]⟩,
  ⟨.bgeu, [.eq BType.func3 0b111, .eq BType.opcode 0b110_0011]⟩,
  ⟨.lb, [.eq BType.func3 0b000, .eq BType.opcode 0b000_0011]⟩,
  ⟨.lh, [.eq BType.func3 0b001, .eq BType.opcode 0b000_0011]⟩,
  ⟨.li, [.ne IType.rd 0, .eq IType.rs1 0, .eq IType.func3 0b000, .eq IType.opcode 0b001_0011]⟩,
  ⟨.lw, [.eq BType.func3 0b010, .eq BType.opcode 0b000_0011]⟩,
  ⟨.lbu, [.eq BType.func3 0b100, .eq BType.opcode 0b000_0011]⟩,
  ⟨.lhu, [.eq BType.func3 0b101, .eq BType.opcode 0b000_0011]⟩,
  ⟨.mv, [.ne IType.rs1 0, .eq IType.imm12 0, .eq IType.func3 0b000, .eq IType.opcode 0b001_0011]⟩,
  ⟨.nop, [.eq IType.rd 0, .eq IType.rs1 0, .eq IType.imm12 0, .eq IType.func3 0b000,
      .eq IType.opcode 0b001_0011]⟩,
  ⟨.sb, [.eq SType.func3 0b000, .eq SType.opcode 0b010_0011]⟩,
  ⟨.sh, [.eq SType.func3 0b001, .eq SType.opcode 0b010_0011]⟩,
  ⟨.sw, [.eq SType.func3 0b010, .eq SType.opcode 0b010_0011]⟩,
  ⟨.addi, [.ne IType.rs1 0, .ne IType.imm12 0, .eq IType.func3 0b000, .eq IType.opcode 0b001_0011]⟩,
  ⟨.slti, [.eq IType.func3 0b010, .eq IType.opcode 0b001_0011]⟩,
  ⟨.sltiu, [.eq IType.func3 0b011, .eq IType.opcode 0b001_0011]⟩,
  ⟨.xori, [.eq IType.func3 0b100, .eq IType.opcode 0b001_0011]⟩,
  ⟨.ori, [.eq IType.func3 0b110, .eq IType.opcode 0b001_0011]⟩,
  ⟨.andi, [.eq IType.func3 0b111, .eq IType.opcode 0b001_0011]⟩,
  ⟨.slli, [.eq RType.func7 0b000_0000, .eq RType.func3 0b001, .eq RType.opcode 0b001_0011]⟩,
  ⟨.srli, [.eq RType.func7 0b000_0000, .eq RType.func3 0b101, .eq RType.opcode 0b001_0011]⟩,
  ⟨.srai, [.eq RType.func7 0b010_0000, .eq RType.func3 0b101, .eq RType.opcode 0b001_0011]⟩,
  ⟨.add, [.eq RType.func7 0b000_0000, .eq RType.func3 0b000, .eq RType.opcode 0b011_0011]⟩,
  ⟨.sub, [.eq RType.func7 0b010_0000, .eq RType.func3 0b000, .eq RType.opcode 0b011_0011]⟩,
  ⟨.sll, [.eq RType.func7 0b000_0000, .eq RType.func3 0b001, .eq RType.opcode 0b011_0011]⟩,
  ⟨.slt, [.eq RType.func7 0b000_0000, .eq RType.func3 0b010, .eq RType.opcode 0b011_0011]⟩,
  ⟨.sltu, [.eq RType.func7 0b000_0000, .eq RType.func3 0b011, .eq RType.opcode 0b011_0011]⟩,
  ⟨.xor, [.eq RType.func7 0b000_0000, .eq RType.func3 0b100, .eq RType.opcode 0b011_0011]⟩,
  ⟨.srl, [.eq RType.func7 0b000_0000, .eq RType.func3 0b101, .eq RType.opcode 0b011_0011]⟩,
  ⟨.sra, [.eq RType.func7 0b010_0000, .eq RType.func3 0b101, .eq RType.opcode 0b011_0011]⟩,
  ⟨.or, [.eq RType.func7 0b000_0000, .eq RType.func3 0b110, .eq RType.opcode 0b011_0011]⟩,
  ⟨.and, [.eq RType.func7 0b000_0000, .eq RType.func3 0b111, .eq RType.opcode 0b011_0011]⟩,
  ⟨.fence, [.eq Fence.func3 0b000, .eq Fence.opcode 0b000_1111]⟩,
  ⟨.ecall, [.eq Inst32Format.bits 0b0000_0000_0000_00000_000_00000,
      .eq Inst32Format.opcode 0b111_0011]⟩,
  ⟨.ebreak, [.eq Inst32Format.bits 0b0000_0000_0001_00000_000_00000,
      .eq Inst32Format.opcode 0b111_0011]⟩,
  ⟨.fencei, [.eq IType.func3 1, .eq IType.opcode 0b000_1111]⟩,
  ⟨.mul, [.eq RType.func7 0b000_0001, .eq RType.func3 0b000, .eq RType.opcode 0b011_0011]⟩,
  ⟨.mulh, [.eq RType.func7 0b000_0001, .eq RType.func3 0b001, .eq RType.opcode 0b011_0011]⟩,
  ⟨.mulhsu, [.eq RType.func7 0b000_0001, .eq RType.func3 0b010, .eq RType.opcode 0b011_0011]⟩,
  ⟨.mulhu, [.eq RType.func7 0b000_0001, .eq RType.func3 0b011, .eq RType.opcode 0b011_0011]⟩,
  ⟨.div, [.eq RType.func7 0b000_0001, .eq RType.func3 0b100, .eq RType.opcode 0b011_0011]⟩,
  ⟨.divu, [.eq RType.func7 0b000_0001, .eq RType.func3 0b101, .eq RType.opcode 0b011_0011]⟩,
  ⟨.rem, [.eq RType.func7 0b000_0001, .eq RType.func3 0b110, .eq RType.opcode 0b011_0011]⟩,
  ⟨.remu, [.eq RType.func7 0b000_0001, .eq RType.func3 0b111, .eq RType.opcode 0b011_0011]⟩,
  ⟨.csrrw, [.eq IType.func3 0b001, .ne IType.rd 0, .eq IType.opcode 0b111_0011]⟩,
  ⟨.csrrs, [.eq IType.func3 0b010, .ne IType.rs1 0, .ne IType.rd 0, .eq IType.opcode 0b111_0011]⟩,
  ⟨.csrrc, [.eq IType.func3 0b011, .ne IType.rs1 0, .ne IType.rd 0, .eq IType.opcode 0b111_0011]⟩,
  ⟨.csrrsNr, [.eq IType.func3 0b010, .ne IType.rs1 0, .eq IType.rd 0, .eq IType.opcode 0b111_0011]⟩,
  ⟨.csrrcNr, [.eq IType.func3 0b011, .ne IType.rs1 0, .eq IType.rd 0, .eq IType.opcode 0b111_0011]⟩,
  ⟨.csrrwNr, [.eq IType.func3 0b001, .eq IType.rd 0, .eq IType.opcode 0b111_0011]⟩,
  ⟨.csrrsNw, [.eq IType.func3 0b010, .eq IType.rs1 0, .eq IType.opcode 0b111_0011]⟩,
  ⟨.csrrcNw, [.eq IType.func3 0b011, .eq IType.rs1 0, .eq IType.opcode 0b111_0011]⟩,
  ⟨.csrrwi, [.eq IType.func3 0b101, .ne IType.rd 0, .eq IType.opcode 0b111_0011]⟩,
  ⟨.csrrsi, [.eq IType.func3 0b110, .ne IType.rs1 0, .ne IType.rd 0, .eq IType.opcode 0b111_0011]⟩,
  ⟨.csrrci, [.eq IType.func3 0b111, .ne IType.rs1 0, .ne IType.rd 0, .eq IType.opcode 0b111_0011]⟩,
  ⟨.csrrsiNr, [.eq IType.func3 0b110, .ne IType.rs1 0, .eq IType.rd 0,
      .eq IType.opcode 0b111_0011]⟩,
  ⟨.csrrciNr, [.eq IType.func3 0b111, .ne IType.rs1 0, .eq IType.rd 0,
      .eq IType.opcode 0b111_0011]⟩,
  ⟨.csrrwiNr, [.eq IType.func3 0b101, .eq IType.rd 0, .eq IType.opcode 0b111_0011]⟩,
  ⟨.csrrsiNw, [.eq IType.func3 0b110, .eq IType.rs1 0, .eq IType.opcode 0b111_0011]⟩,
  ⟨.csrrciNw, [.eq IType.func3 0b111, .eq IType.rs1 0, .eq IType.opcode 0b111_0011]⟩,
  ⟨.uret, [.eq Inst32Format.bits 0b000_0000_00010_00000_000_00000,
      .eq Inst32Format.opcode 0b111_0011]⟩,
  ⟨.sret, [.eq Inst32Format.bits 0b000_1000_00010_00000_000_00000,
      .eq Inst32Format.opcode 0b111_0011]⟩,
  ⟨.mret, [.eq Inst32Format.bits 0b001_1000_00010_00000_000_00000,
      .eq Inst32Format.opcode 0b111_0011]⟩,
  ⟨.wfi, [.eq Inst32Format.bits 0b000_1000_00101_00000_000_00000,
      .eq Inst32Format.opcode 0b111_0011]⟩,
  ⟨.mpause, [.eq Inst32Format.bits 0b000_0100_00000_00000_000_00000,
      .eq Inst32Format.opcode 0b111_0011]⟩,
  ⟨.sfenceVmaZz, [.eq RType.func7 0b000_1001, .eq RType.rs2 0, .eq RType.rs1 0, .eq RType.func3 0,
      .eq RType.rd 0, .eq RType.opcode 0b111_0011]⟩,
  ⟨.sfenceVmaZn, [.eq RType.func7 0b000_1001, .ne RType.rs2 0, .eq RType.rs1 0, .eq RType.func3 0,
      .eq RType.rd 0, .eq RType.opcode 0b111_0011]⟩,
  ⟨.sfenceVmaNz, [.eq RType.func7 0b000_1001, .eq RType.rs2 0, .ne RType.rs1 0, .eq RType.func3 0,
      .eq RType.rd 0, .eq RType.opcode 0b111_0011]⟩,
  ⟨.sfenceVmaNn, [.eq RType.func7 0b000_1001, .ne RType.rs2 0, .ne RType.rs1 0, .eq RType.func3 0,
      .eq RType.rd 0, .eq RType.opcode 0b111_0011]⟩,
  ⟨.flushall, [.eq Inst32Format.bits 0b001_0011_00000_00000_000_00000,
      .eq Inst32Format.opcode 0b111_0111]⟩,
  ⟨.flushat, [.eq RType.func7 0b001_0011, .eq RType.rs2 0, .ne RType.rs1 0, .eq RType.func3 0,
      .eq RType.rd 0, .eq RType.opcode 0b111_0111]⟩,
  getvlInst .getmaxvlB 0 0b00 (.eq CoralNPUSystemType.rs2 0) (.eq CoralNPUSystemType.rs1 0),
  getvlInst .getmaxvlH 0 0b01 (.eq CoralNPUSystemType.rs2 0) (.eq CoralNPUSystemType.rs1 0),
  getvlInst .getmaxvlW 0 0b10 (.eq CoralNPUSystemType.rs2 0) (.eq CoralNPUSystemType.rs1 0),
  getvlInst .getvlBX 0 0b00 (.eq CoralNPUSystemType.rs2 0) (.ne CoralNPUSystemType.rs1 0),
  getvlInst .getvlHX 0 0b01 (.eq CoralNPUSystemType.rs2 0) (.ne CoralNPUSystemType.rs1 0),
  getvlInst .getvlWX 0 0b10 (.eq CoralNPUSystemType.rs2 0) (.ne CoralNPUSystemType.rs1 0),
  getvlInst .getvlBXx 0 0b00 (.ne CoralNPUSystemType.rs2 0) (.ne CoralNPUSystemType.rs1 0),
  getvlInst .getvlHXx 0 0b01 (.ne CoralNPUSystemType.rs2 0) (.ne CoralNPUSystemType.rs1 0),
  getvlInst .getvlWXx 0 0b10 (.ne CoralNPUSystemType.rs2 0) (.ne CoralNPUSystemType.rs1 0),
  getvlInst .getmaxvlBM 1 0b00 (.eq CoralNPUSystemType.rs2 0) (.eq CoralNPUSystemType.rs1 0),
  getvlInst .getmaxvlHM 1 0b01 (.eq CoralNPUSystemType.rs2 0) (.eq CoralNPUSystemType.rs1 0),
  getvlInst .getmaxvlWM 1 0b10 (.eq CoralNPUSystemType.rs2 0) (.eq CoralNPUSystemType.rs1 0),
  getvlInst .getvlBXM 1 0b00 (.eq CoralNPUSystemType.rs2 0) (.ne CoralNPUSystemType.rs1 0),
  getvlInst .getvlHXM 1 0b01 (.eq CoralNPUSystemType.rs2 0) (.ne CoralNPUSystemType.rs1 0),
  getvlInst .getvlWXM 1 0b10 (.eq CoralNPUSystemType.rs2 0) (.ne CoralNPUSystemType.rs1 0),
  getvlInst .getvlBXxM 1 0b00 (.ne CoralNPUSystemType.rs2 0) (.ne CoralNPUSystemType.rs1 0),
  getvlInst .getvlHXxM 1 0b01 (.ne CoralNPUSystemType.rs2 0) (.ne CoralNPUSystemType.rs1 0),
  getvlInst .getvlWXxM 1 0b10 (.ne CoralNPUSystemType.rs2 0) (.ne CoralNPUSystemType.rs1 0),
  logInst .flog 0,
  logInst .slog 1,
  logInst .clog 2,
  logInst .klog 3]

end CoralNpu
