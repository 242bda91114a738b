/-
**RV32 assembly lines.**

Main definitions:

* `Rv32.regOf` — a register by its number or by its name;
* `Rv32.instructionOf` — the instruction a line stands for;
* `Rv32.runText` — execution of some lines.

Main results:

* `Rv32.unsignedOf_hex`, `Rv32.signedOf_signed` — a printed number is read back.
-/

import CoralNpu.Rv32
import CoralNpu.AsciiText

set_option relaxedAutoImplicit false
set_option autoImplicit false

namespace Rv32

open AsciiText

/-! ### Registers and numbers -/

/-- The names of the registers, in order. -/
def abiNames : List String :=
  ["zero", "ra", "sp", "gp", "tp", "t0", "t1", "t2", "s0", "s1", "a0", "a1", "a2", "a3", "a4", "a5",
   "a6", "a7", "s2", "s3", "s4", "s5", "s6", "s7", "s8", "s9", "s10", "s11", "t3", "t4", "t5", "t6"]

/-- A register number. -/
def regOfNumber (n : ℕ) : Option Reg := if h : n < 32 then some ⟨n, h⟩ else none

/-- The register with a name: an ABI name, `fp`, or `x` and a number. -/
def regOf (text : Text) : Option Reg :=
  (abiNames.findIdx? (fun name => name.toList == text)).bind regOfNumber <|>
    match text with
    | ['f', 'p'] => regOfNumber 8
    | 'x' :: number => (parseNat number).bind regOfNumber
    | _ => none

/-- A number that fits `w` bits with a sign. -/
def signedOf (w : ℕ) (text : Text) : Option (BitVec w) :=
  (parseInt text).bind fun z =>
    if -(2 ^ (w - 1) : ℤ) ≤ z ∧ z < 2 ^ (w - 1) then some (BitVec.ofInt w z) else none

/-- A number that fits `w` bits without a sign. -/
def unsignedOf (w : ℕ) (text : Text) : Option (BitVec w) :=
  (parseInt text).bind fun z =>
    if 0 ≤ z ∧ z < 2 ^ w then some (BitVec.ofInt w z) else none

theorem unsignedOf_hex {w n : ℕ} (h : n < 2 ^ w) :
    unsignedOf w ('0' :: 'x' :: hex n) = some (BitVec.ofNat w n) := by
  have hlt : (n : ℤ) < 2 ^ w := by exact_mod_cast h
  rw [unsignedOf, parseInt_hex, Option.bind_some, if_pos ⟨Int.natCast_nonneg n, hlt⟩,
    BitVec.ofInt_natCast]

theorem signedOf_signed {w : ℕ} {z : ℤ} (h : -(2 ^ (w - 1) : ℤ) ≤ z) (h' : z < 2 ^ (w - 1)) :
    signedOf w (signed z) = some (BitVec.ofInt w z) := by
  rw [signedOf, parseInt_signed, Option.bind_some, if_pos ⟨h, h'⟩]

/-! ### Lines -/

/-- The name of an operation. -/
def ImmOp.toText : ImmOp → Text
  | addi => "addi".toList
  | andi => "andi".toList
  | sltiu => "sltiu".toList

/-- The name of a shift. -/
def ShiftOp.toText : ShiftOp → Text
  | slli => "slli".toList
  | srli => "srli".toList

/-- The name of an operation on two registers. -/
def RegOp.toText : RegOp → Text
  | add => "add".toList
  | sub => "sub".toList
  | and => "and".toList
  | or => "or".toList
  | remu => "remu".toList

def immOpOf (text : Text) : Option ImmOp :=
  [ImmOp.addi, .andi, .sltiu].find? fun op => op.toText == text

def shiftOpOf (text : Text) : Option ShiftOp :=
  [ShiftOp.slli, .srli].find? fun op => op.toText == text

def regOpOf (text : Text) : Option RegOp :=
  [RegOp.add, .sub, .and, .or, .remu].find? fun op => op.toText == text

/-- An instruction with a mnemonic and three operands. -/
def threeOperands (mnemonic a b c : Text) : Option Instruction :=
  match immOpOf mnemonic, shiftOpOf mnemonic, regOpOf mnemonic with
  | some op, _, _ => do return .opImm op (← regOf a) (← regOf b) (← signedOf 12 c)
  | _, some op, _ => do return .shift op (← regOf a) (← regOf b) (← unsignedOf 5 c)
  | _, _, some op => do return .op op (← regOf a) (← regOf b) (← regOf c)
  | none, none, none =>
      if mnemonic = "lw".toList then do return .lw (← regOf a) (← regOf c) (← signedOf 12 b)
      else if mnemonic = "sw".toList then do return .sw (← regOf a) (← regOf c) (← signedOf 12 b)
      else none

/-- The instruction a line stands for. -/
def instructionOf (line : Text) : Option Instruction :=
  match tokens line with
  | [mnemonic, rd, imm] =>
      if mnemonic = "lui".toList then do return .lui (← regOf rd) (← unsignedOf 20 imm) else none
  | [mnemonic, a, b, c] => threeOperands mnemonic a b c
  | _ => none

/-- The instructions some lines stand for. -/
def instructionsOf (lines : List Text) : Option (List Instruction) := lines.mapM instructionOf

/-- Execution of some lines; `none` when a line is no instruction, or traps. -/
def runText (ram : BitVec 32 → Bool) (lines : List Text) (s : Hart) : Option Hart :=
  (instructionsOf lines).bind fun is => run ram is s

example : instructionOf "addi sp, sp, -16".toList = some (.opImm .addi 2 2 (-16)) := by decide
example : instructionOf "sw t5, 12(sp)".toList = some (.sw 30 2 12) := by decide

end Rv32
