/-
**A part of RV32.**

The integer instructions of straight-line code: constants, arithmetic, and words in memory.  An
instruction takes the state of a hart to a new state, or traps when it touches memory that is no
RAM.

Main definitions:

* `Rv32.Instruction` — the instructions;
* `Rv32.Hart` — registers and memory;
* `Rv32.execute`, `Rv32.run` — one instruction, and several of them.

Main results:

* `Rv32.run_append` — code in two parts;
* `Rv32.run_of_isRegister`, `Rv32.get_afterAll` — **code that only computes** never traps, leaves
  the memory alone, and changes no register it does not name.
-/

import CoralNpu.WordMemory

set_option relaxedAutoImplicit false
set_option autoImplicit false

namespace Rv32

open WordMemory

/-- A register. -/
abbrev Reg := Fin 32

/-- Register numbers can be written as literals. -/
scoped instance instNeZeroReg : NeZero 32 := Nat.instNeZeroSucc

/-! ### Instructions -/

/-- The operations with a register and an immediate. -/
inductive ImmOp where
  | addi | andi | sltiu
  deriving DecidableEq

/-- The operations with a register and a shift amount. -/
inductive ShiftOp where
  | slli | srli
  deriving DecidableEq

/-- The operations with two registers. -/
inductive RegOp where
  | add | sub | and | or | remu
  deriving DecidableEq

/-- An instruction. -/
inductive Instruction where
  | lui (rd : Reg) (imm : BitVec 20)
  | opImm (op : ImmOp) (rd rs1 : Reg) (imm : BitVec 12)
  | shift (op : ShiftOp) (rd rs1 : Reg) (shamt : BitVec 5)
  | op (op : RegOp) (rd rs1 rs2 : Reg)
  | lw (rd rs1 : Reg) (offset : BitVec 12)
  | sw (rs2 rs1 : Reg) (offset : BitVec 12)
  deriving DecidableEq

/-- The result of an operation, on a sign-extended immediate. -/
def ImmOp.apply : ImmOp → BitVec 32 → BitVec 32 → BitVec 32
  | addi, a, imm => a + imm
  | andi, a, imm => a &&& imm
  | sltiu, a, imm => if a < imm then 1 else 0

/-- The result of a shift. -/
def ShiftOp.apply : ShiftOp → BitVec 32 → ℕ → BitVec 32
  | slli, a, n => a <<< n
  | srli, a, n => a >>> n

/-- The result of an operation on two registers.  The remainder by zero is the dividend. -/
def RegOp.apply : RegOp → BitVec 32 → BitVec 32 → BitVec 32
  | add, a, b => a + b
  | sub, a, b => a - b
  | and, a, b => a &&& b
  | or, a, b => a ||| b
  | remu, a, b => if b = 0 then a else a % b

/-! ### Registers -/

/-- The state of a hart. -/
structure Hart where
  x : Reg → BitVec 32
  memory : BitVec 32 → BitVec 8

namespace Hart

/-- The value of a register; register zero is zero. -/
def get (s : Hart) (r : Reg) : BitVec 32 := if r = 0 then 0 else s.x r

/-- The state with a value in a register. -/
def set (s : Hart) (rd : Reg) (value : BitVec 32) : Hart :=
  { s with x := fun r => if r = rd then value else s.x r }

@[simp] theorem get_zero (s : Hart) : s.get 0 = 0 := rfl

@[simp] theorem set_memory (s : Hart) (rd : Reg) (value : BitVec 32) :
    (s.set rd value).memory = s.memory := rfl

@[simp] theorem get_set (s : Hart) (rd r : Reg) (value : BitVec 32) :
    (s.set rd value).get r = if r = rd ∧ r ≠ 0 then value else s.get r := by
  by_cases hzero : r = 0
  · simp [get, hzero]
  · simp [get, set, hzero]

theorem get_set_of_ne (s : Hart) {rd r : Reg} (value : BitVec 32) (h : r ≠ rd) :
    (s.set rd value).get r = s.get r := by
  simp [h]

@[simp] theorem get_with_memory (s : Hart) (memory : BitVec 32 → BitVec 8) (r : Reg) :
    { s with memory := memory }.get r = s.get r := rfl

end Hart

/-! ### Execution -/

section Execution

-- the bytes that can be read and written
variable (ram : BitVec 32 → Bool)

/-- The word at an address is in RAM. -/
def WordInRam (a : BitVec 32) : Prop := ram a ∧ ram (a + 1) ∧ ram (a + 2) ∧ ram (a + 3)

instance (a : BitVec 32) : Decidable (WordInRam ram a) := inferInstanceAs (Decidable (_ ∧ _))

/-- One instruction; `none` when it traps. -/
def execute : Instruction → Hart → Option Hart
  | .lui rd imm, s => some (s.set rd (imm.setWidth 32 <<< 12))
  | .opImm op rd rs1 imm, s => some (s.set rd (op.apply (s.get rs1) (imm.signExtend 32)))
  | .shift op rd rs1 shamt, s => some (s.set rd (op.apply (s.get rs1) shamt.toNat))
  | .op op rd rs1 rs2, s => some (s.set rd (op.apply (s.get rs1) (s.get rs2)))
  | .lw rd rs1 offset, s =>
      let a := s.get rs1 + offset.signExtend 32
      if WordInRam ram a then some (s.set rd (loadWord s.memory a)) else none
  | .sw rs2 rs1 offset, s =>
      let a := s.get rs1 + offset.signExtend 32
      if WordInRam ram a then some { s with memory := storeWord s.memory a (s.get rs2) } else none

/-- Several instructions. -/
def run : List Instruction → Hart → Option Hart
  | [], s => some s
  | i :: is, s => (execute ram i s).bind (run is)

theorem run_append (is js : List Instruction) (s : Hart) :
    run ram (is ++ js) s = (run ram is s).bind (run ram js) := by
  induction is generalizing s with
  | nil => rfl
  | cons i is ih =>
      rw [List.cons_append, run, run, Option.bind_assoc]
      exact congrArg _ (funext ih)

end Execution

/-! ### Code that only computes -/

/-- The instruction touches no memory. -/
def Instruction.isRegister : Instruction → Bool
  | lw _ _ _ | sw _ _ _ => false
  | _ => true

/-- The register an instruction writes. -/
def Instruction.rd? : Instruction → Option Reg
  | lui rd _ | opImm _ rd _ _ | shift _ rd _ _ | op _ rd _ _ | lw rd _ _ => some rd
  | sw _ _ _ => none

/-- The state after an instruction that touches no memory. -/
def Hart.after (s : Hart) : Instruction → Hart
  | .lui rd imm => s.set rd (imm.setWidth 32 <<< 12)
  | .opImm op rd rs1 imm => s.set rd (op.apply (s.get rs1) (imm.signExtend 32))
  | .shift op rd rs1 shamt => s.set rd (op.apply (s.get rs1) shamt.toNat)
  | .op op rd rs1 rs2 => s.set rd (op.apply (s.get rs1) (s.get rs2))
  | _ => s

/-- The state after several of them. -/
def Hart.afterAll (s : Hart) (is : List Instruction) : Hart := is.foldl Hart.after s

@[simp] theorem Hart.afterAll_nil (s : Hart) : s.afterAll [] = s := rfl

@[simp] theorem Hart.afterAll_cons (s : Hart) (i : Instruction) (is : List Instruction) :
    s.afterAll (i :: is) = (s.after i).afterAll is := rfl

theorem Hart.afterAll_append (s : Hart) (is js : List Instruction) :
    s.afterAll (is ++ js) = (s.afterAll is).afterAll js := List.foldl_append

theorem execute_of_isRegister (ram : BitVec 32 → Bool) {i : Instruction} (h : i.isRegister = true)
    (s : Hart) : execute ram i s = some (s.after i) := by
  cases i with
  | lw rd rs1 offset | sw rs2 rs1 offset => cases h
  | _ => rfl

/-- **Code that only computes never traps.** -/
theorem run_of_isRegister (ram : BitVec 32 → Bool) {is : List Instruction}
    (h : ∀ i ∈ is, i.isRegister = true) (s : Hart) : run ram is s = some (s.afterAll is) := by
  induction is generalizing s with
  | nil => rfl
  | cons i is ih =>
      rw [List.forall_mem_cons] at h
      rw [run, execute_of_isRegister ram h.1, Option.bind_some, ih h.2, Hart.afterAll_cons]

@[simp] theorem memory_after (s : Hart) (i : Instruction) : (s.after i).memory = s.memory := by
  cases i <;> rfl

@[simp] theorem memory_afterAll (s : Hart) (is : List Instruction) :
    (s.afterAll is).memory = s.memory := by
  induction is generalizing s with
  | nil => rfl
  | cons i is ih => rw [Hart.afterAll_cons, ih, memory_after]

theorem get_after {s : Hart} {i : Instruction} {r : Reg} (h : i.rd? ≠ some r) :
    (s.after i).get r = s.get r := by
  cases i with
  | lw rd rs1 offset | sw rs2 rs1 offset => rfl
  | _ => exact s.get_set_of_ne _ fun heq => h (congrArg some heq.symm)

/-- **Registers that no instruction writes stay.** -/
theorem get_afterAll {s : Hart} {is : List Instruction} {r : Reg} (h : ∀ i ∈ is, i.rd? ≠ some r) :
    (s.afterAll is).get r = s.get r := by
  induction is generalizing s with
  | nil => rfl
  | cons i is ih =>
      rw [List.forall_mem_cons] at h
      rw [Hart.afterAll_cons, ih h.2, get_after h.1]

/-! ### Constants -/

/-- The upper part of a constant, for `lui`. -/
def hi20 (value : BitVec 32) : BitVec 20 := ((value + 0x800) >>> 12).setWidth 20

/-- The lower part of a constant, for `addi`. -/
def lo12 (value : BitVec 32) : BitVec 12 := (value - (value + 0x800) >>> 12 <<< 12).setWidth 12

theorem signExtend_setWidth_of_small {x : BitVec 32}
    (h : x.toNat < 2048 ∨ 2 ^ 32 - 2048 ≤ x.toNat) : (x.setWidth 12).signExtend 32 = x := by
  have hlt := x.isLt
  apply BitVec.eq_of_toInt_eq
  rw [BitVec.toInt_signExtend_of_le (by decide), BitVec.toInt_setWidth, BitVec.toInt_eq_toNat_bmod]
  rw [Int.bmod_def, Int.bmod_def]
  rcases h with h | h
  · rw [if_pos (by omega), if_pos (by omega)]
    omega
  · rw [if_neg (by omega), if_neg (by omega)]
    omega

/-- What `lui` leaves of a constant fits twelve bits, with a sign. -/
theorem lower_small (value : BitVec 32) :
    (value - (value + 0x800) >>> 12 <<< 12).toNat < 2048 ∨
      2 ^ 32 - 2048 ≤ (value - (value + 0x800) >>> 12 <<< 12).toNat := by
  have hlt := value.isLt
  have h800 : (0x800 : BitVec 32).toNat = 2048 := rfl
  simp only [BitVec.toNat_sub, BitVec.toNat_shiftLeft, BitVec.toNat_ushiftRight, BitVec.toNat_add,
    Nat.shiftRight_eq_div_pow, Nat.shiftLeft_eq, h800]
  omega

/-- **The two parts make the constant.** -/
theorem hi20_add_lo12 (value : BitVec 32) :
    (hi20 value).setWidth 32 <<< 12 + (lo12 value).signExtend 32 = value := by
  have hupper : (hi20 value).setWidth 32 = (value + 0x800) >>> 12 := by
    apply BitVec.eq_of_toNat_eq
    have hlt := (value + 0x800).isLt
    simp only [hi20, BitVec.toNat_setWidth, BitVec.toNat_ushiftRight, Nat.shiftRight_eq_div_pow]
    omega
  rw [hupper, lo12, signExtend_setWidth_of_small (lower_small value), BitVec.add_comm,
    BitVec.sub_add_cancel]

theorem Hart.set_set (s : Hart) (rd : Reg) (value value' : BitVec 32) :
    (s.set rd value).set rd value' = s.set rd value' := by
  simp only [Hart.set]
  congr 1
  funext r
  split <;> rfl

/-- A constant by `lui` and `addi`. -/
theorem Hart.afterAll_constant {rd : Reg} (h : rd ≠ 0) (value : BitVec 32) (s : Hart) :
    s.afterAll [.lui rd (hi20 value), .opImm .addi rd rd (lo12 value)] = s.set rd value := by
  simp only [afterAll_cons, afterAll_nil, after, get_set, h, ne_eq, not_false_eq_true, and_self,
    if_true, ImmOp.apply, hi20_add_lo12, set_set]

/-- A constant by `lui` alone, when there is nothing left for `addi`. -/
theorem Hart.afterAll_lui {rd : Reg} {value : BitVec 32} (h : lo12 value = 0) (s : Hart) :
    s.afterAll [.lui rd (hi20 value)] = s.set rd value := by
  have hvalue := hi20_add_lo12 value
  rw [h, show (0 : BitVec 12).signExtend 32 = 0#32 from rfl, BitVec.add_zero] at hvalue
  simp only [afterAll_cons, afterAll_nil, after, hvalue]

end Rv32
