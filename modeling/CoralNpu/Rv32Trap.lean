/-
**Code around traps.**

A trap handler exchanges registers with the control and status registers, branches on what it reads
there, and returns with `mret`.  The machine has a program counter and fetches its instructions;
between the branches it runs blocks, which go on to the next instruction.

Main definitions:

* `Rv32.TrapInstruction`, `Rv32.trapInstructionOf` — the instructions, and the lines that stand for
  them;
* `Rv32.TrapHart`, `Rv32.Machine` — registers, memory and control and status registers; with the
  program counter;
* `Rv32.runBlock` — a block;
* `Rv32.step`, `Rv32.Reaches` — the machine.

Main results:

* `Rv32.reaches_block` — **a block that is fetched runs to its end**;
* `Rv32.fetchLine_eq` — what is fetched from the lines of a program.
-/

import CoralNpu.Rv32Text
import Mathlib.Logic.Function.Basic
import Mathlib.Logic.Relation

set_option relaxedAutoImplicit false
set_option autoImplicit false

namespace Rv32

open AsciiText WordMemory

/-! ### Instructions -/

/-- The number of a control and status register. -/
abbrev Csr := BitVec 12

def mscratch : Csr := 0x340
def mepc : Csr := 0x341
def mcause : Csr := 0x342
def mtval : Csr := 0x343

/-- An instruction of a trap handler; branches have the address they go to. -/
inductive TrapInstruction where
  | base (i : Instruction)
  | csrrw (rd : Reg) (csr : Csr) (rs1 : Reg)
  | csrrs (rd : Reg) (csr : Csr) (rs1 : Reg)
  | beq (rs1 rs2 : Reg) (target : ℕ)
  | jal (rd : Reg) (target : ℕ)
  | ebreak
  | mret
  deriving DecidableEq

/-- The state of a hart with its control and status registers. -/
structure TrapHart where
  hart : Hart
  csr : Csr → BitVec 32

/-- The state of a machine. -/
structure Machine where
  state : TrapHart
  pc : ℕ

/-! ### Execution -/

section Execution

variable (ram : BitVec 32 → Bool)

/-- An instruction of a block; `none` when it traps, or is not for a block.  `csrrs` writes nothing
when its source is register zero. -/
def executeBlock : TrapInstruction → TrapHart → Option TrapHart
  | .base i, s => (execute ram i s.hart).map fun hart => { s with hart }
  | .csrrw rd csr rs1, s =>
      some ⟨s.hart.set rd (s.csr csr), Function.update s.csr csr (s.hart.get rs1)⟩
  | .csrrs rd csr rs1, s =>
      some ⟨s.hart.set rd (s.csr csr),
        if rs1 = 0 then s.csr else Function.update s.csr csr (s.csr csr ||| s.hart.get rs1)⟩
  | _, _ => none

/-- The instructions of a block, one after the other. -/
def runBlock : List TrapInstruction → TrapHart → Option TrapHart
  | [], s => some s
  | i :: is, s => (executeBlock ram i s).bind (runBlock is)

variable (fetch : ℕ → Option TrapInstruction)

/-- A step of the machine; `none` when it stops at an `ebreak`, or traps. -/
def step (m : Machine) : Option Machine :=
  match fetch m.pc with
  | none | some .ebreak => none
  | some .mret => some { m with pc := (m.state.csr mepc).toNat }
  | some (.beq rs1 rs2 target) =>
      some { m with pc := if m.state.hart.get rs1 = m.state.hart.get rs2 then target else m.pc + 4 }
  | some (.jal rd target) =>
      some ⟨{ m.state with hart := m.state.hart.set rd (BitVec.ofNat 32 (m.pc + 4)) }, target⟩
  | some i => (executeBlock ram i m.state).map fun state => ⟨state, m.pc + 4⟩

/-- Some steps. -/
def Reaches : Machine → Machine → Prop :=
  Relation.ReflTransGen fun m m' => step ram fetch m = some m'

end Execution

section Block

variable {ram : BitVec 32 → Bool} {fetch : ℕ → Option TrapInstruction}

/-- An instruction of a block is a step to the next instruction. -/
theorem step_of_executeBlock {i : TrapInstruction} {s s' : TrapHart} {pc : ℕ}
    (hfetch : fetch pc = some i) (h : executeBlock ram i s = some s') :
    step ram fetch ⟨s, pc⟩ = some ⟨s', pc + 4⟩ := by
  cases i with
  | base i | csrrw rd csr rs1 | csrrs rd csr rs1 =>
      simp only [step, hfetch, h]
      rfl
  | beq rs1 rs2 target | jal rd target | ebreak | mret => cases h

/-- **A block that is fetched runs to its end.** -/
theorem reaches_block {is : List TrapInstruction} {s s' : TrapHart} {pc : ℕ}
    (hfetch : ∀ k i, is[k]? = some i → fetch (pc + 4 * k) = some i)
    (h : runBlock ram is s = some s') :
    Reaches ram fetch ⟨s, pc⟩ ⟨s', pc + 4 * is.length⟩ := by
  induction is generalizing s pc with
  | nil =>
      cases h
      exact .refl
  | cons i is ih =>
      obtain ⟨t, hfirst, hrest⟩ := Option.bind_eq_some_iff.1 h
      have hstep := step_of_executeBlock (hfetch 0 i rfl) hfirst
      have htailFetch : ∀ k j, is[k]? = some j → fetch (pc + 4 + 4 * k) = some j := by
        intro k j hj
        rw [Nat.add_assoc, Nat.add_comm 4, ← Nat.mul_succ]
        exact hfetch (k + 1) j hj
      have htail := ih htailFetch hrest
      rw [Nat.add_assoc, Nat.add_comm 4, ← Nat.mul_succ] at htail
      exact .head hstep htail

end Block

/-! ### Lines -/

/-- The control and status registers that have a name. -/
def csrOf (text : Text) : Option Csr :=
  ([("mscratch", mscratch), ("mepc", mepc), ("mcause", mcause), ("mtval", mtval)].find? fun entry =>
    entry.1.toList == text).map Prod.snd

/-- The address of a branch. -/
def targetOf (text : Text) : Option ℕ := (parseInt text).bind Int.toNat?

/-- The instruction a line stands for. -/
def trapInstructionOf (line : Text) : Option TrapInstruction :=
  match tokens line with
  | [mnemonic] =>
      if mnemonic = "ebreak".toList then some .ebreak
      else if mnemonic = "mret".toList then some .mret
      else none
  | [mnemonic, a, b] =>
      if mnemonic = "csrw".toList then do return .csrrw 0 (← csrOf a) (← regOf b)
      else if mnemonic = "jal".toList then do return .jal (← regOf a) (← targetOf b)
      else (instructionOf line).map .base
  | [mnemonic, a, b, c] =>
      if mnemonic = "csrrw".toList then do return .csrrw (← regOf a) (← csrOf b) (← regOf c)
      else if mnemonic = "csrrs".toList then do return .csrrs (← regOf a) (← csrOf b) (← regOf c)
      else if mnemonic = "beq".toList then do return .beq (← regOf a) (← regOf b) (← targetOf c)
      else (instructionOf line).map .base
  | _ => none

/-- Fetching from the lines of a program that starts at address zero. -/
def fetchLine (lines : List Text) (pc : ℕ) : Option TrapInstruction :=
  if pc % 4 = 0 then lines[pc / 4]?.bind trapInstructionOf else none

/-- What is fetched from a line. -/
theorem fetchLine_eq {lines : List Text} {k : ℕ} {line : Text} {i : TrapInstruction}
    (hline : lines[k]? = some line) (h : trapInstructionOf line = some i) :
    fetchLine lines (4 * k) = some i := by
  rw [fetchLine, if_pos (by omega), Nat.mul_div_cancel_left k (by decide), hline,
    Option.bind_some, h]

end Rv32
