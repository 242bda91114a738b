/-
**RV32 code in memory.**

The words of a code image are decoded and executed one after the other.  Beside the integer
registers a core has floating-point and vector registers, with the units enabled; of their
instructions only the moves to an integer register are here.  The core stops at a word that decodes
to nothing, and at an instruction that traps: a vector instruction does under an illegal `vtype`.

Main definitions:

* `Rv32.decode` — the instruction a word stands for;
* `Rv32.Core` — the program counter and the registers;
* `Rv32.Core.step`, `Rv32.Core.Stops` — one instruction, and the place where a run ends.

Main results:

* `Rv32.Core.Stops.unique` — **a run ends in one place**;
* `Rv32.decode_lui`, `Rv32.decode_addi` — the words of a constant;
* `Rv32.Core.steps_constant`, `Rv32.Core.steps_beq` — what the words of a comparison do.
-/

import CoralNpu.CodeImage
import CoralNpu.Rv32
import Mathlib.Logic.Relation

set_option relaxedAutoImplicit false
set_option autoImplicit false

namespace Rv32

open CodeImage

/-! ### Vector configurations -/

/-- The width of the elements. -/
inductive Sew where
  | e8 | e16 | e32 | e64
  deriving DecidableEq

/-- The number of registers in a group. -/
inductive Lmul where
  | mf8 | mf4 | mf2 | m1 | m2 | m4 | m8
  deriving DecidableEq

/-- `vtype`, `vl` and `vstart`. -/
structure VectorConfig where
  vill : Bool
  sew : Sew
  lmul : Lmul
  vl : ℕ
  vstart : ℕ
  deriving DecidableEq

/-- The first element of a register that starts with this word, as an integer register takes it:
sign extended, or its lower half. -/
def Sew.firstElement : Sew → Word → Word
  | e8, w => (w.setWidth 8).signExtend 32
  | e16, w => (w.setWidth 16).signExtend 32
  | e32, w | e64, w => w

/-! ### Instruction words -/

/-- An instruction of a code image. -/
inductive CodeInstruction where
  | base (i : Instruction)
  | beq (rs1 rs2 : Reg) (offset : BitVec 13)
  | fmvXW (rd fs1 : Reg)
  | vmvXS (rd vs2 : Reg)
  deriving DecidableEq

/-- The register numbered by five bits of a word. -/
def regField (w : Word) (start : ℕ) : Reg :=
  ⟨(w.extractLsb' start 5).toNat, (w.extractLsb' start 5).isLt⟩

/-- The offset of a branch. -/
def branchOffset (w : Word) : BitVec 13 :=
  w.extractLsb' 31 1 ++ w.extractLsb' 7 1 ++ w.extractLsb' 25 6 ++ w.extractLsb' 8 4 ++ 0#1

/-- The instruction a word stands for. -/
def decode (w : Word) : Option CodeInstruction :=
  let opcode := w.extractLsb' 0 7
  let funct3 := w.extractLsb' 12 3
  if opcode = 0x37 then some (.base (.lui (regField w 7) (w.extractLsb' 12 20)))
  else if opcode = 0x13 ∧ funct3 = 0 then
    some (.base (.opImm .addi (regField w 7) (regField w 15) (w.extractLsb' 20 12)))
  else if opcode = 0x63 ∧ funct3 = 0 then
    some (.beq (regField w 15) (regField w 20) (branchOffset w))
  else if opcode = 0x53 ∧ funct3 = 0 ∧ w.extractLsb' 20 5 = 0 ∧ w.extractLsb' 25 7 = 0x70 then
    some (.fmvXW (regField w 7) (regField w 15))
  else if opcode = 0x57 ∧ funct3 = 2 ∧ w.extractLsb' 15 5 = 0 ∧ w.extractLsb' 25 7 = 0x21 then
    some (.vmvXS (regField w 7) (regField w 20))
  else none

/-- The word of `lui`. -/
theorem decode_lui (imm : BitVec 20) (rd : BitVec 5) :
    decode (imm ++ rd ++ 0x37#7) = some (.base (.lui ⟨rd.toNat, rd.isLt⟩ imm)) := by
  have hopcode : (imm ++ rd ++ 0x37#7).extractLsb' 0 7 = 0x37 := by
    ext i hi
    simp
    grind
  have hrd : (imm ++ rd ++ 0x37#7).extractLsb' 7 5 = rd := by
    ext i hi
    simp
    grind
  have himm : (imm ++ rd ++ 0x37#7).extractLsb' 12 20 = imm := by
    ext i hi
    simp
    grind
  rw [decode, if_pos hopcode, himm]
  simp only [regField, hrd]

/-- The word of `addi`. -/
theorem decode_addi (imm : BitVec 12) (rs1 rd : BitVec 5) :
    decode (imm ++ rs1 ++ 0#3 ++ rd ++ 0x13#7) =
      some (.base (.opImm .addi ⟨rd.toNat, rd.isLt⟩ ⟨rs1.toNat, rs1.isLt⟩ imm)) := by
  have hopcode : (imm ++ rs1 ++ 0#3 ++ rd ++ 0x13#7).extractLsb' 0 7 = 0x13 := by
    ext i hi
    simp
    grind
  have hrd : (imm ++ rs1 ++ 0#3 ++ rd ++ 0x13#7).extractLsb' 7 5 = rd := by
    ext i hi
    simp
    grind
  have hfunct3 : (imm ++ rs1 ++ 0#3 ++ rd ++ 0x13#7).extractLsb' 12 3 = 0 := by
    ext i hi
    simp
    grind
  have hrs1 : (imm ++ rs1 ++ 0#3 ++ rd ++ 0x13#7).extractLsb' 15 5 = rs1 := by
    ext i hi
    simp
    grind
  have himm : (imm ++ rs1 ++ 0#3 ++ rd ++ 0x13#7).extractLsb' 20 12 = imm := by
    ext i hi
    simp
    grind
  have hlui : ¬ (imm ++ rs1 ++ 0#3 ++ rd ++ 0x13#7).extractLsb' 0 7 = 0x37 := by
    rw [hopcode]
    decide
  rw [decode, if_neg hlui, if_pos ⟨hopcode, hfunct3⟩, himm]
  simp only [regField, hrd, hrs1]

/-! ### Cores -/

/-- A core. -/
structure Core (flen vlen : ℕ) where
  pc : ℕ
  hart : Hart
  f : Reg → BitVec flen
  v : Reg → BitVec vlen
  config : VectorConfig

variable {flen vlen : ℕ}

namespace Core

/-- The core at the next word, with new integer registers. -/
def next (c : Core flen vlen) (hart : Hart) : Core flen vlen :=
  { c with pc := c.pc + 4, hart := hart }

section Step

-- the bytes that can be read and written, and the code
variable (ram : Word → Bool) (image : Bytes)

/-- One instruction; `none` when it traps. -/
def execute (c : Core flen vlen) : CodeInstruction → Option (Core flen vlen)
  | .base i => (Rv32.execute ram i c.hart).map c.next
  | .beq rs1 rs2 offset =>
      some { c with
        pc := if c.hart.get rs1 = c.hart.get rs2 then (c.pc + offset.toInt).toNat else c.pc + 4 }
  | .fmvXW rd fs1 => some (c.next (c.hart.set rd ((c.f fs1).setWidth 32)))
  | .vmvXS rd vs2 =>
      if c.config.vill then none
      else some (c.next (c.hart.set rd (c.config.sew.firstElement ((c.v vs2).setWidth 32))))

/-- The step to the next instruction; `none` where the core stops. -/
def step (c : Core flen vlen) : Option (Core flen vlen) :=
  (decode (wordAt image c.pc)).bind (c.execute ram)

/-- Some steps. -/
def Steps : Core flen vlen → Core flen vlen → Prop :=
  Relation.ReflTransGen fun c c' => c.step ram image = some c'

/-- The run from `c` ends in `c'`. -/
def Stops (c c' : Core flen vlen) : Prop := Steps ram image c c' ∧ c'.step ram image = none

end Step

variable {ram : Word → Bool} {image : Bytes} {c c₁ c₂ : Core flen vlen}

theorem step_of_decode {i : CodeInstruction} (h : decode (wordAt image c.pc) = some i) :
    c.step ram image = c.execute ram i := by
  rw [step, h, Option.bind_some]

theorem Steps.trans (h : Steps ram image c c₁) (h' : Steps ram image c₁ c₂) :
    Steps ram image c c₂ := Relation.ReflTransGen.trans h h'

theorem Steps.single (h : c.step ram image = some c₁) : Steps ram image c c₁ :=
  Relation.ReflTransGen.single h

/-- What comes after some steps comes after them in every run. -/
theorem Steps.stops_iff (h : Steps ram image c c₁) :
    Stops ram image c c₂ ↔ Stops ram image c₁ c₂ := by
  refine ⟨fun ⟨hsteps, hstop⟩ => ⟨?_, hstop⟩, fun ⟨hsteps, hstop⟩ => ⟨h.trans hsteps, hstop⟩⟩
  have hunique : Relator.RightUnique fun c c' : Core flen vlen => c.step ram image = some c' :=
    fun _ _ _ h₁ h₂ => Option.some.inj (h₁.symm.trans h₂)
  rcases Relation.ReflTransGen.total_of_right_unique hunique h hsteps with hahead | hbehind
  · exact hahead
  · -- `c₂` has no step, so it is `c₁`
    rcases hbehind.cases_head with rfl | ⟨c', hstep, -⟩
    · exact .refl
    · rw [hstop] at hstep
      cases hstep

/-- **A run ends in one place.** -/
theorem Stops.unique (h₁ : Stops ram image c c₁) (h₂ : Stops ram image c c₂) : c₁ = c₂ := by
  obtain ⟨hsteps, -⟩ := (Steps.stops_iff h₁.1).1 h₂
  rcases hsteps.cases_head with rfl | ⟨c', hstep, -⟩
  · rfl
  · rw [h₁.2] at hstep
    cases hstep

/-- **A constant** by `lui` and `addi`. -/
theorem steps_constant {rd : Reg} (hrd : rd ≠ 0) {value : Word}
    (hlui : decode (wordAt image c.pc) = some (.base (.lui rd (hi20 value))))
    (haddi : decode (wordAt image (c.pc + 4)) = some (.base (.opImm .addi rd rd (lo12 value)))) :
    Steps ram image c { c with pc := c.pc + 8, hart := c.hart.set rd value } := by
  have hvalue := Hart.afterAll_constant hrd value c.hart
  refine .trans (.single (step_of_decode hlui)) (.single ?_)
  rw [step_of_decode (c := c.next _) haddi, ← hvalue]
  rfl

/-- A branch over the next word. -/
theorem steps_beq (ram : Word → Bool) {rs1 rs2 : Reg}
    (h : decode (wordAt image c.pc) = some (.beq rs1 rs2 8)) :
    Steps ram image c
      { c with pc := if c.hart.get rs1 = c.hart.get rs2 then c.pc + 8 else c.pc + 4 } :=
  .single (step_of_decode h)

end Core

end Rv32
