/-
**Pseudo-instructions.**

The base group splits `jalr`, `jal`, `addi` and the `csr` instructions into several patterns by the
values of `rd`, `rs1` and the immediate.  Every pattern names a semantic function and the operands
it gets; what the semantic functions do is a parameter.  A word of one of these instructions should
match exactly one pattern, and what that one does should be the instruction of RV32I.

Main definitions:

* `CoralNpu.IsaEntry`, `CoralNpu.isaEntry` — the semantic function and the operands of an opcode;
* `CoralNpu.SemanticFunctions` — what the semantic functions do;
* `CoralNpu.performs` — what a decoded instruction does;
* `CoralNpu.Rv32iInstruction` — the instructions of RV32I, with `CoralNpu.Rv32iInstruction.execute`;
* `CoralNpu.DecodesOnce` — exactly one pattern matches, and it performs the instruction;
* `CoralNpu.HasNoPattern` — the words left out.

Main results:

* `CoralNpu.decodesOnce_iff` — **a word decodes exactly once unless it is left out**.
-/

import CoralNpu.CodeImage
import CoralNpu.CoralNpuBaseFmt

set_option relaxedAutoImplicit false
set_option autoImplicit false

namespace CoralNpu

open BinFmt
open CodeImage (Word)

/-! ### The state -/

/-- Control and status registers: reading and writing can both have side effects. -/
structure CsrFile (ψ : Type) where
  read : BitVec 12 → ψ → Word × ψ
  write : BitVec 12 → Word → ψ → ψ

/-- The registers an instruction sees; the pc is the address of the instruction, and then of the
next one. -/
structure RiscVState (ψ : Type) where
  x : BitVec 5 → Word
  pc : Word
  csrs : ψ

namespace RiscVState

variable {ψ : Type}

/-- Register zero is zero. -/
def readX (r : BitVec 5) (s : RiscVState ψ) : Word := if r = 0 then 0 else s.x r

/-- Writes to register zero are lost. -/
def writeX (r : BitVec 5) (value : Word) (s : RiscVState ψ) : RiscVState ψ :=
  if r = 0 then s else { s with x := Function.update s.x r value }

/-- The pc written. -/
def writePc (value : Word) (s : RiscVState ψ) : RiscVState ψ := { s with pc := value }

/-- A control and status register read. -/
def readCsr (file : CsrFile ψ) (index : BitVec 12) (s : RiscVState ψ) : Word × RiscVState ψ :=
  let (value, csrs) := file.read index s.csrs
  (value, { s with csrs := csrs })

/-- A control and status register written. -/
def writeCsr (file : CsrFile ψ) (index : BitVec 12) (value : Word) (s : RiscVState ψ) :
    RiscVState ψ := { s with csrs := file.write index value s.csrs }

end RiscVState

/-! ### Operands -/

/-- The fields of a word that operands are made of. -/
def fieldRd (w : Word) : BitVec 5 := w.extractLsb' 7 5
def fieldRs1 (w : Word) : BitVec 5 := w.extractLsb' 15 5
def fieldImm12 (w : Word) : BitVec 12 := w.extractLsb' 20 12
def fieldImm20 (w : Word) : BitVec 20 := w.extractLsb' 12 20

/-- `j_imm`: `imm20[19, 7..0, 8, 18..9], 0b0`. -/
def jImm (imm20 : BitVec 20) : BitVec 21 :=
  imm20.extractLsb' 19 1 ++ imm20.extractLsb' 0 8 ++ imm20.extractLsb' 8 1 ++
    imm20.extractLsb' 9 10 ++ 0#1

/-- The source operands. -/
inductive SourceOp where
  | rs1 | iImm12 | jImm12 | jImm20 | csr | csrUimm5
  deriving DecidableEq

/-- The destination operands. -/
inductive DestOp where
  | rd | nextPc | csr
  deriving DecidableEq

/-- `GetSource`. -/
def getSource {ψ : Type} (w : Word) (s : RiscVState ψ) : SourceOp → Word
  | .rs1 => s.readX (fieldRs1 w)
  | .iImm12 => (fieldImm12 w).signExtend 32
  | .jImm12 => (fieldImm12 w).signExtend 32
  | .jImm20 => (jImm (fieldImm20 w)).signExtend 32
  | .csr => (fieldImm12 w).setWidth 32
  | .csrUimm5 => (fieldRs1 w).setWidth 32

/-- A destination of an instruction. -/
inductive Destination where
  | x (r : BitVec 5)
  | nextPc
  /-- the register that a value for a control and status register goes through -/
  | csr
  deriving DecidableEq

/-- `GetDestination`. -/
def getDestination (w : Word) : DestOp → Destination
  | .rd => .x (fieldRd w)
  | .nextPc => .nextPc
  | .csr => .csr

/-! ### The instruction set description -/

/-- The semantic functions. -/
inductive SemFunc where
  | riscVIAdd | riscVINop | riscVIJal | riscVIJalr | riscVZiCsrrw | riscVZiCsrrs | riscVZiCsrrc
  | riscVZiCsrrwNr | riscVZiCsrrNw
  deriving DecidableEq

/-- An entry of the instruction set description, up to resources and text. -/
structure IsaEntry where
  semfunc : SemFunc
  sources : List SourceOp
  destinations : List DestOp

/-- The entries of the pseudo-instructions and the instructions they specialise. -/
def isaEntry : BaseOpcode → Option IsaEntry
  | .addi => some ⟨.riscVIAdd, [.rs1, .iImm12], [.rd]⟩
  | .li => some ⟨.riscVIAdd, [.rs1, .iImm12], [.rd]⟩
  | .mv => some ⟨.riscVIAdd, [.rs1, .iImm12], [.rd]⟩
  | .nop => some ⟨.riscVINop, [], []⟩
  | .jal => some ⟨.riscVIJal, [.jImm20], [.nextPc, .rd]⟩
  | .j => some ⟨.riscVIJal, [.jImm20], [.nextPc, .rd]⟩
  | .jalr => some ⟨.riscVIJalr, [.rs1, .jImm12], [.nextPc, .rd]⟩
  | .jr => some ⟨.riscVIJalr, [.rs1, .jImm12], [.nextPc, .rd]⟩
  | .ret => some ⟨.riscVIJalr, [.rs1, .jImm12], [.nextPc, .rd]⟩
  | .csrrw => some ⟨.riscVZiCsrrw, [.rs1, .csr], [.rd, .csr]⟩
  | .csrrs => some ⟨.riscVZiCsrrs, [.rs1, .csr], [.rd, .csr]⟩
  | .csrrc => some ⟨.riscVZiCsrrc, [.rs1, .csr], [.rd, .csr]⟩
  | .csrrsNr => some ⟨.riscVZiCsrrs, [.rs1, .csr], [.rd, .csr]⟩
  | .csrrcNr => some ⟨.riscVZiCsrrc, [.rs1, .csr], [.rd, .csr]⟩
  | .csrrwNr => some ⟨.riscVZiCsrrwNr, [.rs1, .csr], [.csr]⟩
  | .csrrsNw => some ⟨.riscVZiCsrrNw, [.csr], [.rd]⟩
  | .csrrcNw => some ⟨.riscVZiCsrrNw, [.csr], [.rd]⟩
  | .csrrwi => some ⟨.riscVZiCsrrw, [.csrUimm5, .csr], [.rd, .csr]⟩
  | .csrrsi => some ⟨.riscVZiCsrrs, [.csrUimm5, .csr], [.rd, .csr]⟩
  | .csrrci => some ⟨.riscVZiCsrrc, [.csrUimm5, .csr], [.rd, .csr]⟩
  | .csrrsiNr => some ⟨.riscVZiCsrrs, [.csrUimm5, .csr], [.rd, .csr]⟩
  | .csrrciNr => some ⟨.riscVZiCsrrc, [.csrUimm5, .csr], [.rd, .csr]⟩
  | .csrrwiNr => some ⟨.riscVZiCsrrwNr, [.csrUimm5, .csr], [.csr]⟩
  | .csrrsiNw => some ⟨.riscVZiCsrrNw, [.csr], [.rd]⟩
  | .csrrciNw => some ⟨.riscVZiCsrrNw, [.csr], [.rd]⟩
  | _ => none

section Semantics

variable {ψ : Type} (file : CsrFile ψ)

/-- What the semantic functions do, for an instruction at an address, with the values of its
sources. A `csr` destination is written through the index in the second source. -/
structure SemanticFunctions where
  apply : SemFunc → Word → List Word → List Destination → RiscVState ψ → RiscVState ψ
  add_eq : ∀ address a b r s, apply .riscVIAdd address [a, b] [.x r] s = s.writeX r (a + b)
  nop_eq : ∀ address s, apply .riscVINop address [] [] s = s
  jal_eq : ∀ address imm r s, apply .riscVIJal address [imm] [.nextPc, .x r] s =
    (s.writeX r (address + 4)).writePc (address + imm)
  jalr_eq : ∀ address a imm r s, apply .riscVIJalr address [a, imm] [.nextPc, .x r] s =
    (s.writeX r (address + 4)).writePc ((a + imm) &&& ~~~1)
  csrrw_eq : ∀ address value index r s,
    apply .riscVZiCsrrw address [value, index] [.x r, .csr] s =
      let (old, s) := s.readCsr file (index.setWidth 12)
      (s.writeCsr file (index.setWidth 12) value).writeX r old
  csrrs_eq : ∀ address value index r s,
    apply .riscVZiCsrrs address [value, index] [.x r, .csr] s =
      let (old, s) := s.readCsr file (index.setWidth 12)
      (s.writeCsr file (index.setWidth 12) (old ||| value)).writeX r old
  csrrc_eq : ∀ address value index r s,
    apply .riscVZiCsrrc address [value, index] [.x r, .csr] s =
      let (old, s) := s.readCsr file (index.setWidth 12)
      (s.writeCsr file (index.setWidth 12) (old &&& ~~~value)).writeX r old
  csrrwNr_eq : ∀ address value index s,
    apply .riscVZiCsrrwNr address [value, index] [.csr] s =
      s.writeCsr file (index.setWidth 12) value
  csrrNw_eq : ∀ address index r s, apply .riscVZiCsrrNw address [index] [.x r] s =
    let (old, s) := s.readCsr file (index.setWidth 12)
    s.writeX r old

variable {file}

/-- What a decoded instruction does: the pc goes to the next instruction, and the semantic function
gets its operands. -/
def performs (sem : SemanticFunctions file) (op : BaseOpcode) (w : Word) (s : RiscVState ψ) :
    Option (RiscVState ψ) :=
  (isaEntry op).map fun entry =>
    sem.apply entry.semfunc s.pc (entry.sources.map (getSource w s))
      (entry.destinations.map (getDestination w)) (s.writePc (s.pc + 4))

end Semantics

/-! ### RV32I -/

/-- What a `csr` instruction does to its register. -/
inductive CsrOp where
  | write | set | clear
  deriving DecidableEq

/-- The instructions of RV32I and Zicsr that have pseudo-instructions. -/
inductive Rv32iInstruction where
  | jal (rd : BitVec 5) (imm : BitVec 21)
  | jalr (rd rs1 : BitVec 5) (imm : BitVec 12)
  | addi (rd rs1 : BitVec 5) (imm : BitVec 12)
  | csrr (op : CsrOp) (rd rs1 : BitVec 5) (index : BitVec 12)
  | csrri (op : CsrOp) (rd uimm : BitVec 5) (index : BitVec 12)
  deriving DecidableEq

/-- The instruction of a word, by its opcode and `func3`. -/
def rv32iInstruction (w : Word) : Option Rv32iInstruction :=
  match IType.opcode.get w, IType.func3.get w with
  | 0b110_1111, _ => some (.jal (fieldRd w) (jImm (fieldImm20 w)))
  | 0b110_0111, 0b000 => some (.jalr (fieldRd w) (fieldRs1 w) (fieldImm12 w))
  | 0b001_0011, 0b000 => some (.addi (fieldRd w) (fieldRs1 w) (fieldImm12 w))
  | 0b111_0011, 0b001 => some (.csrr .write (fieldRd w) (fieldRs1 w) (fieldImm12 w))
  | 0b111_0011, 0b010 => some (.csrr .set (fieldRd w) (fieldRs1 w) (fieldImm12 w))
  | 0b111_0011, 0b011 => some (.csrr .clear (fieldRd w) (fieldRs1 w) (fieldImm12 w))
  | 0b111_0011, 0b101 => some (.csrri .write (fieldRd w) (fieldRs1 w) (fieldImm12 w))
  | 0b111_0011, 0b110 => some (.csrri .set (fieldRd w) (fieldRs1 w) (fieldImm12 w))
  | 0b111_0011, 0b111 => some (.csrri .clear (fieldRd w) (fieldRs1 w) (fieldImm12 w))
  | _, _ => none

section Rv32i

variable {ψ : Type} (file : CsrFile ψ)

/-- The value a `csr` instruction writes. -/
def CsrOp.apply (old value : Word) : CsrOp → Word
  | .write => value
  | .set => old ||| value
  | .clear => old &&& ~~~value

/-- A `csr` instruction: a write to `x0` does not read the register, and a set or clear with source
zero does not write it. -/
def executeCsr (op : CsrOp) (rd source : BitVec 5) (value : Word) (index : BitVec 12)
    (s : RiscVState ψ) : RiscVState ψ :=
  if op = .write ∧ rd = 0 then s.writeCsr file index value
  else
    let (old, s) := s.readCsr file index
    let s := if op ≠ .write ∧ source = 0 then s else s.writeCsr file index (op.apply old value)
    s.writeX rd old

/-- An instruction of RV32I. -/
def Rv32iInstruction.execute (s : RiscVState ψ) : Rv32iInstruction → RiscVState ψ
  | .jal rd imm => (s.writeX rd (s.pc + 4)).writePc (s.pc + imm.signExtend 32)
  | .jalr rd rs1 imm =>
      (s.writeX rd (s.pc + 4)).writePc ((s.readX rs1 + imm.signExtend 32) &&& ~~~1)
  | .addi rd rs1 imm => (s.writeX rd (s.readX rs1 + imm.signExtend 32)).writePc (s.pc + 4)
  | .csrr op rd rs1 index =>
      (executeCsr file op rd rs1 (s.readX rs1) index s).writePc (s.pc + 4)
  | .csrri op rd uimm index =>
      (executeCsr file op rd uimm (uimm.setWidth 32) index s).writePc (s.pc + 4)

end Rv32i

/-! ### Decoding once -/

/-- **A word decodes once**: exactly one pattern of the base group matches it, and what that one
does is the instruction. -/
def DecodesOnce {ψ : Type} {file : CsrFile ψ} (sem : SemanticFunctions file) (w : Word)
    (inst : Rv32iInstruction) : Prop :=
  ∃ p ∈ coralNpuInst, (∀ q ∈ coralNpuInst, q.Matches w ↔ q = p) ∧
    ∀ s, performs sem p.opcode w s = some (inst.execute file s)

/-- The instructions without a pattern: `ret` and `nop` ask for a zero immediate, and no other
pattern takes the rest. -/
def HasNoPattern : Rv32iInstruction → Prop
  | .jalr rd rs1 imm => rd = 0 ∧ rs1 = 1 ∧ imm ≠ 0
  | .addi rd rs1 imm => rd = 0 ∧ rs1 = 0 ∧ imm ≠ 0
  | _ => False

/-! ### What the semantic functions do -/

section Performs

variable {ψ : Type} {file : CsrFile ψ} (sem : SemanticFunctions file) {op : BaseOpcode} (w : Word)
  (s : RiscVState ψ)

/-! The pc is written independently of the rest. -/

@[simp] theorem readX_writePc (r : BitVec 5) (value : Word) :
    (s.writePc value).readX r = s.readX r := rfl

@[simp] theorem writeX_writePc (r : BitVec 5) (a value : Word) :
    (s.writePc value).writeX r a = (s.writeX r a).writePc value := by
  rw [RiscVState.writeX, RiscVState.writeX]
  split <;> rfl

@[simp] theorem readCsr_writePc (index : BitVec 12) (value : Word) :
    (s.writePc value).readCsr file index =
      ((s.readCsr file index).1, (s.readCsr file index).2.writePc value) := rfl

@[simp] theorem writeCsr_writePc (index : BitVec 12) (a value : Word) :
    (s.writePc value).writeCsr file index a = (s.writeCsr file index a).writePc value := rfl

@[simp] theorem writePc_writePc (value value' : Word) :
    (s.writePc value).writePc value' = s.writePc value' := rfl

theorem performs_jal (h : isaEntry op = some ⟨.riscVIJal, [.jImm20], [.nextPc, .rd]⟩) :
    performs sem op w s =
      some ((Rv32iInstruction.jal (fieldRd w) (jImm (fieldImm20 w))).execute file s) := by
  rw [performs, h]
  simp [getSource, getDestination, sem.jal_eq, Rv32iInstruction.execute]

theorem performs_jalr (h : isaEntry op = some ⟨.riscVIJalr, [.rs1, .jImm12], [.nextPc, .rd]⟩) :
    performs sem op w s =
      some ((Rv32iInstruction.jalr (fieldRd w) (fieldRs1 w) (fieldImm12 w)).execute file s) := by
  rw [performs, h]
  simp [getSource, getDestination, sem.jalr_eq, Rv32iInstruction.execute]

theorem performs_addi (h : isaEntry op = some ⟨.riscVIAdd, [.rs1, .iImm12], [.rd]⟩) :
    performs sem op w s =
      some ((Rv32iInstruction.addi (fieldRd w) (fieldRs1 w) (fieldImm12 w)).execute file s) := by
  rw [performs, h]
  simp [getSource, getDestination, sem.add_eq, Rv32iInstruction.execute]

/-- An addition into register zero is lost. -/
theorem performs_nop (h : fieldRd w = 0) : performs sem .nop w s =
    some ((Rv32iInstruction.addi (fieldRd w) (fieldRs1 w) (fieldImm12 w)).execute file s) := by
  rw [performs, isaEntry, h]
  simp [sem.nop_eq, Rv32iInstruction.execute, RiscVState.writeX]

/-- What a `csr` instruction does, with its source. -/
def csrOutcome (file : CsrFile ψ) (csrOp : CsrOp) (src : SourceOp) (w : Word)
    (s : RiscVState ψ) : RiscVState ψ :=
  (executeCsr file csrOp (fieldRd w) (fieldRs1 w) (getSource w s src) (fieldImm12 w) s).writePc
    (s.pc + 4)

variable (src : SourceOp)

/-- The index of a control and status register comes back from its operand. -/
theorem getSource_csr : (getSource w s .csr).setWidth 12 = fieldImm12 w := by
  rw [getSource, BitVec.setWidth_setWidth_of_le _ (by decide), BitVec.setWidth_eq]

theorem performs_csrrw (h : isaEntry op = some ⟨.riscVZiCsrrw, [src, .csr], [.rd, .csr]⟩)
    (hrd : fieldRd w ≠ 0#5) : performs sem op w s = some (csrOutcome file .write src w s) := by
  rw [performs, h]
  simp [getSource_csr, getDestination, sem.csrrw_eq, csrOutcome, executeCsr, hrd, CsrOp.apply]

theorem performs_csrrwNr (h : isaEntry op = some ⟨.riscVZiCsrrwNr, [src, .csr], [.csr]⟩)
    (hrd : fieldRd w = 0#5) : performs sem op w s = some (csrOutcome file .write src w s) := by
  rw [performs, h]
  simp [getSource_csr, getDestination, sem.csrrwNr_eq, csrOutcome, executeCsr, hrd]

theorem performs_csrrs (h : isaEntry op = some ⟨.riscVZiCsrrs, [src, .csr], [.rd, .csr]⟩)
    (hrs1 : fieldRs1 w ≠ 0#5) : performs sem op w s = some (csrOutcome file .set src w s) := by
  rw [performs, h]
  simp [getSource_csr, getDestination, sem.csrrs_eq, csrOutcome, executeCsr, hrs1, CsrOp.apply]

theorem performs_csrrc (h : isaEntry op = some ⟨.riscVZiCsrrc, [src, .csr], [.rd, .csr]⟩)
    (hrs1 : fieldRs1 w ≠ 0#5) : performs sem op w s = some (csrOutcome file .clear src w s) := by
  rw [performs, h]
  simp [getSource_csr, getDestination, sem.csrrc_eq, csrOutcome, executeCsr, hrs1, CsrOp.apply]

theorem performs_csrrNw (h : isaEntry op = some ⟨.riscVZiCsrrNw, [.csr], [.rd]⟩)
    (hrs1 : fieldRs1 w = 0#5) {csrOp : CsrOp} (hop : csrOp ≠ .write) :
    performs sem op w s = some (csrOutcome file csrOp src w s) := by
  rw [performs, h]
  simp [getSource_csr, getDestination, sem.csrrNw_eq, csrOutcome, executeCsr, hrs1, hop]

end Performs

/-! ### Exactly one pattern -/

section Decodes

variable {ψ : Type} {file : CsrFile ψ} {sem : SemanticFunctions file} {w : Word}
  {inst : Rv32iInstruction}

/-- Facts about a word that select a pattern performing the instruction. -/
theorem decodesOnce_of_selects (facts : List Constraint) (op : BaseOpcode)
    (hselects : selects facts coralNpuInst op = true) (hfacts : ∀ c ∈ facts, c.Holds w)
    (hperforms : ∀ s, performs sem op w s = some (inst.execute file s)) :
    DecodesOnce sem w inst := by
  obtain ⟨p, hp, rfl, hiff⟩ := exists_of_selects hfacts hselects
  exact ⟨p, hp, hiff, hperforms⟩

/-- Facts about a word that exclude every pattern. -/
theorem not_decodesOnce_of_candidates (facts : List Constraint)
    (hcandidates : candidates facts coralNpuInst = []) (hfacts : ∀ c ∈ facts, c.Holds w) :
    ¬ DecodesOnce sem w inst := by
  rintro ⟨p, hp, hiff, -⟩
  exact not_matches_of_candidates hfacts hcandidates hp ((hiff p hp).2 rfl)

/-! The fields of the operands are zero, or one, as numbers and as bits. -/

theorem rd_get_eq_zero : IType.rd.get w = 0 ↔ fieldRd w = 0 := BitVec.toNat_inj (y := 0#5)

theorem rs1_get_eq_zero : IType.rs1.get w = 0 ↔ fieldRs1 w = 0 := BitVec.toNat_inj (y := 0#5)

theorem rs1_get_eq_one : IType.rs1.get w = 1 ↔ fieldRs1 w = 1 := BitVec.toNat_inj (y := 1#5)

theorem imm12_get_eq_zero : IType.imm12.get w = 0 ↔ fieldImm12 w = 0 :=
  BitVec.toNat_inj (y := 0#12)

/-- `jal` and `j`. -/
theorem decodesOnce_jal (hopcode : IType.opcode.get w = 0b110_1111) :
    DecodesOnce sem w (.jal (fieldRd w) (jImm (fieldImm20 w))) := by
  by_cases hrd : IType.rd.get w = 0
  · exact decodesOnce_of_selects [.eq IType.rd 0, .eq IType.opcode 0b110_1111] .j (by decide)
      (by simp [Constraint.Holds, hrd, hopcode]) fun s => performs_jal sem w s rfl
  · exact decodesOnce_of_selects [.ne IType.rd 0, .eq IType.opcode 0b110_1111] .jal (by decide)
      (by simp [Constraint.Holds, hrd, hopcode]) fun s => performs_jal sem w s rfl

/-- `jalr` with a link register, `jr` without it and not from `x1`, and `ret` from `x1`, which asks
for a zero immediate. -/
theorem decodesOnce_jalr_iff (hopcode : IType.opcode.get w = 0b110_0111)
    (hfunc3 : IType.func3.get w = 0b000) :
    DecodesOnce sem w (.jalr (fieldRd w) (fieldRs1 w) (fieldImm12 w)) ↔
      ¬ HasNoPattern (.jalr (fieldRd w) (fieldRs1 w) (fieldImm12 w)) := by
  rw [HasNoPattern, ← rd_get_eq_zero, ← rs1_get_eq_one, Ne, ← imm12_get_eq_zero]
  by_cases hrd : IType.rd.get w = 0
  · by_cases hrs1 : IType.rs1.get w = 1
    · by_cases himm : IType.imm12.get w = 0
      · refine iff_of_true ?_ fun h => h.2.2 himm
        exact decodesOnce_of_selects [.eq IType.rd 0, .eq IType.rs1 1, .eq IType.imm12 0,
          .eq IType.func3 0b000, .eq IType.opcode 0b110_0111] .ret (by decide)
          (by simp [Constraint.Holds, hrd, hrs1, himm, hfunc3, hopcode])
          fun s => performs_jalr sem w s rfl
      · refine iff_of_false ?_ fun h => h ⟨hrd, hrs1, himm⟩
        exact not_decodesOnce_of_candidates [.eq IType.rd 0, .eq IType.rs1 1, .ne IType.imm12 0,
          .eq IType.func3 0b000, .eq IType.opcode 0b110_0111] (by decide)
          (by simp [Constraint.Holds, hrd, hrs1, himm, hfunc3, hopcode])
    · refine iff_of_true ?_ fun h => hrs1 h.2.1
      exact decodesOnce_of_selects [.eq IType.rd 0, .ne IType.rs1 1, .eq IType.func3 0b000,
        .eq IType.opcode 0b110_0111] .jr (by decide)
        (by simp [Constraint.Holds, hrd, hrs1, hfunc3, hopcode])
        fun s => performs_jalr sem w s rfl
  · refine iff_of_true ?_ fun h => hrd h.1
    exact decodesOnce_of_selects [.ne IType.rd 0, .eq IType.func3 0b000,
      .eq IType.opcode 0b110_0111]
      .jalr (by decide) (by simp [Constraint.Holds, hrd, hfunc3, hopcode])
      fun s => performs_jalr sem w s rfl

/-- `li` from `x0`, `mv` and `addi` from other registers, and `nop` from `x0` to `x0`, which asks
for a zero immediate. -/
theorem decodesOnce_addi_iff (hopcode : IType.opcode.get w = 0b001_0011)
    (hfunc3 : IType.func3.get w = 0b000) :
    DecodesOnce sem w (.addi (fieldRd w) (fieldRs1 w) (fieldImm12 w)) ↔
      ¬ HasNoPattern (.addi (fieldRd w) (fieldRs1 w) (fieldImm12 w)) := by
  rw [HasNoPattern, ← rd_get_eq_zero, ← rs1_get_eq_zero, Ne, ← imm12_get_eq_zero]
  by_cases hrs1 : IType.rs1.get w = 0
  · by_cases hrd : IType.rd.get w = 0
    · by_cases himm : IType.imm12.get w = 0
      · refine iff_of_true ?_ fun h => h.2.2 himm
        exact decodesOnce_of_selects [.eq IType.rd 0, .eq IType.rs1 0, .eq IType.imm12 0,
          .eq IType.func3 0b000, .eq IType.opcode 0b001_0011] .nop (by decide)
          (by simp [Constraint.Holds, hrd, hrs1, himm, hfunc3, hopcode])
          fun s => performs_nop sem w s (rd_get_eq_zero.1 hrd)
      · refine iff_of_false ?_ fun h => h ⟨hrd, hrs1, himm⟩
        exact not_decodesOnce_of_candidates [.eq IType.rd 0, .eq IType.rs1 0, .ne IType.imm12 0,
          .eq IType.func3 0b000, .eq IType.opcode 0b001_0011] (by decide)
          (by simp [Constraint.Holds, hrd, hrs1, himm, hfunc3, hopcode])
    · refine iff_of_true ?_ fun h => hrd h.1
      exact decodesOnce_of_selects [.ne IType.rd 0, .eq IType.rs1 0, .eq IType.func3 0b000,
        .eq IType.opcode 0b001_0011] .li (by decide)
        (by simp [Constraint.Holds, hrd, hrs1, hfunc3, hopcode])
        fun s => performs_addi sem w s rfl
  · refine iff_of_true ?_ fun h => hrs1 h.2.1
    by_cases himm : IType.imm12.get w = 0
    · exact decodesOnce_of_selects [.ne IType.rs1 0, .eq IType.imm12 0, .eq IType.func3 0b000,
        .eq IType.opcode 0b001_0011] .mv (by decide)
        (by simp [Constraint.Holds, hrs1, himm, hfunc3, hopcode])
        fun s => performs_addi sem w s rfl
    · exact decodesOnce_of_selects [.ne IType.rs1 0, .ne IType.imm12 0, .eq IType.func3 0b000,
        .eq IType.opcode 0b001_0011] .addi (by decide)
        (by simp [Constraint.Holds, hrs1, himm, hfunc3, hopcode])
        fun s => performs_addi sem w s rfl

/-- The facts of a `csr` instruction. -/
def csrFacts (func3 : ℕ) (facts : List Constraint) : List Constraint :=
  facts ++ [.eq IType.func3 func3, .eq IType.opcode 0b111_0011]

/-- A write to a control and status register, which reads it unless `rd` is zero. -/
theorem decodesOnce_csrWrite (op opNr : BaseOpcode) {func3 : ℕ} {src : SourceOp}
    (hselects : selects (csrFacts func3 [.ne IType.rd 0]) coralNpuInst op = true)
    (hselectsNr : selects (csrFacts func3 [.eq IType.rd 0]) coralNpuInst opNr = true)
    (hentry : isaEntry op = some ⟨.riscVZiCsrrw, [src, .csr], [.rd, .csr]⟩)
    (hentryNr : isaEntry opNr = some ⟨.riscVZiCsrrwNr, [src, .csr], [.csr]⟩)
    (hinst : ∀ s, inst.execute file s = csrOutcome file .write src w s)
    (hopcode : IType.opcode.get w = 0b111_0011) (hfunc3 : IType.func3.get w = func3) :
    DecodesOnce sem w inst := by
  by_cases hrd : IType.rd.get w = 0
  · refine decodesOnce_of_selects _ _ hselectsNr
      (by simp [csrFacts, Constraint.Holds, hrd, hfunc3, hopcode]) fun s => ?_
    rw [hinst, performs_csrrwNr sem w s src hentryNr (rd_get_eq_zero.1 hrd)]
  · refine decodesOnce_of_selects _ _ hselects
      (by simp [csrFacts, Constraint.Holds, hrd, hfunc3, hopcode]) fun s => ?_
    rw [hinst, performs_csrrw sem w s src hentry fun h => hrd (rd_get_eq_zero.2 h)]

/-- Setting and clearing bits of a control and status register, which writes it unless the source is
zero. -/
theorem decodesOnce_csrUpdate (op opNr opNw : BaseOpcode) {func3 : ℕ} {src : SourceOp}
    {csrOp : CsrOp} {semfunc : SemFunc} (hop : csrOp ≠ .write)
    (hperforms : ∀ {op : BaseOpcode} (s : RiscVState ψ),
      isaEntry op = some ⟨semfunc, [src, .csr], [.rd, .csr]⟩ → fieldRs1 w ≠ 0#5 →
        performs sem op w s = some (csrOutcome file csrOp src w s))
    (hselects : selects (csrFacts func3 [.ne IType.rs1 0, .ne IType.rd 0]) coralNpuInst op = true)
    (hselectsNr :
      selects (csrFacts func3 [.ne IType.rs1 0, .eq IType.rd 0]) coralNpuInst opNr = true)
    (hselectsNw : selects (csrFacts func3 [.eq IType.rs1 0]) coralNpuInst opNw = true)
    (hentry : isaEntry op = some ⟨semfunc, [src, .csr], [.rd, .csr]⟩)
    (hentryNr : isaEntry opNr = some ⟨semfunc, [src, .csr], [.rd, .csr]⟩)
    (hentryNw : isaEntry opNw = some ⟨.riscVZiCsrrNw, [.csr], [.rd]⟩)
    (hinst : ∀ s, inst.execute file s = csrOutcome file csrOp src w s)
    (hopcode : IType.opcode.get w = 0b111_0011) (hfunc3 : IType.func3.get w = func3) :
    DecodesOnce sem w inst := by
  by_cases hrs1 : IType.rs1.get w = 0
  · refine decodesOnce_of_selects _ _ hselectsNw
      (by simp [csrFacts, Constraint.Holds, hrs1, hfunc3, hopcode]) fun s => ?_
    rw [hinst, performs_csrrNw sem w s src hentryNw (rs1_get_eq_zero.1 hrs1) hop]
  · have hsource : fieldRs1 w ≠ 0#5 := fun h => hrs1 (rs1_get_eq_zero.2 h)
    by_cases hrd : IType.rd.get w = 0
    · refine decodesOnce_of_selects _ _ hselectsNr
        (by simp [csrFacts, Constraint.Holds, hrs1, hrd, hfunc3, hopcode]) fun s => ?_
      rw [hinst, hperforms s hentryNr hsource]
    · refine decodesOnce_of_selects _ _ hselects
        (by simp [csrFacts, Constraint.Holds, hrs1, hrd, hfunc3, hopcode]) fun s => ?_
      rw [hinst, hperforms s hentry hsource]

/-- **A word decodes exactly once unless it is left out.** -/
theorem decodesOnce_iff (sem : SemanticFunctions file) {w : Word} {inst : Rv32iInstruction}
    (h : rv32iInstruction w = some inst) : DecodesOnce sem w inst ↔ ¬ HasNoPattern inst := by
  rw [rv32iInstruction] at h
  split at h <;> try obtain rfl := Option.some.inj h
  case h_1 hopcode => exact iff_of_true (decodesOnce_jal hopcode) id
  case h_2 hopcode hfunc3 => exact decodesOnce_jalr_iff hopcode hfunc3
  case h_3 hopcode hfunc3 => exact decodesOnce_addi_iff hopcode hfunc3
  case h_4 hopcode hfunc3 =>
    refine iff_of_true ?_ id
    exact decodesOnce_csrWrite .csrrw .csrrwNr (by decide) (by decide) rfl rfl
      (fun _ => rfl) hopcode hfunc3
  case h_5 hopcode hfunc3 =>
    refine iff_of_true ?_ id
    exact decodesOnce_csrUpdate .csrrs .csrrsNr .csrrsNw (by decide)
      (fun s => performs_csrrs sem w s _) (by decide) (by decide) (by decide) rfl rfl rfl
      (fun _ => rfl) hopcode hfunc3
  case h_6 hopcode hfunc3 =>
    refine iff_of_true ?_ id
    exact decodesOnce_csrUpdate .csrrc .csrrcNr .csrrcNw (by decide)
      (fun s => performs_csrrc sem w s _) (by decide) (by decide) (by decide) rfl rfl rfl
      (fun _ => rfl) hopcode hfunc3
  case h_7 hopcode hfunc3 =>
    refine iff_of_true ?_ id
    exact decodesOnce_csrWrite .csrrwi .csrrwiNr (by decide) (by decide) rfl rfl
      (fun _ => rfl) hopcode hfunc3
  case h_8 hopcode hfunc3 =>
    refine iff_of_true ?_ id
    exact decodesOnce_csrUpdate .csrrsi .csrrsiNr .csrrsiNw (by decide)
      (fun s => performs_csrrs sem w s _) (by decide) (by decide) (by decide) rfl rfl rfl
      (fun _ => rfl) hopcode hfunc3
  case h_9 hopcode hfunc3 =>
    refine iff_of_true ?_ id
    exact decodesOnce_csrUpdate .csrrci .csrrciNr .csrrciNw (by decide)
      (fun s => performs_csrrc sem w s _) (by decide) (by decide) (by decide) rfl rfl rfl
      (fun _ => rfl) hopcode hfunc3
  case h_10 => cases h

end Decodes

/-! ### An instance -/

/-- Semantic functions that do what the laws say and nothing in other cases. -/
def SemanticFunctions.ofLaws {ψ : Type} (file : CsrFile ψ) : SemanticFunctions file where
  apply
    | .riscVIAdd, _, [a, b], [.x r], s => s.writeX r (a + b)
    | .riscVIJal, address, [imm], [.nextPc, .x r], s =>
        (s.writeX r (address + 4)).writePc (address + imm)
    | .riscVIJalr, address, [a, imm], [.nextPc, .x r], s =>
        (s.writeX r (address + 4)).writePc ((a + imm) &&& ~~~1)
    | .riscVZiCsrrw, _, [value, index], [.x r, .csr], s =>
        let (old, s) := s.readCsr file (index.setWidth 12)
        (s.writeCsr file (index.setWidth 12) value).writeX r old
    | .riscVZiCsrrs, _, [value, index], [.x r, .csr], s =>
        let (old, s) := s.readCsr file (index.setWidth 12)
        (s.writeCsr file (index.setWidth 12) (old ||| value)).writeX r old
    | .riscVZiCsrrc, _, [value, index], [.x r, .csr], s =>
        let (old, s) := s.readCsr file (index.setWidth 12)
        (s.writeCsr file (index.setWidth 12) (old &&& ~~~value)).writeX r old
    | .riscVZiCsrrwNr, _, [value, index], [.csr], s => s.writeCsr file (index.setWidth 12) value
    | .riscVZiCsrrNw, _, [index], [.x r], s =>
        let (old, s) := s.readCsr file (index.setWidth 12)
        s.writeX r old
    | _, _, _, _, s => s
  add_eq _ _ _ _ _ := rfl
  nop_eq _ _ := rfl
  jal_eq _ _ _ _ := rfl
  jalr_eq _ _ _ _ _ := rfl
  csrrw_eq _ _ _ _ _ := rfl
  csrrs_eq _ _ _ _ _ := rfl
  csrrc_eq _ _ _ _ _ := rfl
  csrrwNr_eq _ _ _ _ := rfl
  csrrNw_eq _ _ _ _ := rfl

/-- Registers that keep what is written. -/
def keptCsrs : CsrFile (BitVec 12 → Word) where
  read index csrs := (csrs index, csrs)
  write index value csrs := Function.update csrs index value

/-- `jalr x0, 4(x2)` is a `jr`. -/
theorem decodesOnce_iff_jr : DecodesOnce (SemanticFunctions.ofLaws keptCsrs) 0x00410067
    (.jalr 0 2 4) ↔ ¬ HasNoPattern (.jalr 0 2 4) :=
  decodesOnce_iff (SemanticFunctions.ofLaws keptCsrs) (by decide)

/-- `jalr x0, 4(x1)` matches no pattern. -/
theorem not_decodesOnce_jalr : ¬ ∀ (w : Word) (inst : Rv32iInstruction),
    rv32iInstruction w = some inst →
      DecodesOnce (SemanticFunctions.ofLaws keptCsrs) w inst := by
  intro h
  obtain ⟨p, hp, hiff, -⟩ := h 0x00408067 (.jalr 0 1 4) (by decide)
  have hnone : ∀ p ∈ coralNpuInst, ¬ p.Matches (0x00408067 : Word) := by decide
  exact hnone p hp ((hiff p hp).2 rfl)

end CoralNpu
