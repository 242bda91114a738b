/-
**The memory map of the random simulator.**

The generator sandboxes the loads and stores of a program: the address is moved into one of two
writable regions, region 1 or region 2, by its bit 29.  The simulator that runs the program
registers its own regions, and an access that none of them permits faults.

Main definitions:

* `CoralNpu.runRandomSimulationRegions` — the regions of `RunRandomSimulation`;
* `CoralNpu.runChecked` — execution of code, with the permissions of every access checked;
* `CoralNpu.SandboxedAccess` — a call of `EmitLoad` or `EmitStore`, its lines, and the address it
  starts from;
* `CoralNpu.IsPermitted` — the lines are what the engine emits, and running them takes no fault.

Main results:

* `CoralNpu.runChecked_of_run` — code that stays in the writable region of the simulator takes no
  fault;
* `CoralNpu.SandboxedAccess.assemble_emit` — the engine emits the lines of an access;
* `CoralNpu.SandboxedAccess.run_sandbox` — where an access goes;
* `CoralNpu.isPermitted_iff` — **an access is permitted exactly when it chooses region 1**.
-/

import CoralNpu.IsgSandbox
import CoralNpu.MemoryRegion

set_option relaxedAutoImplicit false
set_option autoImplicit false

namespace CoralNpu

open AsciiText PartialState Rv32 WordMemory

variable {G : Prng}

/-! ### The regions and the checks -/

/-- `kDefaultRxRegionStart`. -/
def kDefaultRxRegionStart : ℕ := 0x0

/-- `kDefaultRxRegionLength`. -/
def kDefaultRxRegionLength : ℕ := 0x2000

/-- The memory regions of `RunRandomSimulation`. -/
def runRandomSimulationRegions : List CoralNPUV2MemoryRegion :=
  [⟨BitVec.ofNat 32 kDefaultRxRegionStart, BitVec.ofNat 32 kDefaultRxRegionLength,
      .read ||| .execute⟩,
   ⟨BitVec.ofNat 32 kDefaultRwRegionStart, BitVec.ofNat 32 kDefaultRwRegionLength,
      .read ||| .write⟩]

/-- One instruction, with the permission of its access checked; `none` is a fault. -/
def executeChecked (regions : List CoralNPUV2MemoryRegion) (i : Rv32.Instruction) (s : Hart) :
    Option Hart :=
  match i with
  | .lw rd rs1 offset =>
      let a := s.get rs1 + offset.signExtend 32
      if hasPermission regions a 4 .read then some (s.set rd (loadWord s.memory a)) else none
  | .sw rs2 rs1 offset =>
      let a := s.get rs1 + offset.signExtend 32
      if hasPermission regions a 4 .write then
        some { s with memory := storeWord s.memory a (s.get rs2) }
      else none
  | i => some (s.after i)

/-- Several instructions. -/
def runChecked (regions : List CoralNPUV2MemoryRegion) : List Rv32.Instruction → Hart → Option Hart
  | [], s => some s
  | i :: is, s => (executeChecked regions i s).bind (runChecked regions is)

/-- Some lines of text. -/
def runTextChecked (regions : List CoralNPUV2MemoryRegion) (lines : List Text) (s : Hart) :
    Option Hart :=
  (instructionsOf lines).bind fun is => runChecked regions is s

/-- The bytes of the writable region of the simulator. -/
def inRwRegion (a : BitVec 32) : Bool :=
  kDefaultRwRegionStart ≤ a.toNat ∧ a.toNat < kDefaultRwRegionStart + kDefaultRwRegionLength

/-- The sixteen bytes below the stack pointer are in the writable region. -/
def StackInRwRegion (s : Hart) : Prop :=
  ∀ k < 16, inRwRegion (s.get 2 - 16 + BitVec.ofNat 32 k) = true

instance instDecidableStackInRwRegion (s : Hart) : Decidable (StackInRwRegion s) :=
  inferInstanceAs (Decidable (∀ k < 16, _))

/-! ### The accesses -/

/-- An operand that names a register. -/
structure RegisterName where
  text : Text
  reg : Reg
  regOf_eq : regOf text = some reg
  isOperand : IsOperand text

/-- A call of `EmitLoad` or `EmitStore`. -/
inductive SandboxedAccess where
  | load (rd rs1 : RegisterName) (imm : BitVec 32)
  | store (rs2 rs1 : RegisterName) (imm : BitVec 32)

namespace SandboxedAccess

/-- The call. -/
def emit : SandboxedAccess → EngineM G Unit
  | load rd rs1 imm => emitLoad rd.text rs1.text imm
  | store rs2 rs1 imm => emitStore rs2.text rs1.text imm

/-- The scratch register of the offset, by its name and its number. -/
def scratch : SandboxedAccess → String × Reg
  | load _ rs1 _ => if rs1.text = "t6".toList then ("t1", 6) else ("t6", 31)
  | store rs2 rs1 _ =>
      if rs1.text = "t1".toList ∨ rs2.text = "t1".toList then
        if rs1.text = "t2".toList ∨ rs2.text = "t2".toList then ("t3", 28) else ("t2", 7)
      else ("t1", 6)

/-- The base register and the offset. -/
def operands : SandboxedAccess → RegisterName × BitVec 32
  | load _ rs1 imm | store _ rs1 imm => (rs1, imm)

/-- The address in front of the sandbox: base and offset, where the base register is not the scratch
register itself under another name. -/
def address (access : SandboxedAccess) (s : Hart) : BitVec 32 :=
  (if access.operands.1.reg = access.scratch.2 then access.operands.2
    else s.get access.operands.1.reg) + access.operands.2

/-- The lines in front of the sandbox. -/
def frontText : SandboxedAccess → List Text
  | access@(load _ rs1 imm) =>
      constantText access.scratch.1 imm ++ [addressLine rs1.text access.scratch.1.toList]
  | access@(store rs2 rs1 imm) =>
      let scratch := access.scratch.1.toList
      ["lui ".toList ++ scratch ++ ", 0x".toList ++ hex (upperPart imm).toNat,
        "addi ".toList ++ scratch ++ ", ".toList ++ scratch ++ ", ".toList ++
          signed (lowerPart imm),
        addressLine rs1.text scratch, moveLine "t4".toList rs2.text]

/-- The line of the access itself. -/
def lastLine : SandboxedAccess → Text
  | load rd _ _ => "lw ".toList ++ rd.text ++ ", 0(t6)".toList
  | store _ _ _ => "sw t4, 0(t6)".toList

/-- The lines of a call under strict sandboxing. -/
def text (access : SandboxedAccess) : List Text :=
  access.frontText ++ (dynamicMaskText 4 ++ [access.lastLine])

/-- The code in front of the sandbox. -/
def frontCode : SandboxedAccess → List Rv32.Instruction
  | access@(load _ rs1 imm) =>
      constantCode access.scratch.2 imm ++ [.op .add 31 rs1.reg access.scratch.2]
  | access@(store rs2 rs1 imm) =>
      let scratch := access.scratch.2
      [.lui scratch (hi20 imm), .opImm .addi scratch scratch (lo12 imm),
        .op .add 31 rs1.reg scratch, .opImm .addi 29 rs2.reg 0]

/-- The access itself. -/
def lastCode : SandboxedAccess → Rv32.Instruction
  | load rd _ _ => .lw rd.reg 31 0
  | store _ _ _ => .sw 29 31 0

/-- The permission that the access asks for. -/
def permission : SandboxedAccess → MemoryPermission
  | load _ _ _ => .read
  | store _ _ _ => .write

end SandboxedAccess

/-- **The access is permitted**: the engine emits these lines for it, and running them takes no
fault. -/
def IsPermitted (G : Prng) (access : SandboxedAccess) (s : Hart) : Prop :=
  (∀ (e : IsgEngine G) (u : Unit) (e' : IsgEngine G), e.strictSandboxing = true →
    access.emit.run e = some (u, e') → HasRoom e → UncheckedFit e' →
      assemble e'.text = assemble e.text ++ access.text) ∧
  ∃ s', runTextChecked runRandomSimulationRegions access.text s = some s'

/-! ### Checked execution -/

/-- An access of a word in the writable region is permitted. -/
theorem hasPermission_of_wordInRam {a : BitVec 32} (h : WordInRam inRwRegion a)
    {permission : MemoryPermission} (hp : permission = .read ∨ permission = .write) :
    hasPermission runRandomSimulationRegions a 4 permission = true := by
  obtain ⟨hzero, -, -, hthree⟩ := h
  have hregion : kDefaultRwRegionStart = 0x10000 ∧ kDefaultRwRegionLength = 0x8000 := ⟨rfl, rfl⟩
  simp only [inRwRegion, decide_eq_true_eq, BitVec.toNat_add] at hzero hthree
  have hthree' : (3 : BitVec 32).toNat = 3 := rfl
  have hfour : (4 : BitVec 32).toNat = 4 := rfl
  have hrx : (⟨BitVec.ofNat 32 kDefaultRxRegionStart, BitVec.ofNat 32 kDefaultRxRegionLength,
      .read ||| .execute⟩ : CoralNPUV2MemoryRegion).contains a 4 = false := by
    rw [Bool.eq_false_iff, Ne, CoralNPUV2MemoryRegion.contains_iff]
    simp only [kDefaultRxRegionStart, kDefaultRxRegionLength, BitVec.toNat_ofNat]
    omega
  have hrw : (⟨BitVec.ofNat 32 kDefaultRwRegionStart, BitVec.ofNat 32 kDefaultRwRegionLength,
      .read ||| .write⟩ : CoralNPUV2MemoryRegion).contains a 4 = true := by
    rw [CoralNPUV2MemoryRegion.contains_iff]
    simp only [hregion.1, hregion.2, BitVec.toNat_ofNat]
    omega
  rw [runRandomSimulationRegions, hasPermission, hrx, hasPermission, hrw]
  rcases hp with rfl | rfl <;> rfl

/-- An access in region 2 is not. -/
theorem hasPermission_of_region2 {a : BitVec 32} (h : kDefaultRwRegion2Start ≤ a.toNat)
    (permission : MemoryPermission) :
    hasPermission runRandomSimulationRegions a 4 permission = false := by
  have hregion : kDefaultRwRegion2Start = 0x20000000 := rfl
  have hfour : (4 : BitVec 32).toNat = 4 := rfl
  have hcontains : ∀ region ∈ runRandomSimulationRegions, region.contains a 4 = false := by
    intro region hmem
    have hend : region.startAddress.toNat + region.length.toNat ≤ 0x20000000 := by
      revert region
      decide
    rw [Bool.eq_false_iff, Ne, CoralNPUV2MemoryRegion.contains_iff]
    omega
  rw [hasPermission_eq_decision, Bool.eq_false_iff]
  intro hdecision
  obtain ⟨region, hmem, hinside, -⟩ := FirstMatch.permitted_of_decision hdecision
  exact absurd hinside (Bool.eq_false_iff.1 (hcontains region hmem))

theorem runChecked_append (regions : List CoralNPUV2MemoryRegion) (is js : List Rv32.Instruction)
    (s : Hart) :
    runChecked regions (is ++ js) s = (runChecked regions is s).bind (runChecked regions js) := by
  induction is generalizing s with
  | nil => rfl
  | cons i is ih =>
      rw [List.cons_append, runChecked, runChecked, Option.bind_assoc]
      exact congrArg _ (funext ih)

/-- An instruction that stays in the writable region takes no fault. -/
theorem executeChecked_of_execute {i : Rv32.Instruction} {s s' : Hart}
    (h : execute inRwRegion i s = some s') :
    executeChecked runRandomSimulationRegions i s = some s' := by
  cases i with
  | lw rd rs1 offset =>
      rw [execute] at h
      split at h
      · rename_i hram
        rw [executeChecked, if_pos (hasPermission_of_wordInRam hram (Or.inl rfl)), h]
      · cases h
  | sw rs2 rs1 offset =>
      rw [execute] at h
      split at h
      · rename_i hram
        rw [executeChecked, if_pos (hasPermission_of_wordInRam hram (Or.inr rfl)), h]
      · cases h
  | lui _ _ | opImm _ _ _ _ | shift _ _ _ _ | op _ _ _ _ => exact h

/-- **Code that stays in the writable region takes no fault.** -/
theorem runChecked_of_run {is : List Rv32.Instruction} {s s' : Hart}
    (h : run inRwRegion is s = some s') : runChecked runRandomSimulationRegions is s = some s' := by
  induction is generalizing s with
  | nil => exact h
  | cons i is ih =>
      rw [run] at h
      obtain ⟨s₁, hfirst, hrest⟩ := Option.bind_eq_some_iff.1 h
      rw [runChecked, executeChecked_of_execute hfirst, Option.bind_some, ih hrest]

/-! ### The lines -/

/-- A single line. -/
theorem instructionsOf_singleton {line : Text} {i : Rv32.Instruction}
    (h : instructionOf line = some i) : instructionsOf [line] = some [i] := by
  rw [instructionsOf, List.mapM_cons, h, List.mapM_nil]
  rfl

theorem instructionOf_addressLine (rs1 : RegisterName) {scratch : Text} (hword : IsWord scratch)
    {rd : Reg} (hreg : regOf scratch = some rd) :
    instructionOf (addressLine rs1.text scratch) = some (.op .add 31 rs1.reg rd) := by
  have hline : addressLine rs1.text scratch = "add".toList ++ ' ' ::
      ("t6".toList ++ ", ".toList ++ (rs1.text ++ ", ".toList ++ scratch)) := by
    unfold addressLine
    simp
  have hadd : immOpOf "add".toList = none ∧ shiftOpOf "add".toList = none ∧
      regOpOf "add".toList = some .add := by decide
  have ht6 : regOf "t6".toList = some 31 := by decide
  have hwords : IsWord "add".toList ∧ IsWord "t6".toList := by decide
  rw [instructionOf, hline, tokens_three hwords.1 hwords.2 rs1.isOperand.isWord hword]
  simp only [threeOperands, hadd, ht6, rs1.regOf_eq, hreg]
  rfl

theorem instructionOf_moveLine (rs2 : RegisterName) :
    instructionOf (moveLine "t4".toList rs2.text) = some (.opImm .addi 29 rs2.reg 0) := by
  have hline : moveLine "t4".toList rs2.text = "addi".toList ++ ' ' ::
      ("t4".toList ++ ", ".toList ++ (rs2.text ++ ", ".toList ++ "0".toList)) := by
    unfold moveLine
    simp
  have ht4 : regOf "t4".toList = some 29 := by decide
  have hzero : signedOf 12 "0".toList = some 0 := by decide
  have hwords : IsWord "addi".toList ∧ IsWord "t4".toList ∧ IsWord "0".toList := by decide
  rw [instructionOf, hline, tokens_three hwords.1 hwords.2.1 rs2.isOperand.isWord hwords.2.2]
  simp only [threeOperands, immOpOf_addi, ht4, rs2.regOf_eq, hzero]
  rfl

namespace SandboxedAccess

theorem scratch_spec (access : SandboxedAccess) : IsOperand access.scratch.1.toList ∧
    regOf access.scratch.1.toList = some access.scratch.2 ∧ access.scratch.2 ≠ 0 ∧
      access.scratch.2 ≠ 2 := by
  have hall : ∀ scratch ∈ [("t1", (6 : Reg)), ("t2", 7), ("t3", 28), ("t6", 31)],
      (IsWord scratch.1.toList ∧ ':' ∉ scratch.1.toList ∧ '\x00' ∉ scratch.1.toList) ∧
        regOf scratch.1.toList = some scratch.2 ∧ scratch.2 ≠ 0 ∧ scratch.2 ≠ 2 := by decide
  have hmem : access.scratch ∈ [("t1", (6 : Reg)), ("t2", 7), ("t3", 28), ("t6", 31)] := by
    cases access with
    | load rd rs1 imm =>
        rw [scratch]
        split <;> decide
    | store rs2 rs1 imm =>
        rw [scratch]
        split
        · split <;> decide
        · decide
  obtain ⟨⟨hword, hcolon, hnul⟩, hreg⟩ := hall _ hmem
  exact ⟨⟨hword, hcolon, hnul⟩, hreg⟩

theorem instructionOf_lastLine (access : SandboxedAccess) :
    instructionOf access.lastLine = some access.lastCode := by
  cases access with
  | load rd rs1 imm =>
      have hline : lastLine (load rd rs1 imm) = "lw".toList ++ ' ' ::
          (rd.text ++ ", ".toList ++ "0(t6)".toList) := by
        unfold lastLine
        simp
      have htail : tokens "0(t6)".toList = ["0".toList, "t6".toList] := by decide
      have hlw : immOpOf "lw".toList = none ∧ shiftOpOf "lw".toList = none ∧
          regOpOf "lw".toList = none := by decide
      have ht6 : regOf "t6".toList = some 31 := by decide
      have hzero : signedOf 12 "0".toList = some 0 := by decide
      have hword : IsWord "lw".toList := by decide
      rw [instructionOf, hline, tokens_word_append hword (by decide),
        tokens_word_comma rd.isOperand.isWord, htail]
      simp only [threeOperands, hlw, if_true, rd.regOf_eq, ht6, hzero]
      rfl
  | store rs2 rs1 imm =>
      have hsw : instructionOf "sw t4, 0(t6)".toList = some (.sw 29 31 0) := by decide
      exact hsw

theorem instructionsOf_frontText (access : SandboxedAccess) :
    instructionsOf access.frontText = some access.frontCode := by
  obtain ⟨hoperand, hreg, -, -⟩ := access.scratch_spec
  have haddress := fun rs1 => instructionsOf_singleton
    (instructionOf_addressLine rs1 hoperand.isWord hreg)
  cases access with
  | load rd rs1 imm =>
      exact instructionsOf_append (instructionsOf_constantText hoperand.isWord hreg imm)
        (haddress rs1)
  | store rs2 rs1 imm =>
      have hlui :=
        instructionsOf_singleton (instructionOf_lui hoperand.isWord hreg (upperPart_lt imm))
      have haddi := instructionsOf_singleton (instructionOf_addi hoperand.isWord hreg
        (lowerPart_bounds imm).1 (lowerPart_bounds imm).2)
      rw [BitVec.ofNat_toNat] at hlui
      rw [ofInt_lowerPart] at haddi
      exact instructionsOf_append hlui (instructionsOf_append haddi (instructionsOf_append
        (haddress rs1) (instructionsOf_singleton (instructionOf_moveLine rs2))))

end SandboxedAccess

/-! ### Running the lines -/

/-- The number of places for a word in region 1. -/
abbrev r1Mask : BitVec 32 := regionMask kDefaultRwRegionLength 4

/-- The number of places for a word in region 2. -/
abbrev r2Mask : BitVec 32 := regionMask kDefaultRwRegion2Length 4

namespace SandboxedAccess

variable (access : SandboxedAccess) {s : Hart}

theorem instructionsOf_text : instructionsOf access.text =
    some (access.frontCode ++ (saveCode ++ (maskCode r1Mask r2Mask ++ restoreCode) ++
      [access.lastCode])) := by
  have hclamp : kReservedDtcmBytes < r1Mask.toNat := by decide
  exact instructionsOf_append access.instructionsOf_frontText (instructionsOf_append
    (instructionsOf_dynamicMaskText hclamp)
      (instructionsOf_singleton access.instructionOf_lastLine))

/-- The sum of a base register and an offset in a scratch register. -/
theorem get_after_addressCode {scratch : Reg} (hzero : scratch ≠ 0) (hstack : scratch ≠ 2)
    (rs1 : Reg) (imm : BitVec 32) (s : Hart) :
    ((s.set scratch imm).after (.op .add 31 rs1 scratch)).get 31 =
        (if rs1 = scratch then imm else s.get rs1) + imm ∧
      ((s.set scratch imm).after (.op .add 31 rs1 scratch)).get 2 = s.get 2 := by
  have hself : (s.set scratch imm).get scratch = imm := by
    rw [Hart.get_set, if_pos ⟨rfl, hzero⟩]
  have hbase : (s.set scratch imm).get rs1 = if rs1 = scratch then imm else s.get rs1 := by
    split
    · rename_i heq
      rw [heq, hself]
    · rename_i hne
      exact s.get_set_of_ne imm hne
  constructor
  · rw [Hart.after, Hart.get_set, if_pos ⟨rfl, by decide⟩, RegOp.apply, hself, hbase]
  · rw [Hart.after, Hart.get_set_of_ne _ _ (by decide), Hart.get_set_of_ne _ _ hstack.symm]

/-- The code in front of the sandbox computes the address, and keeps the stack pointer. -/
theorem run_frontCode (ram : BitVec 32 → Bool) (s : Hart) :
    ∃ s', run ram access.frontCode s = some s' ∧ s'.get 31 = access.address s ∧
      s'.get 2 = s.get 2 := by
  obtain ⟨-, -, hzero, hstack⟩ := access.scratch_spec
  have hsum := get_after_addressCode hzero hstack access.operands.1.reg access.operands.2 s
  refine ⟨s.afterAll access.frontCode, run_of_isRegister ram ?_ s, ?_⟩
  · cases access with
    | load rd rs1 imm =>
        rw [frontCode, constantCode]
        split <;> simp [Rv32.Instruction.isRegister]
    | store rs2 rs1 imm => simp [frontCode, Rv32.Instruction.isRegister]
  · cases access with
    | load rd rs1 imm =>
        rw [frontCode, Hart.afterAll_append, afterAll_constantCode hzero]
        exact hsum
    | store rs2 rs1 imm =>
        -- the move into `t4` behind the sum changes neither register
        have hconstant := s.afterAll_constant hzero imm
        have hmove : ∀ (t : Hart) (r : Reg), r ≠ 29 →
            (t.after (.opImm .addi 29 rs2.reg 0)).get r = t.get r := fun t r hr =>
          t.get_set_of_ne _ hr
        have hcode : s.afterAll (store rs2 rs1 imm).frontCode =
            ((s.set (store rs2 rs1 imm).scratch.2 imm).after
              (.op .add 31 rs1.reg (store rs2 rs1 imm).scratch.2)).after
                (.opImm .addi 29 rs2.reg 0) := by
          rw [← hconstant]
          rfl
        rw [hcode, hmove _ _ (by decide), hmove _ _ (by decide)]
        exact hsum

/-- **Where an access goes**: up to the access itself the lines run without a fault, and `t6` then
holds the address moved into the sandbox. -/
theorem run_sandbox (hstack : StackInRwRegion s) :
    ∃ s', runTextChecked runRandomSimulationRegions access.text s =
        executeChecked runRandomSimulationRegions access.lastCode s' ∧
      s'.get 31 = sandboxed r1Mask r2Mask (access.address s) := by
  obtain ⟨s₁, hfront, haddress, hsp⟩ := access.run_frontCode inRwRegion s
  have hslots : ∀ k ≤ 12, WordInRam inRwRegion (slot (s₁.get 2 - 16) k) := by
    intro k hk
    rw [hsp, slot]
    exact wordInRam_of_range hstack hk
  obtain ⟨s₂, hmask, hmoved, -⟩ :=
    @run_dynamicMaskCode _ _ hslots r1Mask r2Mask (by decide) (by decide)
  refine ⟨s₂, ?_, by rw [hmoved, haddress]⟩
  have hrun : runChecked runRandomSimulationRegions
      (access.frontCode ++ (saveCode ++ (maskCode r1Mask r2Mask ++ restoreCode))) s = some s₂ := by
    rw [runChecked_append, runChecked_of_run hfront, Option.bind_some, runChecked_of_run hmask]
  rw [runTextChecked, access.instructionsOf_text, Option.bind_some, ← List.append_assoc,
    runChecked_append, hrun, Option.bind_some, runChecked]
  cases executeChecked runRandomSimulationRegions access.lastCode s₂ <;> rfl

/-- The last instruction accesses the address in its register. -/
theorem add_zero_offset (address : BitVec 32) :
    address + (0 : BitVec 12).signExtend 32 = address := by
  rw [show (0 : BitVec 12).signExtend 32 = 0#32 from rfl, BitVec.add_zero]

/-- An access that chooses region 1 takes no fault. -/
theorem exists_run_of_region1 (hstack : StackInRwRegion s)
    (h : choosesRegion2 (access.address s) = false) :
    ∃ s', runTextChecked runRandomSimulationRegions access.text s = some s' := by
  obtain ⟨t, hrun, hmoved⟩ := access.run_sandbox hstack
  obtain ⟨hlo, hhi⟩ := @sandboxed_inRegion1 4 (by decide) _ (by decide) r2Mask h
  have hfour : (4 : BitVec 32).toNat = 4 := rfl
  have hregion : kDefaultRwRegionStart = 0x10000 ∧ kDefaultRwRegionLength = 0x8000 ∧
      kReservedDtcmBytes = 512 := ⟨rfl, rfl, rfl⟩
  have hword : WordInRam inRwRegion (t.get 31) := by
    rw [← hmoved] at hlo hhi
    have hbyte : ∀ k < 4, inRwRegion (t.get 31 + BitVec.ofNat 32 k) = true := by
      intro k hk
      rw [inRwRegion, decide_eq_true_eq, BitVec.toNat_add, BitVec.toNat_ofNat,
        Nat.mod_eq_of_lt (a := k) (by omega), Nat.mod_eq_of_lt (by omega)]
      omega
    exact ⟨by simpa using hbyte 0 (by omega), hbyte 1 (by omega), hbyte 2 (by omega),
      hbyte 3 (by omega)⟩
  rw [hrun]
  cases access with
  | load rd rs1 imm =>
      rw [lastCode, executeChecked, add_zero_offset,
        if_pos (hasPermission_of_wordInRam hword (Or.inl rfl))]
      exact ⟨_, rfl⟩
  | store rs2 rs1 imm =>
      rw [lastCode, executeChecked, add_zero_offset,
        if_pos (hasPermission_of_wordInRam hword (Or.inr rfl))]
      exact ⟨_, rfl⟩

/-- An access that chooses region 2 faults. -/
theorem run_eq_none_of_region2 (hstack : StackInRwRegion s)
    (h : choosesRegion2 (access.address s) = true) :
    runTextChecked runRandomSimulationRegions access.text s = none := by
  obtain ⟨t, hrun, hmoved⟩ := access.run_sandbox hstack
  obtain ⟨hlo, -⟩ := @sandboxed_inRegion2 4 (by decide) _ (by decide) r1Mask h
  rw [← hmoved] at hlo
  rw [hrun]
  cases access with
  | load rd rs1 imm =>
      rw [lastCode, executeChecked, add_zero_offset, hasPermission_of_region2 hlo,
        if_neg Bool.false_ne_true]
  | store rs2 rs1 imm =>
      rw [lastCode, executeChecked, add_zero_offset, hasPermission_of_region2 hlo,
        if_neg Bool.false_ne_true]

/-! ### Emission -/

/-- The program adds these words, and leaves strict sandboxing on. -/
def AddsStrictly (m : EngineM G Unit) (words : List Text) : Prop :=
  ∀ e u e', e.strictSandboxing = true → m.run e = some (u, e') →
    e'.words = e.words ++ words ∧ e'.strictSandboxing = true

theorem AddsStrictly.trans {m k : EngineM G Unit} {words words' : List Text}
    (hm : AddsStrictly m words) (hk : AddsStrictly k words') :
    AddsStrictly (m >>= fun _ => k) (words ++ words') := by
  intro e u e' hstrict hrun
  obtain ⟨v, e₁, hfirst, hsecond⟩ := run_bind_eq_some.1 hrun
  obtain ⟨hwords, hstrict₁⟩ := hm _ _ _ hstrict hfirst
  obtain ⟨hwords', hstrict'⟩ := hk _ _ _ hstrict₁ hsecond
  exact ⟨by rw [hwords', hwords, List.append_assoc], hstrict'⟩

/-- Under strict sandboxing the program adds these words. -/
def AddsWhenStrict (m : EngineM G Unit) (words : List Text) : Prop :=
  ∀ e u e', e.strictSandboxing = true → m.run e = some (u, e') → e'.words = e.words ++ words

theorem AddsWhenStrict.bind {m k : EngineM G Unit} {words words' : List Text}
    (hm : AddsWhenStrict m words) (hk : AddsWords k words') :
    AddsWhenStrict (m >>= fun _ => k) (words ++ words') := by
  intro e u e' hstrict hrun
  obtain ⟨v, e₁, hfirst, hsecond⟩ := run_bind_eq_some.1 hrun
  rw [hk _ _ _ hsecond, hm _ _ _ hstrict hfirst, List.append_assoc]

theorem AddsStrictly.bind {m k : EngineM G Unit} {words words' : List Text}
    (hm : AddsStrictly m words) (hk : AddsWhenStrict k words') :
    AddsWhenStrict (m >>= fun _ => k) (words ++ words') := by
  intro e u e' hstrict hrun
  obtain ⟨v, e₁, hfirst, hsecond⟩ := run_bind_eq_some.1 hrun
  obtain ⟨hwords, hstrict₁⟩ := hm _ _ _ hstrict hfirst
  rw [hk _ _ _ hstrict₁ hsecond, hwords, List.append_assoc]

theorem addsStrictly_pure : AddsStrictly (pure () : EngineM G Unit) [] := by
  intro e u e' hstrict hrun
  cases hrun
  exact ⟨(List.append_nil _).symm, hstrict⟩

theorem addsStrictly_emitInstructionFormat {line : Text} (h : PlainLine line) :
    AddsStrictly (emitInstructionFormat line : EngineM G Unit) [line] := by
  intro e u e' hstrict hrun
  obtain ⟨hwords, hsame⟩ := run_emitInstructionFormatBody_eq_some h hrun
  exact ⟨hwords, hsame.trans hstrict⟩

theorem addsStrictly_emitConstant {reg : String} (hreg : IsOperand reg.toList)
    (value : BitVec 32) :
    AddsStrictly (emitConstant reg value : EngineM G Unit) (constantText reg value) := by
  rw [emitConstant, constantText, ← List.singleton_append]
  refine .trans (addsStrictly_emitInstructionFormat (plainLine_lui hreg _)) ?_
  split
  · exact addsStrictly_emitInstructionFormat (plainLine_addi hreg _)
  · exact addsStrictly_pure

theorem plainLine_addressLine {rs1 scratch : Text} (hrs1 : IsOperand rs1)
    (hscratch : IsOperand scratch) : PlainLine (addressLine rs1 scratch) := by
  have hline : addressLine rs1 scratch = 'a' :: ("dd t6, ".toList ++ rs1 ++ ", ".toList) ++
      scratch := by
    unfold addressLine
    simp
  have hnewline := newline_not_mem hrs1.isWord
  rw [hline]
  refine plainLine_append (by decide) ?_ hscratch
  simp [hnewline, hrs1.nul]

theorem plainLine_moveLine {rs2 : Text} (hrs2 : IsOperand rs2) :
    PlainLine (moveLine "t4".toList rs2) := by
  have hline : moveLine "t4".toList rs2 =
      'a' :: ("ddi t4, ".toList ++ rs2 ++ ", ".toList) ++ "0".toList := by
    unfold moveLine
    simp
  have hzero : IsOperand "0".toList := ⟨by decide, by decide, by decide⟩
  have hnewline := newline_not_mem hrs2.isWord
  rw [hline]
  refine plainLine_append (by decide) ?_ hzero
  simp [hnewline, hrs2.nul]

theorem plainLine_lastLine (access : SandboxedAccess) : PlainLine access.lastLine := by
  cases access with
  | load rd rs1 imm =>
      have hline : lastLine (load rd rs1 imm) =
          'l' :: ("w ".toList ++ rd.text ++ ", 0(t6)".toList) := by
        unfold lastLine
        simp
      have hnewline := newline_not_mem rd.isOperand.isWord
      rw [hline]
      refine @plainLine_of_ends 'l' ')' _ (by decide) ?_ (by decide) ?_ ?_
      · rw [← List.cons_append, List.getLast?_append]
        rfl
      · simp [hnewline]
      · simp [rd.isOperand.nul]
  | store rs2 rs1 imm =>
      have hstore : PlainLine "sw t4, 0(t6)".toList := by decide
      exact hstore

/-- The sandbox. -/
theorem addsWhenStrict_emitDynamicMask (offsetSize : BitVec 32) :
    AddsWhenStrict (emitDynamicMask offsetSize : EngineM G Unit) (dynamicMaskText offsetSize) := by
  intro e u e' hstrict hrun
  obtain ⟨strict, e₁, hread, hrun⟩ := run_bind_eq_some.1 hrun
  cases hread
  rw [hstrict, if_pos rfl] at hrun
  exact addsWords_emitDynamicMaskLines offsetSize _ _ _ hrun

/-- The scratch register of the load, as the source chooses it. -/
theorem scratch_load (rd rs1 : RegisterName) (imm : BitVec 32) :
    (load rd rs1 imm).scratch.1 = if rs1.text = "t6".toList then "t1" else "t6" := by
  rw [scratch]
  split <;> rfl

/-- The scratch register of the store. -/
theorem scratch_store (rs2 rs1 : RegisterName) (imm : BitVec 32) : (store rs2 rs1 imm).scratch.1 =
    if rs1.text = "t1".toList ∨ rs2.text = "t1".toList then
      if rs1.text = "t2".toList ∨ rs2.text = "t2".toList then "t3" else "t2"
    else "t1" := by
  rw [scratch]
  split
  · split <;> rfl
  · rfl

/-- **The engine emits the lines of an access.** -/
theorem addsWhenStrict_emit (access : SandboxedAccess) :
    AddsWhenStrict (access.emit : EngineM G Unit) access.text := by
  obtain ⟨hoperand, -, -, -⟩ := access.scratch_spec
  have hback := (addsWhenStrict_emitDynamicMask (G := G) 4).bind
    (addsWords_emitInstructionFormat access.plainLine_lastLine)
  have haddress : ∀ rs1 : RegisterName, AddsStrictly (emitInstructionFormat
      (addressLine rs1.text access.scratch.1.toList) : EngineM G Unit)
        [addressLine rs1.text access.scratch.1.toList] := fun rs1 =>
    addsStrictly_emitInstructionFormat (plainLine_addressLine rs1.isOperand hoperand)
  cases access with
  | load rd rs1 imm =>
      have hload :=
        (addsStrictly_emitConstant (G := G) hoperand imm).bind ((haddress rs1).bind hback)
      rw [← List.append_assoc] at hload
      rw [emit, emitLoad, ← scratch_load rd rs1 imm]
      exact hload
  | store rs2 rs1 imm =>
      have hlui := addsStrictly_emitInstructionFormat (G := G)
        (plainLine_lui hoperand (upperPart imm).toNat)
      have haddi := addsStrictly_emitInstructionFormat (G := G)
        (plainLine_addi hoperand (lowerPart imm))
      have hmove := addsStrictly_emitInstructionFormat (G := G) (plainLine_moveLine rs2.isOperand)
      have hstore := hlui.bind (haddi.bind ((haddress rs1).bind (hmove.bind hback)))
      rw [emit, emitStore, ← scratch_store rs2 rs1 imm]
      exact hstore

/-- The call stays inside the buffer. -/
theorem bufferIntact_emit (access : SandboxedAccess) {e e' : IsgEngine G} {u : Unit}
    (hrun : access.emit.run e = some (u, e')) (hroom : HasRoom e) (hfit : UncheckedFit e') :
    BufferIntact e' := by
  have hemission : Emission (access.emit : EngineM G Unit) := by
    cases access with
    | load rd rs1 imm => exact .emitLoad rd.text rs1.text imm
    | store rs2 rs1 imm => exact .emitStore rs2.text rs1.text imm
  exact ((hemission.relates_bufferStep e u e' hrun).2 hfit hroom).2

/-- The call in the text of the program. -/
theorem assemble_emit (access : SandboxedAccess) {e e' : IsgEngine G} {u : Unit}
    (hstrict : e.strictSandboxing = true) (hrun : access.emit.run e = some (u, e'))
    (hroom : HasRoom e) (hfit : UncheckedFit e') :
    assemble e'.text = assemble e.text ++ access.text := by
  rw [assemble_text (access.bufferIntact_emit hrun hroom hfit), assemble_text hroom.2]
  exact access.addsWhenStrict_emit e u e' hstrict hrun

end SandboxedAccess

/-- **Which accesses are permitted**: those whose address chooses region 1. -/
theorem isPermitted_iff (G : Prng) (access : SandboxedAccess) {s : Hart}
    (hstack : StackInRwRegion s) :
    IsPermitted G access s ↔ choosesRegion2 (access.address s) = false := by
  constructor
  · rintro ⟨-, s', hrun⟩
    by_contra h
    rw [Bool.not_eq_false] at h
    rw [access.run_eq_none_of_region2 hstack h] at hrun
    cases hrun
  · intro h
    exact ⟨fun e u e' hstrict hrun hroom hfit => access.assemble_emit hstrict hrun hroom hfit,
      access.exists_run_of_region1 hstack h⟩

/-- The register `t1`. -/
def registerT1 : RegisterName :=
  ⟨"t1".toList, 6, by decide, ⟨by decide, by decide, by decide⟩⟩

/-- A load from an address in `t1`, with the stack pointer in region 1. -/
theorem isPermitted_iff_region1 :
    let s : Hart := ⟨fun r => if r = 2 then 0x10100 else 0x4000, fun _ => 0⟩
    IsPermitted mt19937_64 (.load registerT1 registerT1 0) s ↔
      choosesRegion2 ((SandboxedAccess.load registerT1 registerT1 0).address s) = false :=
  isPermitted_iff mt19937_64 _ (by decide)

/-- A load from region 2. -/
theorem not_isPermitted_region2 :
    ¬ ∀ (access : SandboxedAccess) (s : Hart), StackInRwRegion s →
      IsPermitted mt19937_64 access s := by
  intro h
  have hstack : StackInRwRegion ⟨fun r => if r = 2 then 0x10100 else 0x20000000, fun _ => 0⟩ := by
    decide
  obtain ⟨-, s', hrun⟩ := h (.load registerT1 registerT1 0) _ hstack
  rw [SandboxedAccess.run_eq_none_of_region2 _ hstack (by decide)] at hrun
  cases hrun

end CoralNpu
