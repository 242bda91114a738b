/-
**The linking jumps.**

`jal` and `jalr` are wrapped too: the wrapper computes the target, asks whether four bytes can be
executed there, and raises an instruction access fault otherwise.  The jump itself computes its
target again, in the simulator library.  On a fault `jalr` still writes the link, in a path of its
own, and `jal` does not.

Main definitions:

* `CoralNpu.isJumpAllowed` — the check;
* `CoralNpu.coralNPUV2Jal`, `CoralNpu.coralNPUV2Jalr` — the wrappers;
* `CoralNpu.JumpsOrFaults` — control goes to the target, or the jump faults there;
* `CoralNpu.Links` — the address of the following instruction is linked.

Main results:

* `CoralNpu.jumpsOrFaults_of_checked` — when a checked jump goes to its target;
* `CoralNpu.linkingJumps` — **where the linking jumps go, and when they link**.
-/

import CoralNpu.CoralNpuScalarAccess

set_option relaxedAutoImplicit false
set_option autoImplicit false

namespace CoralNpu

open CodeImage (Word)

/-- `kCoralNPUV2InstructionSize`. -/
def kCoralNPUV2InstructionSize : Word := 4

section Wrappers

variable {ψ : Type} {file : CsrFile ψ}

/-- `IsJumpAllowed`. -/
def isJumpAllowed (address : Word) (faultExceptionCode : ExceptionCode) (s : ScalarState ψ) :
    Bool × ScalarState ψ :=
  if !s.hasPermission address kCoralNPUV2InstructionSize .execute then
    (false, s.trap false address faultExceptionCode address)
  else
    (true, s)

/-- `CoralNPUV2Jal` at this address. -/
def coralNPUV2Jal (mpact : SemanticFunctions file) (address : Word) (rd : BitVec 5) (offset : Word)
    (s : ScalarState ψ) : ScalarState ψ :=
  match isJumpAllowed (address + offset) .instructionAccessFault s with
  | (true, s) =>
    { s with riscv := mpact.apply .riscVIJal address [offset] [.nextPc, .x rd] s.riscv }
  | (false, s) => s

/-- `CoralNPUV2Jalr` at this address. -/
def coralNPUV2Jalr (mpact : SemanticFunctions file) (address : Word) (rs1 rd : BitVec 5)
    (offset : Word) (s : ScalarState ψ) : ScalarState ψ :=
  let base := s.riscv.readX rs1
  match isJumpAllowed (base + offset) .instructionAccessFault s with
  | (true, s) =>
    { s with riscv := mpact.apply .riscVIJalr address [base, offset] [.nextPc, .x rd] s.riscv }
  -- the destination is written here as well, after the trap
  | (false, s) => { s with riscv := s.riscv.writeX rd (address + 4) }

end Wrappers

/-! ### Jumps and links -/

section Jumps

variable {ψ : Type} {file : CsrFile ψ}

/-- Four bytes at the target can be executed. -/
def TargetAllowed (s : ScalarState ψ) (target : Word) : Prop :=
  s.hasPermission target kCoralNPUV2InstructionSize .execute = true

instance (s : ScalarState ψ) (target : Word) : Decidable (TargetAllowed s target) :=
  inferInstanceAs (Decidable (_ = true))

/-- A step with a fault of a jump. -/
def JumpFaults (s s' : ScalarState ψ) : Prop :=
  RaisesFault .instructionAccessFault s.toCoralNPUV2State s'.toCoralNPUV2State

/-- **Control goes to the target, or the jump faults there**: exactly when the target cannot be
executed, with the target as the trap value and as `epc`. -/
structure JumpsOrFaults (target : Word) (s s' : ScalarState ψ) : Prop where
  faults_iff : JumpFaults s s' ↔ ¬ TargetAllowed s target
  fault : JumpFaults s s' → s'.traps = s.traps ++ [⟨false, target, .instructionAccessFault, target⟩]
  jump : ¬ JumpFaults s s' → s'.riscv.pc = target ∧ s'.toCoralNPUV2State = s.toCoralNPUV2State

/-- The integer registers are those before, with this link in `rd`. -/
def Links (address : Word) (rd : BitVec 5) (s s' : ScalarState ψ) : Prop :=
  s'.riscv.x = (s.riscv.writeX rd (address + 4)).x

@[simp] theorem RiscVState.writePc_x (value : Word) (s : RiscVState ψ) :
    (s.writePc value).x = s.x := rfl

@[simp] theorem RiscVState.writePc_pc (value : Word) (s : RiscVState ψ) :
    (s.writePc value).pc = value := rfl

theorem isJumpAllowed_of_allowed {address : Word} {code : ExceptionCode} {s : ScalarState ψ}
    (h : TargetAllowed s address) : isJumpAllowed address code s = (true, s) := by
  rw [isJumpAllowed, show s.hasPermission address kCoralNPUV2InstructionSize .execute = true from h]
  rfl

theorem isJumpAllowed_of_not_allowed {address : Word} {code : ExceptionCode} {s : ScalarState ψ}
    (h : ¬ TargetAllowed s address) :
    isJumpAllowed address code s = (false, s.trap false address code address) := by
  rw [isJumpAllowed, if_pos (by simpa [TargetAllowed] using h)]

/-- **A checked jump**: it goes to its target or faults there, if the check is one of the target or
allows both. -/
theorem jumpsOrFaults_of_checked (checked : Word) {target : Word} {s s' : ScalarState ψ}
    (hchecked : checked = target ∨ TargetAllowed s checked ∧ TargetAllowed s target)
    (hjump : TargetAllowed s checked →
      s'.riscv.pc = target ∧ s'.toCoralNPUV2State = s.toCoralNPUV2State)
    (hfault : ¬ TargetAllowed s checked →
      s'.traps = s.traps ++ [⟨false, checked, .instructionAccessFault, checked⟩]) :
    JumpsOrFaults target s s' := by
  have hiff : TargetAllowed s checked ↔ TargetAllowed s target := by
    rcases hchecked with rfl | ⟨h, h'⟩
    · exact Iff.rfl
    · exact iff_of_true h h'
  have hfaults : JumpFaults s s' ↔ ¬ TargetAllowed s checked :=
    raisesFault_iff checked checked (fun hallowed => congrArg _ (hjump hallowed).2) hfault
  refine ⟨by rw [hfaults, hiff], fun h => ?_, fun h => hjump (by simpa [hfaults] using h)⟩
  -- a check that allows both does not fault
  obtain rfl : checked = target := hchecked.resolve_right fun hboth => hfaults.1 h hboth.1
  exact hfault (hfaults.1 h)

/-- What `jal` does where it is allowed to. -/
theorem coralNPUV2Jal_of_allowed (mpact : SemanticFunctions file) {address offset : Word}
    {rd : BitVec 5} {s : ScalarState ψ} (h : TargetAllowed s (address + offset)) :
    coralNPUV2Jal mpact address rd offset s =
      { s with riscv := (s.riscv.writeX rd (address + 4)).writePc (address + offset) } := by
  rw [coralNPUV2Jal, isJumpAllowed_of_allowed h]
  simp only [mpact.jal_eq]

theorem coralNPUV2Jal_of_not_allowed (mpact : SemanticFunctions file) {address offset : Word}
    {rd : BitVec 5} {s : ScalarState ψ} (h : ¬ TargetAllowed s (address + offset)) :
    coralNPUV2Jal mpact address rd offset s =
      s.trap false (address + offset) .instructionAccessFault (address + offset) := by
  rw [coralNPUV2Jal, isJumpAllowed_of_not_allowed h]

/-- What `jalr` does where it is allowed to. -/
theorem coralNPUV2Jalr_of_allowed (mpact : SemanticFunctions file) {address offset : Word}
    {rs1 rd : BitVec 5} {s : ScalarState ψ} (h : TargetAllowed s (s.riscv.readX rs1 + offset)) :
    coralNPUV2Jalr mpact address rs1 rd offset s =
      { s with
        riscv := (s.riscv.writeX rd (address + 4)).writePc
          ((s.riscv.readX rs1 + offset) &&& ~~~1) } := by
  rw [coralNPUV2Jalr, isJumpAllowed_of_allowed h]
  simp only [mpact.jalr_eq]

theorem coralNPUV2Jalr_of_not_allowed (mpact : SemanticFunctions file) {address offset : Word}
    {rs1 rd : BitVec 5} {s : ScalarState ψ} (h : ¬ TargetAllowed s (s.riscv.readX rs1 + offset)) :
    coralNPUV2Jalr mpact address rs1 rd offset s =
      { s.trap false (s.riscv.readX rs1 + offset) .instructionAccessFault
        (s.riscv.readX rs1 + offset) with
        riscv := s.riscv.writeX rd (address + 4) } := by
  rw [coralNPUV2Jalr, isJumpAllowed_of_not_allowed h]
  rfl

/-- `jal` goes to its target or faults there. -/
theorem jumpsOrFaults_jal (mpact : SemanticFunctions file) (address : Word) (rd : BitVec 5)
    (offset : Word) (s : ScalarState ψ) :
    JumpsOrFaults (address + offset) s (coralNPUV2Jal mpact address rd offset s) := by
  refine jumpsOrFaults_of_checked _ (Or.inl rfl) (fun h => ?_) (fun h => ?_)
  · rw [coralNPUV2Jal_of_allowed mpact h]
    exact ⟨rfl, rfl⟩
  · rw [coralNPUV2Jal_of_not_allowed mpact h]
    rfl

/-- `jalr` does, when the sum is even, or when both it and the target can be executed. -/
theorem jumpsOrFaults_jalr (mpact : SemanticFunctions file) (address : Word) (rs1 rd : BitVec 5)
    (offset : Word) (s : ScalarState ψ) (h : (s.riscv.readX rs1 + offset) &&& 1 = 0 ∨
      TargetAllowed s (s.riscv.readX rs1 + offset) ∧
      TargetAllowed s ((s.riscv.readX rs1 + offset) &&& ~~~1)) :
    JumpsOrFaults ((s.riscv.readX rs1 + offset) &&& ~~~1) s
      (coralNPUV2Jalr mpact address rs1 rd offset s) := by
  refine jumpsOrFaults_of_checked (s.riscv.readX rs1 + offset) ?_ (fun h => ?_) (fun h => ?_)
  · rcases h with heven | hboth
    · refine Or.inl (BitVec.eq_of_getLsbD_eq fun i hi => ?_)
      have hbit := congrArg (fun x => BitVec.getLsbD x i) heven
      simp only [BitVec.getLsbD_and, BitVec.getLsbD_not, hi, decide_true, Bool.true_and] at hbit ⊢
      cases hone : BitVec.getLsbD (1 : Word) i
      · simp
      · rw [hone, Bool.and_true] at hbit
        simp [hbit]
    · exact Or.inr hboth
  · rw [coralNPUV2Jalr_of_allowed mpact h]
    exact ⟨rfl, rfl⟩
  · rw [coralNPUV2Jalr_of_not_allowed mpact h]
    rfl

/-- `jal` links if it jumps, and leaves the registers as they are if it faults. -/
theorem links_jal (mpact : SemanticFunctions file) (address : Word) (rd : BitVec 5) (offset : Word)
    (s : ScalarState ψ) :
    (¬ JumpFaults s (coralNPUV2Jal mpact address rd offset s) →
      Links address rd s (coralNPUV2Jal mpact address rd offset s)) ∧
    (JumpFaults s (coralNPUV2Jal mpact address rd offset s) →
      (coralNPUV2Jal mpact address rd offset s).riscv.x = s.riscv.x) := by
  rw [(jumpsOrFaults_jal mpact address rd offset s).faults_iff, not_not]
  constructor
  · intro h
    rw [coralNPUV2Jal_of_allowed mpact h]
    rfl
  · intro h
    rw [coralNPUV2Jal_of_not_allowed mpact h]
    rfl

/-- `jalr` links in both paths. -/
theorem links_jalr (mpact : SemanticFunctions file) (address : Word) (rs1 rd : BitVec 5)
    (offset : Word) (s : ScalarState ψ) :
    Links address rd s (coralNPUV2Jalr mpact address rs1 rd offset s) := by
  by_cases h : TargetAllowed s (s.riscv.readX rs1 + offset)
  · rw [coralNPUV2Jalr_of_allowed mpact h]
    rfl
  · rw [coralNPUV2Jalr_of_not_allowed mpact h]
    rfl

/-- **Where the linking jumps go, and when they link.**  `jal` links if it jumps; `jalr` links in
any case, and goes to its target or faults there when the sum that it checks is even, or the check
allows both. -/
theorem linkingJumps (mpact : SemanticFunctions file) :
    (∀ (address : Word) (rd : BitVec 5) (offset : Word) (s : ScalarState ψ),
      JumpsOrFaults (address + offset) s (coralNPUV2Jal mpact address rd offset s) ∧
      (¬ JumpFaults s (coralNPUV2Jal mpact address rd offset s) →
        Links address rd s (coralNPUV2Jal mpact address rd offset s)) ∧
      (JumpFaults s (coralNPUV2Jal mpact address rd offset s) →
        (coralNPUV2Jal mpact address rd offset s).riscv.x = s.riscv.x)) ∧
    ∀ (address : Word) (rs1 rd : BitVec 5) (offset : Word) (s : ScalarState ψ),
      Links address rd s (coralNPUV2Jalr mpact address rs1 rd offset s) ∧
      ((s.riscv.readX rs1 + offset) &&& 1 = 0 ∨
          TargetAllowed s (s.riscv.readX rs1 + offset) ∧
          TargetAllowed s ((s.riscv.readX rs1 + offset) &&& ~~~1) →
        JumpsOrFaults ((s.riscv.readX rs1 + offset) &&& ~~~1) s
          (coralNPUV2Jalr mpact address rs1 rd offset s)) :=
  ⟨fun address rd offset s =>
    ⟨jumpsOrFaults_jal mpact address rd offset s, links_jal mpact address rd offset s⟩,
    fun address rs1 rd offset s =>
      ⟨links_jalr mpact address rs1 rd offset s, jumpsOrFaults_jalr mpact address rs1 rd offset s⟩⟩

end Jumps

/-- No control and status registers. -/
def noCsrs : CsrFile Unit where
  read _ s := (0, s)
  write _ _ s := s

/-- **A `jal` that faults does not link.** -/
theorem not_links_jal_fault : ¬ (JumpsOrFaults (0x100 + 0x2000) atEndOfDtcm
      (coralNPUV2Jal (SemanticFunctions.ofLaws noCsrs) 0x100 5 0x2000 atEndOfDtcm) ∧
    Links 0x100 5 atEndOfDtcm
      (coralNPUV2Jal (SemanticFunctions.ofLaws noCsrs) 0x100 5 0x2000 atEndOfDtcm)) := by
  rintro ⟨-, hlinks⟩
  rw [coralNPUV2Jal_of_not_allowed _ (by decide)] at hlinks
  exact absurd (congrFun hlinks 5) (by decide)

end CoralNpu
