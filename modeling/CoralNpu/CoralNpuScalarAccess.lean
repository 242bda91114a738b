/-
**The access check of the scalar loads and stores.**

The loads and stores of the instruction set are wrapped: the wrapper asks for the permission of the
access, raises an access fault when it is refused, and hands the instruction on to the simulator
library otherwise. How many bytes it asks for is a template argument of the check, and how many are
accessed is one of the library function, so each wrapper names the width twice.

Main definitions:

* `CoralNpu.ScalarState` — the simulator state with the scalar registers;
* `CoralNpu.accessCheck` — the check, for a register type and a value type;
* `CoralNpu.ScalarMemoryOpcode.execute` — the loads and stores;
* `CoralNpu.FaultsExactly` — an access faults exactly when the bytes it would access are refused.

Main results:

* `CoralNpu.execute_eq` — what a load or a store does;
* `CoralNpu.faultsExactly_iff` — **every load and store faults exactly when it should, `fsw` as long
  as eight bytes there are permitted like its four**.
-/

import CoralNpu.SimulatorState
import CoralNpu.FlatMemory
import CoralNpu.CoralNpuBaseIsa

set_option relaxedAutoImplicit false
set_option autoImplicit false

namespace CoralNpu

open CodeImage (Word)

/-! ### The state -/

/-- The simulator state with the scalar registers: those of the base instructions and the
floating-point registers, which have 64 bits. -/
structure ScalarState (ψ : Type) extends CoralNPUV2State where
  riscv : RiscVState ψ
  f : BitVec 5 → BitVec 64

/-- The operands of a load or a store, and its address. -/
structure ScalarMemoryInst where
  address : Word
  rs1 : BitVec 5
  /-- the immediate, an `int32_t` -/
  offset : Word
  /-- the register that is loaded or stored -/
  reg : BitVec 5

/-- The step raises this fault. -/
def RaisesFault (code : ExceptionCode) (s s' : CoralNPUV2State) : Prop :=
  ∃ trapValue epc, s'.traps = s.traps ++ [⟨false, trapValue, code, epc⟩]

theorem not_raisesFault_of_traps_eq {code : ExceptionCode} {s s' : CoralNPUV2State}
    (h : s'.traps = s.traps) : ¬ RaisesFault code s s' := by
  rintro ⟨trapValue, epc, hraised⟩
  rw [h] at hraised
  exact absurd hraised (by simp)

/-- A step that raises this fault or none, by an answer. -/
theorem raisesFault_iff {code : ExceptionCode} (trapValue epc : Word) {s s' : CoralNPUV2State}
    {allowed : Prop} (hdone : allowed → s'.traps = s.traps)
    (hfault : ¬ allowed → s'.traps = s.traps ++ [⟨false, trapValue, code, epc⟩]) :
    RaisesFault code s s' ↔ ¬ allowed := by
  constructor
  · intro hraised hallowed
    exact not_raisesFault_of_traps_eq (hdone hallowed) hraised
  · exact fun hnot => ⟨trapValue, epc, hfault hnot⟩

namespace ScalarState

variable {ψ : Type}

/-- `Trap`; the trap value goes to a register of 32 bits. -/
def trap (s : ScalarState ψ) (isInterrupt : Bool) (trapValue : Word) (exceptionCode : ExceptionCode)
    (epc : Word) : ScalarState ψ :=
  { s with toCoralNPUV2State := s.toCoralNPUV2State.trap isInterrupt trapValue exceptionCode epc }

/-- The base plus the offset. -/
def effectiveAddress (s : ScalarState ψ) (inst : ScalarMemoryInst) : Word :=
  s.riscv.readX inst.rs1 + inst.offset

end ScalarState

/-! ### The library -/

/-- The loads and stores of the simulator library, by the number of bytes of their value type.  A
load changes registers, through the child of the instruction; a store writes its value at the base
plus the offset. -/
structure RiscVLoadStore (ψ : Type) where
  rvLoad : ℕ → ScalarMemoryInst → ScalarState ψ → ScalarState ψ
  rvStore : ℕ → ScalarMemoryInst → ScalarState ψ → ScalarState ψ
  riscVFSw : ScalarMemoryInst → ScalarState ψ → ScalarState ψ
  rvLoad_eq : ∀ size inst s, ∃ riscv f, rvLoad size inst s = { s with riscv := riscv, f := f }
  rvStore_eq : ∀ size inst s, ∃ bytes, bytes.length = size ∧ rvStore size inst s =
    { s with memory := FlatMemory.write s.memory (s.effectiveAddress inst) bytes }
  riscVFSw_eq : ∀ inst s, ∃ bytes, bytes.length = 4 ∧ riscVFSw inst s =
    { s with memory := FlatMemory.write s.memory (s.effectiveAddress inst) bytes }

/-! ### The wrappers -/

section Wrappers

variable {ψ : Type}

/-- `AccessCheck<Register, ValueType>`: the address is computed in the width of the register
type. -/
def accessCheck (regBits valueSize : ℕ) (inst : ScalarMemoryInst)
    (faultExceptionCode : ExceptionCode) (s : ScalarState ψ) : Bool × ScalarState ψ :=
  let base : BitVec regBits := (s.riscv.readX inst.rs1).setWidth regBits
  let offset : BitVec regBits := inst.offset.signExtend regBits
  let address := base + offset
  let permission : MemoryPermission :=
    if faultExceptionCode = .loadAccessFault then .read else .write
  if !s.hasPermission (address.setWidth 32) (BitVec.ofNat 32 valueSize) permission then
    (false, s.trap false (address.setWidth 32) faultExceptionCode inst.address)
  else
    (true, s)

/-- A wrapper: the check, and the function of the library. -/
def checkedAccess (regBits valueSize : ℕ) (faultExceptionCode : ExceptionCode)
    (operation : ScalarMemoryInst → ScalarState ψ → ScalarState ψ) (inst : ScalarMemoryInst)
    (s : ScalarState ψ) : ScalarState ψ :=
  match accessCheck regBits valueSize inst faultExceptionCode s with
  | (true, s) => operation inst s
  | (false, s) => s

variable (mpact : RiscVLoadStore ψ)

def coralNPUV2Lw := checkedAccess 32 4 .loadAccessFault (mpact.rvLoad 4)
def coralNPUV2Lh := checkedAccess 32 2 .loadAccessFault (mpact.rvLoad 2)
def coralNPUV2Lhu := checkedAccess 32 2 .loadAccessFault (mpact.rvLoad 2)
def coralNPUV2Lb := checkedAccess 32 1 .loadAccessFault (mpact.rvLoad 1)
def coralNPUV2Lbu := checkedAccess 32 1 .loadAccessFault (mpact.rvLoad 1)
def coralNPUV2Sw := checkedAccess 32 4 .storeAccessFault (mpact.rvStore 4)
def coralNPUV2Sh := checkedAccess 32 2 .storeAccessFault (mpact.rvStore 2)
def coralNPUV2Sb := checkedAccess 32 1 .storeAccessFault (mpact.rvStore 1)

/-- `CoralNPUV2Fsw` checks with the type of a floating-point register and a value of 64 bits. -/
def coralNPUV2Fsw := checkedAccess 64 8 .storeAccessFault mpact.riscVFSw

end Wrappers

/-! ### The instruction set -/

/-- The scalar loads and stores. -/
inductive ScalarMemoryOpcode where
  | lb | lbu | lh | lhu | lw | sb | sh | sw | flw | fsw
  deriving DecidableEq

namespace ScalarMemoryOpcode

/-- How many bytes the instruction accesses. -/
def accessWidth : ScalarMemoryOpcode → ℕ
  | lb | lbu | sb => 1
  | lh | lhu | sh => 2
  | lw | sw | flw | fsw => 4

/-- The fault the instruction raises. -/
def fault : ScalarMemoryOpcode → ExceptionCode
  | lb | lbu | lh | lhu | lw | flw => .loadAccessFault
  | sb | sh | sw | fsw => .storeAccessFault

/-- The permission the instruction needs. -/
def permission : ScalarMemoryOpcode → MemoryPermission
  | lb | lbu | lh | lhu | lw | flw => .read
  | sb | sh | sw | fsw => .write

/-- How many bytes its wrapper asks for. -/
def checkedWidth : ScalarMemoryOpcode → ℕ
  | fsw => 8
  | op => op.accessWidth

variable {ψ : Type} (mpact : RiscVLoadStore ψ)

/-- The semantic functions of the instruction set description; `flw` is `lw` with another child. -/
def execute : ScalarMemoryOpcode → ScalarMemoryInst → ScalarState ψ → ScalarState ψ
  | lb => coralNPUV2Lb mpact
  | lbu => coralNPUV2Lbu mpact
  | lh => coralNPUV2Lh mpact
  | lhu => coralNPUV2Lhu mpact
  | lw | flw => coralNPUV2Lw mpact
  | sb => coralNPUV2Sb mpact
  | sh => coralNPUV2Sh mpact
  | sw => coralNPUV2Sw mpact
  | fsw => coralNPUV2Fsw mpact

/-- The function of the library behind the wrapper. -/
def operation : ScalarMemoryOpcode → ScalarMemoryInst → ScalarState ψ → ScalarState ψ
  | lb | lbu => mpact.rvLoad 1
  | lh | lhu => mpact.rvLoad 2
  | lw | flw => mpact.rvLoad 4
  | sb => mpact.rvStore 1
  | sh => mpact.rvStore 2
  | sw => mpact.rvStore 4
  | fsw => mpact.riscVFSw

end ScalarMemoryOpcode

/-! ### What an access does -/

section Execute

variable {ψ : Type} {mpact : RiscVLoadStore ψ} {op : ScalarMemoryOpcode} {inst : ScalarMemoryInst}
    {s : ScalarState ψ}

/-- In either width the check asks at the effective address. -/
theorem setWidth_address {regBits : ℕ} (h : 32 ≤ regBits) (base offset : Word) :
    (base.setWidth regBits + offset.signExtend regBits).setWidth 32 = base + offset := by
  have hoffset : (offset.signExtend regBits).setWidth 32 = offset := by
    refine BitVec.eq_of_getLsbD_eq fun i hi => ?_
    have hlt : i < regBits := by omega
    rw [BitVec.getLsbD_setWidth, BitVec.getLsbD_signExtend]
    simp only [hi, hlt, decide_true, Bool.true_and, if_true]
  rw [BitVec.setWidth_add _ _ h, BitVec.setWidth_setWidth_of_le _ h, BitVec.setWidth_eq, hoffset]

/-- **A wrapper**: the library function runs when the bytes asked for are permitted. -/
theorem checkedAccess_eq {regBits valueSize : ℕ} (h : 32 ≤ regBits) {code : ExceptionCode}
    {permission : MemoryPermission}
    (hpermission : (if code = .loadAccessFault then .read else .write) = permission)
    (operation : ScalarMemoryInst → ScalarState ψ → ScalarState ψ) :
    checkedAccess regBits valueSize code operation inst s =
      if s.hasPermission (s.effectiveAddress inst) (BitVec.ofNat 32 valueSize) permission then
        operation inst s
      else s.trap false (s.effectiveAddress inst) code inst.address := by
  simp only [checkedAccess, accessCheck, hpermission, setWidth_address h]
  rw [show s.riscv.readX inst.rs1 + inst.offset = s.effectiveAddress inst from rfl]
  cases s.hasPermission (s.effectiveAddress inst) (BitVec.ofNat 32 valueSize) permission <;> rfl

/-- **What a load or a store does**: the function of the library, when the wrapper gets its
permission. -/
theorem execute_eq (mpact : RiscVLoadStore ψ) (op : ScalarMemoryOpcode) (inst : ScalarMemoryInst)
    (s : ScalarState ψ) : op.execute mpact inst s =
      if s.hasPermission (s.effectiveAddress inst)
        (BitVec.ofNat 32 op.checkedWidth) op.permission then
        op.operation mpact inst s
      else s.trap false (s.effectiveAddress inst) op.fault inst.address := by
  cases op
  case fsw => exact checkedAccess_eq (by decide) rfl _
  all_goals exact checkedAccess_eq le_rfl rfl _

/-- The functions of the library raise nothing, and write no more bytes than the access has. -/
theorem operation_memory (mpact : RiscVLoadStore ψ) (op : ScalarMemoryOpcode)
    (inst : ScalarMemoryInst) (s : ScalarState ψ) : (op.operation mpact inst s).traps = s.traps ∧
      ((op.operation mpact inst s).memory = s.memory ∨ ∃ bytes, bytes.length = op.accessWidth ∧
        (op.operation mpact inst s).memory =
          FlatMemory.write s.memory (s.effectiveAddress inst) bytes) := by
  have hload : ∀ size, (mpact.rvLoad size inst s).traps = s.traps ∧
      (mpact.rvLoad size inst s).memory = s.memory := by
    intro size
    obtain ⟨riscv, f, heq⟩ := mpact.rvLoad_eq size inst s
    rw [heq]
    exact ⟨rfl, rfl⟩
  have hstore : ∀ size, (mpact.rvStore size inst s).traps = s.traps ∧ ∃ bytes, bytes.length = size ∧
      (mpact.rvStore size inst s).memory =
        FlatMemory.write s.memory (s.effectiveAddress inst) bytes := by
    intro size
    obtain ⟨bytes, hlength, heq⟩ := mpact.rvStore_eq size inst s
    rw [heq]
    exact ⟨rfl, bytes, hlength, rfl⟩
  cases op
  case fsw =>
    obtain ⟨bytes, hlength, heq⟩ := mpact.riscVFSw_eq inst s
    rw [show ScalarMemoryOpcode.operation mpact .fsw inst s = mpact.riscVFSw inst s from rfl, heq]
    exact ⟨rfl, Or.inr ⟨bytes, hlength, rfl⟩⟩
  case sb | sh | sw => exact ⟨(hstore _).1, Or.inr (hstore _).2⟩
  all_goals exact ⟨(hload _).1, Or.inl (hload _).2⟩

end Execute

/-! ### Faults -/

section Faults

variable {ψ : Type}

/-- **An access faults exactly when the bytes it would access are refused**, with its address as the
trap value and nothing else changed. -/
structure FaultsExactly (mpact : RiscVLoadStore ψ) (op : ScalarMemoryOpcode)
    (inst : ScalarMemoryInst) (s : ScalarState ψ) : Prop where
  raises_iff : RaisesFault op.fault s.toCoralNPUV2State
    (op.execute mpact inst s).toCoralNPUV2State ↔
    s.hasPermission (s.effectiveAddress inst) (BitVec.ofNat 32 op.accessWidth) op.permission = false
  unchanged : RaisesFault op.fault s.toCoralNPUV2State (op.execute mpact inst s).toCoralNPUV2State →
    op.execute mpact inst s = s.trap false (s.effectiveAddress inst) op.fault inst.address

/-- The fault is right if the bytes asked for are permitted like those accessed. -/
theorem faultsExactly_iff_hasPermission (mpact : RiscVLoadStore ψ) (op : ScalarMemoryOpcode)
    (inst : ScalarMemoryInst) (s : ScalarState ψ) : FaultsExactly mpact op inst s ↔
      s.hasPermission (s.effectiveAddress inst) (BitVec.ofNat 32 op.checkedWidth) op.permission =
        s.hasPermission (s.effectiveAddress inst)
          (BitVec.ofNat 32 op.accessWidth) op.permission := by
  have hraises : RaisesFault op.fault s.toCoralNPUV2State
      (op.execute mpact inst s).toCoralNPUV2State ↔
      ¬ s.hasPermission (s.effectiveAddress inst) (BitVec.ofNat 32 op.checkedWidth) op.permission =
        true := by
    rw [execute_eq]
    refine raisesFault_iff (s.effectiveAddress inst) inst.address (fun hp => ?_) (fun hp => ?_)
    · rw [if_pos hp]
      exact (operation_memory mpact op inst s).1
    · rw [if_neg hp]
      rfl
  rw [Bool.not_eq_true] at hraises
  constructor
  · intro h
    have hiff := hraises.symm.trans h.raises_iff
    exact Bool.eq_iff_iff.2 (by simpa using not_congr hiff)
  · intro h
    refine ⟨by rw [hraises, h], fun hfault => ?_⟩
    rw [execute_eq, if_neg (by simp [hraises.1 hfault])]

/-- **The scalar loads and stores fault exactly when they should**; `fsw` asks for eight bytes and
stores four. -/
theorem faultsExactly_iff (mpact : RiscVLoadStore ψ) (op : ScalarMemoryOpcode)
    (inst : ScalarMemoryInst) (s : ScalarState ψ) : FaultsExactly mpact op inst s ↔
      (op = .fsw → s.hasPermission (s.effectiveAddress inst) 8 .write =
        s.hasPermission (s.effectiveAddress inst) 4 .write) := by
  rw [faultsExactly_iff_hasPermission]
  cases op
  case fsw => exact ⟨fun h _ => h, fun h => h rfl⟩
  all_goals exact iff_of_true rfl nofun

end Faults

/-- A library whose loads change nothing and whose stores store zeros. -/
def RiscVLoadStore.zeros (ψ : Type) : RiscVLoadStore ψ where
  rvLoad _ _ s := s
  rvStore size inst s :=
    { s with memory := FlatMemory.write s.memory (s.effectiveAddress inst) (List.replicate size 0) }
  riscVFSw inst s :=
    { s with memory := FlatMemory.write s.memory (s.effectiveAddress inst) (List.replicate 4 0) }
  rvLoad_eq _ _ s := ⟨s.riscv, s.f, rfl⟩
  rvStore_eq _ _ _ := ⟨_, List.length_replicate, rfl⟩
  riscVFSw_eq _ _ := ⟨_, List.length_replicate, rfl⟩

/-- The default regions, with the address of the last word of the data memory in a register. -/
def atEndOfDtcm : ScalarState Unit where
  memoryRegions := defaultMemoryRegions
  rvVector := ⟨0, 0, 8, 1, 16⟩
  vectorRegisters _ _ := 0
  memory _ := 0
  traps := []
  riscv := ⟨fun r => if r = 1 then 0x17ffc else 0, 0, ()⟩
  f _ := 0

/-- **The last word of the data memory cannot be stored from a floating-point register.** -/
theorem not_faultsExactly_fsw :
    ¬ FaultsExactly (RiscVLoadStore.zeros Unit) .fsw ⟨0x100, 1, 0, 2⟩ atEndOfDtcm := by
  rw [faultsExactly_iff_hasPermission]
  decide

end CoralNpu
