/-
**The values that emitted loads and stores move.**

`EmitLoad` and `EmitStore` need a register for the offset, and `t6` for the address; the store moves
its value into `t4` on the way.  The register for the offset is chosen by the names of the operands,
so that it is not one of them.  Only some names are looked at: `t6` is overwritten whatever the
value to store is.

Main definitions:

* `CoralNpu.SandboxedAccess.lines` — the lines of a call, with the sandbox or without;
* `CoralNpu.SandboxedAccess.MovesValue` — what they should do;
* `CoralNpu.SandboxedAccess.OperandsKept` — no operand is overwritten before it is read, or nothing
  changes when it is.

Main results:

* `CoralNpu.SandboxedAccess.run_lines` — where the lines go, and what is in `t4` and `t6`;
* `CoralNpu.SandboxedAccess.movesValue_iff` — **the value is moved exactly when** the operands are
  kept.
-/

import CoralNpu.RandomSimulatorMemory

set_option relaxedAutoImplicit false
set_option autoImplicit false

namespace CoralNpu

open AsciiText PartialState Rv32 WordMemory

variable {G : Prng}

namespace SandboxedAccess

/-! ### What an access should do -/

/-- The lines of a call, under strict sandboxing or not. -/
def lines (access : SandboxedAccess) (strict : Bool) : List Text :=
  access.frontText ++ ((if strict then dynamicMaskText 4 else []) ++ [access.lastLine])

/-- Base and offset, before the call. -/
def entryAddress (access : SandboxedAccess) (s : Hart) : BitVec 32 :=
  s.get access.operands.1.reg + access.operands.2

/-- The address that is accessed. -/
def finalAddress (strict : Bool) (a : BitVec 32) : BitVec 32 :=
  if strict then sandboxed r1Mask r2Mask a else a

@[simp] theorem finalAddress_true (a : BitVec 32) :
    finalAddress true a = sandboxed r1Mask r2Mask a := if_pos rfl

@[simp] theorem finalAddress_false (a : BitVec 32) : finalAddress false a = a :=
  if_neg Bool.false_ne_true

/-- The registers that a call may change. -/
def changed : SandboxedAccess → List Reg
  | access@(load rd _ _) => [rd.reg, 31, access.scratch.2]
  | access@(store _ _ _) => [29, 31, access.scratch.2]

/-- The value has been moved: from the address to `rd`, unless that is register zero, or from `rs2`
to the address. -/
def Moved : SandboxedAccess → BitVec 32 → Hart → Hart → Prop
  | load rd _ _, a, _, s' => rd.reg ≠ 0 → s'.get rd.reg = loadWord s'.memory a
  | store rs2 _ _, a, s, s' => loadWord s'.memory a = s.get rs2.reg

/-- Memory without holes. -/
def everywhere : BitVec 32 → Bool := fun _ => true

/-- **What a call should do**: emit lines that compute the address from the operands as they were
before, move the value and keep all other registers.  With the stack pointer in RAM, the sandbox
stays in RAM. -/
structure MovesValue (G : Prng) (strict : Bool) (access : SandboxedAccess) (s : Hart) : Prop where
  emitted : ∀ (e : IsgEngine G) (u : Unit) (e' : IsgEngine G), e.strictSandboxing = strict →
    access.emit.run e = some (u, e') → HasRoom e → UncheckedFit e' →
      assemble e'.text = assemble e.text ++ access.lines strict
  moved : ∃ t s', runText everywhere access.frontText s = some t ∧
    t.get 31 = access.entryAddress s ∧
    runText everywhere (access.lines strict) s = some s' ∧
    access.Moved (finalAddress strict (access.entryAddress s)) s s' ∧
    (∀ r, r ∉ access.changed → s'.get r = s.get r) ∧
    (strict = true → StackInRam s → runText isRam (access.lines strict) s = some s')

/-- **The operands are kept**: an operand that is the register for the offset holds the offset
anyway, and a value to store that is in `t6` is the address anyway. -/
def OperandsKept (access : SandboxedAccess) (s : Hart) : Prop :=
  (access.operands.1.reg = access.scratch.2 → s.get access.operands.1.reg = access.operands.2) ∧
    match access with
    | load _ _ _ => True
    | store rs2 rs1 imm =>
        (rs2.reg = (store rs2 rs1 imm).scratch.2 → s.get rs2.reg = imm) ∧
          (rs2.reg = 31 → s.get 31 = s.get rs1.reg + imm)

/-! ### Emission without the sandbox -/

/-- The program adds these words, and leaves strict sandboxing off. -/
def AddsFreely (m : EngineM G Unit) (words : List Text) : Prop :=
  ∀ e u e', e.strictSandboxing = false → m.run e = some (u, e') →
    e'.words = e.words ++ words ∧ e'.strictSandboxing = false

theorem AddsFreely.bind {m k : EngineM G Unit} {words words' : List Text} (hm : AddsFreely m words)
    (hk : AddsFreely k words') : AddsFreely (m >>= fun _ => k) (words ++ words') := by
  intro e u e' hstrict hrun
  obtain ⟨v, e₁, hfirst, hsecond⟩ := run_bind_eq_some.1 hrun
  obtain ⟨hwords, hstrict₁⟩ := hm _ _ _ hstrict hfirst
  obtain ⟨hwords', hstrict'⟩ := hk _ _ _ hstrict₁ hsecond
  exact ⟨by rw [hwords', hwords, List.append_assoc], hstrict'⟩

theorem addsFreely_pure : AddsFreely (pure () : EngineM G Unit) [] := by
  intro e u e' hstrict hrun
  cases hrun
  exact ⟨(List.append_nil _).symm, hstrict⟩

theorem addsFreely_emitInstructionFormat {line : Text} (h : PlainLine line) :
    AddsFreely (emitInstructionFormat line : EngineM G Unit) [line] := by
  intro e u e' hstrict hrun
  obtain ⟨hwords, hsame⟩ := run_emitInstructionFormatBody_eq_some h hrun
  exact ⟨hwords, hsame.trans hstrict⟩

theorem addsFreely_emitConstant {reg : String} (hreg : IsOperand reg.toList) (value : BitVec 32) :
    AddsFreely (emitConstant reg value : EngineM G Unit) (constantText reg value) := by
  rw [emitConstant, constantText, ← List.singleton_append]
  refine .bind (addsFreely_emitInstructionFormat (plainLine_lui hreg _)) ?_
  split
  · exact addsFreely_emitInstructionFormat (plainLine_addi hreg _)
  · exact addsFreely_pure

/-- The sandbox is left out. -/
theorem addsFreely_emitDynamicMask (offsetSize : BitVec 32) :
    AddsFreely (emitDynamicMask offsetSize : EngineM G Unit) [] := by
  intro e u e' hstrict hrun
  obtain ⟨strict, e₁, hread, hrun⟩ := run_bind_eq_some.1 hrun
  cases hread
  rw [hstrict, if_neg Bool.false_ne_true] at hrun
  exact addsFreely_pure _ _ _ hstrict hrun

/-- **The engine emits the lines of an access**, without the sandbox. -/
theorem addsFreely_emit (access : SandboxedAccess) :
    AddsFreely (access.emit : EngineM G Unit) (access.lines false) := by
  obtain ⟨hoperand, -, -, -⟩ := access.scratch_spec
  have hback := (addsFreely_emitDynamicMask (G := G) 4).bind
    (addsFreely_emitInstructionFormat access.plainLine_lastLine)
  have haddress : ∀ rs1 : RegisterName, AddsFreely (emitInstructionFormat
      (addressLine rs1.text access.scratch.1.toList) : EngineM G Unit)
        [addressLine rs1.text access.scratch.1.toList] := fun rs1 =>
    addsFreely_emitInstructionFormat (plainLine_addressLine rs1.isOperand hoperand)
  cases access with
  | load rd rs1 imm =>
      have hload := (addsFreely_emitConstant (G := G) hoperand imm).bind ((haddress rs1).bind hback)
      rw [← List.append_assoc] at hload
      rw [emit, emitLoad, ← scratch_load rd rs1 imm]
      exact hload
  | store rs2 rs1 imm =>
      have hlui := addsFreely_emitInstructionFormat (G := G)
        (plainLine_lui hoperand (upperPart imm).toNat)
      have haddi := addsFreely_emitInstructionFormat (G := G)
        (plainLine_addi hoperand (lowerPart imm))
      have hmove := addsFreely_emitInstructionFormat (G := G) (plainLine_moveLine rs2.isOperand)
      have hstore := hlui.bind (haddi.bind ((haddress rs1).bind (hmove.bind hback)))
      rw [emit, emitStore, ← scratch_store rs2 rs1 imm]
      exact hstore

/-- The call in the text of the program, with the sandbox or without. -/
theorem assemble_lines (access : SandboxedAccess) {strict : Bool} {e e' : IsgEngine G} {u : Unit}
    (hstrict : e.strictSandboxing = strict) (hrun : access.emit.run e = some (u, e'))
    (hroom : HasRoom e) (hfit : UncheckedFit e') :
    assemble e'.text = assemble e.text ++ access.lines strict := by
  cases strict with
  | true => exact access.assemble_emit hstrict hrun hroom hfit
  | false =>
      rw [assemble_text (access.bufferIntact_emit hrun hroom hfit), assemble_text hroom.2]
      exact (access.addsFreely_emit e u e' hstrict hrun).1

/-! ### The front -/

section Front

variable {s : Hart}

/-- The registers that are written before the access. -/
def temporaries : SandboxedAccess → List Reg
  | access@(load _ _ _) => [31, access.scratch.2]
  | access@(store _ _ _) => [29, 31, access.scratch.2]

theorem frontCode_isRegister (access : SandboxedAccess) :
    ∀ i ∈ access.frontCode, i.isRegister = true ∧ ∃ r ∈ access.temporaries, i.rd? = some r := by
  cases access with
  | load rd rs1 imm =>
      rw [frontCode, constantCode]
      split <;> simp [temporaries, Rv32.Instruction.isRegister, Rv32.Instruction.rd?]
  | store rs2 rs1 imm =>
      simp [frontCode, temporaries, Rv32.Instruction.isRegister, Rv32.Instruction.rd?]

theorem run_front (access : SandboxedAccess) (ram : BitVec 32 → Bool) (s : Hart) :
    run ram access.frontCode s = some (s.afterAll access.frontCode) :=
  run_of_isRegister ram (fun i hi => (access.frontCode_isRegister i hi).1) s

/-- The address in front of the sandbox. -/
theorem get_front_address (access : SandboxedAccess) (s : Hart) :
    (s.afterAll access.frontCode).get 31 = access.address s := by
  obtain ⟨t, hrun, haddress, -⟩ := access.run_frontCode everywhere s
  rw [run_front] at hrun
  cases hrun
  exact haddress

theorem get_front_of_not_mem (access : SandboxedAccess) {r : Reg} (h : r ∉ access.temporaries) :
    (s.afterAll access.frontCode).get r = s.get r := by
  refine get_afterAll fun i hi heq => ?_
  obtain ⟨-, r', hr', hrd⟩ := access.frontCode_isRegister i hi
  rw [hrd] at heq
  exact h (Option.some.inj heq ▸ hr')

/-- The value to store, as it is when it is moved. -/
def storedValue (rs2 rs1 : RegisterName) (imm : BitVec 32) (s : Hart) : BitVec 32 :=
  if rs2.reg = 31 then (store rs2 rs1 imm).address s
  else if rs2.reg = (store rs2 rs1 imm).scratch.2 then imm
  else s.get rs2.reg

theorem get_front_value (rs2 rs1 : RegisterName) (imm : BitVec 32) (s : Hart) :
    (s.afterAll (store rs2 rs1 imm).frontCode).get 29 = storedValue rs2 rs1 imm s := by
  obtain ⟨-, -, hzero, hstack⟩ := (store rs2 rs1 imm).scratch_spec
  have hscratch := s.afterAll_constant hzero imm
  -- the state in which the value is moved
  have hcode : s.afterAll (store rs2 rs1 imm).frontCode =
      ((s.set (store rs2 rs1 imm).scratch.2 imm).after
        (.op .add 31 rs1.reg (store rs2 rs1 imm).scratch.2)).after (.opImm .addi 29 rs2.reg 0) := by
    rw [← hscratch]
    rfl
  have haddress := (get_after_addressCode hzero hstack rs1.reg imm s).1
  rw [hcode, Hart.after, Hart.get_set, if_pos ⟨rfl, by decide⟩, ImmOp.apply, add_zero_offset,
    storedValue]
  by_cases ht6 : rs2.reg = 31
  · rw [if_pos ht6, ht6, haddress]
    rfl
  · rw [if_neg ht6, Hart.after, Hart.get_set_of_ne _ _ ht6, Hart.get_set]
    by_cases hsame : rs2.reg = (store rs2 rs1 imm).scratch.2
    · rw [if_pos ⟨hsame, hsame ▸ hzero⟩, if_pos hsame]
    · rw [if_neg fun h => hsame h.1, if_neg hsame]

end Front

/-! ### Running the lines -/

section Run

variable {s : Hart}

/-- The code of the lines. -/
theorem instructionsOf_lines (access : SandboxedAccess) (strict : Bool) :
    instructionsOf (access.lines strict) = some (access.frontCode ++
      ((if strict then saveCode ++ (maskCode r1Mask r2Mask ++ restoreCode) else []) ++
        [access.lastCode])) := by
  cases strict with
  | true => exact access.instructionsOf_text
  | false =>
      exact instructionsOf_append access.instructionsOf_frontText
        (instructionsOf_singleton access.instructionOf_lastLine)

/-- The state after the access. -/
def accessed (access : SandboxedAccess) (u : Hart) : Hart :=
  match access with
  | load rd _ _ => u.set rd.reg (loadWord u.memory (u.get 31))
  | store _ _ _ => { u with memory := storeWord u.memory (u.get 31) (u.get 29) }

theorem execute_lastCode (access : SandboxedAccess) {ram : BitVec 32 → Bool} {u : Hart}
    (hram : WordInRam ram (u.get 31)) :
    execute ram access.lastCode u = some (access.accessed u) := by
  cases access with
  | load rd rs1 imm => rw [lastCode, execute, add_zero_offset, if_pos hram, accessed]
  | store rs2 rs1 imm => rw [lastCode, execute, add_zero_offset, if_pos hram, accessed]

/-- **The lines of a call**: the address moves into the sandbox, all other registers are as after
the front, and the access is the last instruction. -/
theorem run_lines (access : SandboxedAccess) (strict : Bool) (ram : BitVec 32 → Bool)
    (hstack : strict = true → ∀ k ≤ 12, WordInRam ram (slot (s.get 2 - 16) k)) :
    ∃ u, u.get 31 = finalAddress strict (access.address s) ∧
      (∀ r, r ≠ 31 → u.get r = (s.afterAll access.frontCode).get r) ∧
      (WordInRam ram (u.get 31) →
        runText ram (access.lines strict) s = some (access.accessed u)) := by
  have hfront := access.run_front ram s
  have hlast (u : Hart) (hram : WordInRam ram (u.get 31)) :
      run ram [access.lastCode] u = some (access.accessed u) := by
    rw [run, access.execute_lastCode hram]
    rfl
  have hsp : (s.afterAll access.frontCode).get 2 = s.get 2 := by
    obtain ⟨-, -, -, hstack⟩ := access.scratch_spec
    refine access.get_front_of_not_mem fun hmem => ?_
    cases access <;> simp [temporaries, hstack.symm] at hmem
  cases strict with
  | true =>
      obtain ⟨u, hmask, haddress, hkept⟩ := @run_dynamicMaskCode ram (s.afterAll access.frontCode)
        (by rw [hsp]; exact hstack rfl) r1Mask r2Mask (by decide) (by decide)
      refine ⟨u, by rw [finalAddress_true, haddress, access.get_front_address], hkept,
        fun hram => ?_⟩
      rw [runText, instructionsOf_lines, Option.bind_some, run_append, hfront, Option.bind_some,
        if_pos rfl, run_append, hmask, Option.bind_some, hlast u hram]
  | false =>
      refine ⟨s.afterAll access.frontCode,
        (access.get_front_address s).trans (finalAddress_false _).symm,
        fun r _ => rfl, fun hram => ?_⟩
      rw [runText, instructionsOf_lines, Option.bind_some, run_append, hfront, Option.bind_some,
        if_neg Bool.false_ne_true, List.nil_append, hlast _ hram]

theorem wordInRam_everywhere (a : BitVec 32) : WordInRam everywhere a := ⟨rfl, rfl, rfl, rfl⟩

/-- The sandbox is RAM. -/
theorem wordInRam_sandboxed (a : BitVec 32) : WordInRam isRam (sandboxed r1Mask r2Mask a) := by
  have hsandbox := @sandboxed_inSandbox 4 (by decide) (by decide) a
  have hregions : kDefaultRwRegionStart = 0x10000 ∧ kDefaultRwRegionLength = 0x8000 ∧
      kDefaultRwRegion2Start = 0x20000000 ∧ kDefaultRwRegion2Length = 0x400000 ∧
      (4 : BitVec 32).toNat = 4 := ⟨rfl, rfl, rfl, rfl, rfl⟩
  change InSandbox (sandboxed r1Mask r2Mask a).toNat _ at hsandbox
  generalize sandboxed r1Mask r2Mask a = b at hsandbox
  rw [InSandbox] at hsandbox
  have hbyte (k : ℕ) (hk : k < 4) : isRam (b + BitVec.ofNat 32 k) = true := by
    rw [isRam, decide_eq_true_eq, InWritable, BitVec.toNat_add, BitVec.toNat_ofNat,
      Nat.mod_eq_of_lt (a := k) (by omega), Nat.mod_eq_of_lt (by omega)]
    omega
  exact ⟨by simpa using hbyte 0 (by omega), hbyte 1 (by omega), hbyte 2 (by omega),
    hbyte 3 (by omega)⟩

/-- A run in some RAM is a run in memory without holes. -/
theorem run_everywhere {ram : BitVec 32 → Bool} {is : List Rv32.Instruction} {s' : Hart}
    (h : run ram is s = some s') : run everywhere is s = some s' := by
  induction is generalizing s with
  | nil => exact h
  | cons i is ih =>
      obtain ⟨t, hfirst, hrest⟩ := Option.bind_eq_some_iff.1 h
      have hexecute : execute everywhere i s = some t := by
        cases i with
        | lw rd rs1 offset | sw rs2 rs1 offset =>
            rw [execute] at hfirst ⊢
            split at hfirst
            · rw [if_pos (wordInRam_everywhere _), hfirst]
            · cases hfirst
        | _ => exact hfirst
      rw [run, hexecute, Option.bind_some, ih hrest]

end Run

/-! ### The value -/

/-- The address is that of the operands, when the base is kept. -/
theorem address_eq_iff (access : SandboxedAccess) (s : Hart) :
    access.address s = access.entryAddress s ↔
      (access.operands.1.reg = access.scratch.2 →
        s.get access.operands.1.reg = access.operands.2) := by
  rw [address, entryAddress, BitVec.add_left_inj]
  by_cases h : access.operands.1.reg = access.scratch.2
  · rw [if_pos h]
    exact ⟨fun heq _ => heq.symm, fun heq => (heq h).symm⟩
  · rw [if_neg h]
    exact iff_of_true rfl fun heq => absurd heq h

/-- The value is that of the operand, when it is kept. -/
theorem storedValue_eq_iff (rs2 rs1 : RegisterName) (imm : BitVec 32) {s : Hart}
    (haddress : (store rs2 rs1 imm).address s = s.get rs1.reg + imm) :
    storedValue rs2 rs1 imm s = s.get rs2.reg ↔
      (rs2.reg = (store rs2 rs1 imm).scratch.2 → s.get rs2.reg = imm) ∧
        (rs2.reg = 31 → s.get 31 = s.get rs1.reg + imm) := by
  have hscratch : (store rs2 rs1 imm).scratch.2 ≠ 31 := by
    rw [scratch]
    split
    · split <;> decide
    · decide
  rw [storedValue, haddress]
  by_cases ht6 : rs2.reg = 31
  · rw [if_pos ht6, ht6]
    exact ⟨fun h => ⟨fun heq => absurd heq.symm hscratch, fun _ => h.symm⟩, fun h => (h.2 rfl).symm⟩
  · rw [if_neg ht6]
    by_cases hsame : rs2.reg = (store rs2 rs1 imm).scratch.2
    · rw [if_pos hsame]
      exact ⟨fun h => ⟨fun _ => h.symm, fun heq => absurd heq ht6⟩, fun h => (h.1 hsame).symm⟩
    · rw [if_neg hsame]
      exact iff_of_true rfl ⟨fun heq => absurd heq hsame, fun heq => absurd heq ht6⟩

/-- What the access has moved, when its address is that of the operands. -/
theorem moved_accessed_iff (access : SandboxedAccess) {s u : Hart} {a : BitVec 32}
    (haddress : u.get 31 = a)
    (hkept : ∀ r, r ≠ 31 → u.get r = (s.afterAll access.frontCode).get r) :
    access.Moved a s (access.accessed u) ↔ match access with
      | load _ _ _ => True
      | store rs2 rs1 imm => storedValue rs2 rs1 imm s = s.get rs2.reg := by
  cases access with
  | load rd rs1 imm =>
      refine iff_of_true (fun hrd => ?_) trivial
      rw [accessed, Hart.get_set, if_pos ⟨rfl, hrd⟩, Hart.set_memory, haddress]
  | store rs2 rs1 imm =>
      have hvalue : u.get 29 = storedValue rs2 rs1 imm s := by
        rw [hkept 29 (by decide), get_front_value]
      simp only [Moved, accessed, haddress, loadWord_storeWord (by decide : 2 ≤ 32), hvalue]

/-- All other registers are kept. -/
theorem get_accessed (access : SandboxedAccess) {s u : Hart}
    (hkept : ∀ r, r ≠ 31 → u.get r = (s.afterAll access.frontCode).get r) {r : Reg}
    (h : r ∉ access.changed) : (access.accessed u).get r = s.get r := by
  have htemporaries : r ∉ access.temporaries ∧ r ≠ 31 := by
    cases access <;> simp_all [changed, temporaries]
  have hu : u.get r = s.get r := by
    rw [hkept r htemporaries.2, access.get_front_of_not_mem htemporaries.1]
  cases access with
  | load rd rs1 imm =>
      have hrd : r ≠ rd.reg := fun heq => h (by simp [changed, heq])
      rw [accessed, Hart.get_set_of_ne _ _ hrd, hu]
  | store rs2 rs1 imm => exact hu

/-- With the stack pointer in RAM the sandbox stays in RAM. -/
theorem run_lines_isRam (access : SandboxedAccess) {s s' : Hart} (hstack : StackInRam s)
    (h : runText everywhere (access.lines true) s = some s') :
    runText isRam (access.lines true) s = some s' := by
  obtain ⟨u, haddress, -, hrun⟩ := access.run_lines true isRam
    (fun _ k hk => hstack.wordInRam hk)
  have hram := hrun (by rw [haddress, finalAddress_true]; exact wordInRam_sandboxed _)
  have heverywhere : runText everywhere (access.lines true) s = some (access.accessed u) := by
    rw [runText, access.instructionsOf_lines, Option.bind_some] at hram ⊢
    exact run_everywhere hram
  rw [hram, ← heverywhere, h]

theorem runText_frontText (access : SandboxedAccess) (s : Hart) :
    runText everywhere access.frontText s = some (s.afterAll access.frontCode) := by
  rw [runText, access.instructionsOf_frontText, Option.bind_some, access.run_front]

/-- The operands are kept when the value is moved: the address and the stored value tell. -/
theorem MovesValue.operandsKept {strict : Bool} {access : SandboxedAccess} {s : Hart}
    (h : MovesValue G strict access s) : access.OperandsKept s := by
  obtain ⟨u, hu, hkept, hrun⟩ := access.run_lines strict everywhere (s := s)
    (fun _ _ _ => wordInRam_everywhere _)
  have hlines := hrun (wordInRam_everywhere _)
  obtain ⟨-, t, s', ht, haddress, hs', hvalue, -, -⟩ := h
  cases (access.runText_frontText s).symm.trans ht
  cases hlines.symm.trans hs'
  rw [access.get_front_address] at haddress
  have hstored := (access.moved_accessed_iff (by rw [hu, haddress]) hkept).1 hvalue
  refine ⟨(access.address_eq_iff s).1 haddress, ?_⟩
  cases access with
  | load rd rs1 imm => trivial
  | store rs2 rs1 imm => exact (storedValue_eq_iff rs2 rs1 imm haddress).1 hstored

/-- The value is moved when the operands are kept. -/
theorem OperandsKept.movesValue {access : SandboxedAccess} {s : Hart} (h : access.OperandsKept s)
    (G : Prng) (strict : Bool) : MovesValue G strict access s := by
  obtain ⟨u, hu, hkept, hrun⟩ := access.run_lines strict everywhere (s := s)
    (fun _ _ _ => wordInRam_everywhere _)
  have hlines := hrun (wordInRam_everywhere _)
  obtain ⟨hbase, hoperand⟩ := h
  have haddress := (access.address_eq_iff s).2 hbase
  have hvalue := (access.moved_accessed_iff (a := finalAddress strict (access.entryAddress s))
    (by rw [hu, haddress]) hkept).2
  refine ⟨fun e u e' hstrict hemit hroom hfit => access.assemble_lines hstrict hemit hroom hfit,
    s.afterAll access.frontCode, access.accessed u, access.runText_frontText s, ?_,
    hlines, hvalue ?_, fun r hr => access.get_accessed hkept hr, ?_⟩
  · rw [access.get_front_address, haddress]
  · cases access with
    | load rd rs1 imm => trivial
    | store rs2 rs1 imm => exact (storedValue_eq_iff rs2 rs1 imm haddress).2 hoperand
  · rintro rfl hstack
    exact access.run_lines_isRam hstack hlines

/-- **The value is moved exactly when** the operands are kept. -/
theorem movesValue_iff (G : Prng) (strict : Bool) (access : SandboxedAccess) (s : Hart) :
    MovesValue G strict access s ↔ access.OperandsKept s :=
  ⟨fun h => h.operandsKept, fun h => h.movesValue G strict⟩

/-- The registers `t0` and `t6`. -/
def registerT0 : RegisterName :=
  ⟨"t0".toList, 5, by decide, ⟨by decide, by decide, by decide⟩⟩

def registerT6 : RegisterName :=
  ⟨"t6".toList, 31, by decide, ⟨by decide, by decide, by decide⟩⟩

/-- A store of `t6` at an address in `t0`: the address is stored. -/
theorem not_movesValue_t6 :
    ¬ MovesValue mt19937_64 true (.store registerT6 registerT0 0)
      ⟨fun r => if r = 31 then 1 else 0x10400, fun _ => 0⟩ := by
  intro h
  obtain ⟨-, -, hvalue⟩ := h.operandsKept
  exact absurd (hvalue rfl) (by decide)

end SandboxedAccess

end CoralNpu
