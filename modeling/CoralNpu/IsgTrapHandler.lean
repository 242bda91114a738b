/-
**The trap handler of a generated program.**

The preamble begins with a trap handler.  At a trap there is no free register, so the handler
exchanges `t0` with a control and status register, and the old contents of that with another one;
then it saves three registers to the reserved words.  A breakpoint goes to an `ebreak`; after any
other trap, the handler makes `mret` go to the end of the test, and restores what it has used.

Main definitions:

* `CoralNpu.handlerCode` — the instructions of the handler;
* `CoralNpu.HandlerTransparent` — what the handler should do.

Main results:

* `CoralNpu.runBlock_entry`, `CoralNpu.runBlock_restore` — saving and restoring;
* `CoralNpu.trapHandler_transparent` — **the handler of every preamble is transparent**.
-/

import CoralNpu.IsgSandbox
import CoralNpu.Rv32Trap

set_option relaxedAutoImplicit false
set_option autoImplicit false

namespace CoralNpu

open AsciiText Rv32 WordMemory

/-! ### The code -/

/-- Saving, up to the branch. -/
def entryCode : List TrapInstruction :=
  [.csrrw 5 mscratch 5, .csrrw 5 mtval 5, .base (.lui 5 0x10), .base (.sw 6 5 4), .base (.sw 7 5 8),
    .csrrs 6 mscratch 0, .base (.sw 6 5 0), .csrrs 6 mtval 0, .base (.sw 6 5 20), .csrrs 6 mcause 0,
    .base (.sw 6 5 12), .csrrs 6 mepc 0, .base (.sw 6 5 16), .base (.lw 6 5 12),
    .base (.opImm .addi 7 0 3)]

/-- Setting the address of the return. -/
def returnCode : List TrapInstruction :=
  [.base (.lui 6 2), .base (.opImm .addi 6 6 (-4)), .csrrw 0 mepc 6]

/-- Restoring. -/
def restoringCode : List TrapInstruction :=
  [.base (.lw 6 5 20), .csrrw 0 mscratch 6, .base (.lw 6 5 4), .base (.lw 7 5 8), .base (.lw 5 5 0)]

/-- The branch for a breakpoint, and the jump over the `ebreak`, behind `n` words. -/
def handlerBranch (n : ℕ) : TrapInstruction := .beq 6 7 (4 * (n + 16) + 20)

def handlerJump (n : ℕ) : TrapInstruction := .jal 0 (4 * (n + 20) + 8)

/-- The instructions of the handler, behind `n` words and the jump over it. -/
def handlerCode (n : ℕ) : List TrapInstruction :=
  entryCode ++ handlerBranch n ::
    (returnCode ++ handlerJump n :: .ebreak :: (restoringCode ++ [.mret]))

theorem targetOf_hexAlt (n : ℕ) : targetOf (hexAlt n) = some n := by
  rw [targetOf, parseInt_hexAlt]
  rfl

theorem trapInstructionOf_beq (target : ℕ) :
    trapInstructionOf ("beq t1, t2, ".toList ++ hexAlt target) = some (.beq 6 7 target) := by
  have htokens : tokens ("beq t1, t2,".toList ++ ' ' :: hexAlt target) =
      tokens "beq t1, t2,".toList ++ [hexAlt target] := by
    rw [tokens_append _ _ (by decide), tokens_of_isWord (isWord_hexAlt target)]
  have hfront : tokens "beq t1, t2,".toList = ["beq".toList, "t1".toList, "t2".toList] := by decide
  have hregs : regOf "t1".toList = some 6 ∧ regOf "t2".toList = some 7 := by decide
  have hmnemonic : "beq".toList ≠ "csrrw".toList ∧ "beq".toList ≠ "csrrs".toList := by decide
  change trapInstructionOf ("beq t1, t2,".toList ++ ' ' :: hexAlt target) = _
  rw [trapInstructionOf, htokens, hfront]
  simp only [List.cons_append, List.nil_append, if_neg hmnemonic.1, if_neg hmnemonic.2, if_true,
    hregs, targetOf_hexAlt]
  rfl

theorem trapInstructionOf_jal (target : ℕ) :
    trapInstructionOf ("jal zero, ".toList ++ hexAlt target) = some (.jal 0 target) := by
  have htokens : tokens ("jal zero,".toList ++ ' ' :: hexAlt target) =
      tokens "jal zero,".toList ++ [hexAlt target] := by
    rw [tokens_append _ _ (by decide), tokens_of_isWord (isWord_hexAlt target)]
  have hfront : tokens "jal zero,".toList = ["jal".toList, "zero".toList] := by decide
  have hreg : regOf "zero".toList = some 0 := by decide
  have hmnemonic : "jal".toList ≠ "csrw".toList := by decide
  change trapInstructionOf ("jal zero,".toList ++ ' ' :: hexAlt target) = _
  rw [trapInstructionOf, htokens, hfront]
  simp only [List.cons_append, List.nil_append, if_neg hmnemonic, if_true, hreg, targetOf_hexAlt]
  rfl

/-- The lines of the handler stand for this code. -/
theorem trapInstructionOf_trapHandlerWords (n : ℕ) :
    (trapHandlerWords n).tail.map trapInstructionOf = (handlerCode n).map some := by
  have hentry : (trapHandlerEntry.map String.toList).tail.map trapInstructionOf =
      entryCode.map some := by
    decide
  have hreturn : (trapHandlerReturn.map String.toList).map trapInstructionOf =
      returnCode.map some := by
    decide
  have hrestore : (trapHandlerRestore.map String.toList).map trapInstructionOf =
      (.ebreak :: (restoringCode ++ [.mret])).map some := by
    decide
  have hne : trapHandlerEntry.map String.toList ≠ [] := by decide
  rw [trapHandlerWords, List.tail_append_of_ne_nil hne, List.map_append, List.map_cons,
    List.map_append, List.map_cons, hentry, hreturn, hrestore, trapInstructionOf_beq,
    trapInstructionOf_jal]
  simp only [handlerCode, handlerBranch, handlerJump, List.map_append, List.map_cons]

/-- What is fetched, when the handler is in a program behind some words. -/
theorem fetchLine_handler (before after : List Text) {k : ℕ} {i : TrapInstruction}
    (h : (handlerCode before.length)[k]? = some i) :
    fetchLine (before ++ (trapHandlerWords before.length ++ after)) (4 * (before.length + 1 + k)) =
      some i := by
  have hmap := congrArg (·[k]?) (trapInstructionOf_trapHandlerWords before.length)
  simp only [List.getElem?_map, h, Option.map_some, Option.map_eq_some_iff, List.getElem?_tail]
    at hmap
  obtain ⟨line, hline, hinstruction⟩ := hmap
  rw [Nat.add_assoc, Nat.add_comm 1]
  exact fetchLine_eq (getElem?_middle _ _ _ hline) hinstruction

/-! ### What the handler should do -/

/-- The reserved words. -/
def reservedBase : BitVec 32 := 0x10000

/-- The byte is in one of the six reserved words that the handler uses. -/
def InReserved (a : BitVec 32) : Prop := (a - reservedBase).toNat < 24

/-- **What the handler should do**, from address `entry` on: at a breakpoint it reaches its
`ebreak`.  After any other trap it reaches its `mret`, which goes to the last instruction but one of
the memory, with all registers as they were, all control and status registers but two, and all
memory but the reserved words. -/
structure HandlerTransparent (ram : BitVec 32 → Bool) (fetch : ℕ → Option TrapInstruction)
    (entry : ℕ) (s : TrapHart) : Prop where
  breakpoint : s.csr mcause = 3 → ∃ t, Reaches ram fetch ⟨s, entry⟩ t ∧ fetch t.pc = some .ebreak ∧
    t.pc = entry + 80
  other : s.csr mcause ≠ 3 → ∃ t, Reaches ram fetch ⟨s, entry⟩ t ∧ fetch t.pc = some .mret ∧
    t.pc = entry + 104 ∧ t.state.csr mepc = 0x1ffc ∧ (∀ r, t.state.hart.get r = s.hart.get r) ∧
    (∀ csr, csr ≠ mepc → csr ≠ mtval → t.state.csr csr = s.csr csr) ∧
    ∀ a, ¬ InReserved a → t.state.hart.memory a = s.hart.memory a

/-! ### Saving and restoring -/

/-- The state after saving. -/
structure Saved (s t : TrapHart) : Prop where
  base : t.hart.get 5 = reservedBase
  registers : ∀ r, r ∉ [5, 6, 7] → t.hart.get r = s.hart.get r
  csrs : ∀ csr, csr ∉ [mscratch, mepc, mtval] → t.csr csr = s.csr csr
  t0 : loadWord t.hart.memory (slot reservedBase 0) = s.hart.get 5
  t1 : loadWord t.hart.memory (slot reservedBase 4) = s.hart.get 6
  t2 : loadWord t.hart.memory (slot reservedBase 8) = s.hart.get 7
  scratch : loadWord t.hart.memory (slot reservedBase 20) = s.csr mscratch
  memory : ∀ a, ¬ InReserved a → t.hart.memory a = s.hart.memory a

/-- A jump that keeps no address changes nothing. -/
theorem Saved.set_zero {s t : TrapHart} (h : Saved s t) (value : BitVec 32) :
    Saved s { t with hart := t.hart.set 0 value } := by
  have hget (r : Reg) : (t.hart.set 0 value).get r = t.hart.get r := by simp
  refine ⟨(hget 5).trans h.base,
    fun r hr => (hget r).trans (h.registers r hr), h.csrs, ?_, ?_, ?_, ?_, ?_⟩
  · exact h.t0
  · exact h.t1
  · exact h.t2
  · exact h.scratch
  · exact h.memory

/-- The memory after saving. -/
def handlerMemory (s : TrapHart) : BitVec 32 → BitVec 8 :=
  let m := storeWord s.hart.memory (slot reservedBase 4) (s.hart.get 6)
  let m := storeWord m (slot reservedBase 8) (s.hart.get 7)
  let m := storeWord m (slot reservedBase 0) (s.hart.get 5)
  let m := storeWord m (slot reservedBase 20) (s.csr mscratch)
  let m := storeWord m (slot reservedBase 12) (s.csr mcause)
  storeWord m (slot reservedBase 16) (s.csr mepc)

/-- Stores to the reserved words. -/
theorem storeWord_reserved (memory : BitVec 32 → BitVec 8) {k : ℕ} (hk : k ≤ 20) (value : BitVec 32)
    {a : BitVec 32} (ha : ¬ InReserved a) :
    storeWord memory (slot reservedBase k) value a = memory a := by
  refine if_neg fun hlt => ha ?_
  rw [slot, ← BitVec.sub_sub, BitVec.toNat_sub, BitVec.toNat_ofNat,
    Nat.mod_eq_of_lt (a := k) (by omega)]
    at hlt
  have hbound := (a - reservedBase).isLt
  rw [InReserved]
  omega

theorem wordInRam_reserved {ram : BitVec 32 → Bool} (h : ∀ a, InReserved a → ram a = true) {k : ℕ}
    (hk : k ≤ 20) : WordInRam ram (slot reservedBase k) := by
  have hbyte (j : ℕ) (hj : j ≤ 3) : ram (slot reservedBase k + BitVec.ofNat 32 j) = true := by
    refine h _ ?_
    rw [InReserved, slot, BitVec.add_assoc, BitVec.add_comm, BitVec.add_sub_cancel,
      BitVec.toNat_add, BitVec.toNat_ofNat, BitVec.toNat_ofNat]
    omega
  refine ⟨?_, hbyte 1 (by decide), hbyte 2 (by decide), hbyte 3 (by decide)⟩
  simpa using hbyte 0 (by decide)

/-- The saved words are those of the registers. -/
theorem loadWord_handlerMemory (s : TrapHart) :
    loadWord (handlerMemory s) (slot reservedBase 0) = s.hart.get 5 ∧
    loadWord (handlerMemory s) (slot reservedBase 4) = s.hart.get 6 ∧
    loadWord (handlerMemory s) (slot reservedBase 8) = s.hart.get 7 ∧
    loadWord (handlerMemory s) (slot reservedBase 12) = s.csr mcause ∧
    loadWord (handlerMemory s) (slot reservedBase 20) = s.csr mscratch := by
  have hsame (memory : BitVec 32 → BitVec 8) (a value : BitVec 32) :
      loadWord (storeWord memory a value) a = value := loadWord_storeWord (by decide) _ _ _
  have hother (memory : BitVec 32 → BitVec 8) (value : BitVec 32) {i j : ℕ}
      (h : 4 ≤ (BitVec.ofNat 32 j - BitVec.ofNat 32 i).toNat ∧
        (BitVec.ofNat 32 j - BitVec.ofNat 32 i).toNat + 4 ≤ 2 ^ 32) :
      loadWord (storeWord memory (slot reservedBase i) value) (slot reservedBase j) =
        loadWord memory (slot reservedBase j) :=
    loadWord_slot_of_ne memory reservedBase value h.1 h.2
  rw [handlerMemory]
  refine ⟨?_, ?_, ?_, ?_, ?_⟩
  · rw [hother _ _ (by decide), hother _ _ (by decide), hother _ _ (by decide), hsame]
  · rw [hother _ _ (by decide), hother _ _ (by decide), hother _ _ (by decide),
      hother _ _ (by decide), hother _ _ (by decide), hsame]
  · rw [hother _ _ (by decide), hother _ _ (by decide), hother _ _ (by decide),
      hother _ _ (by decide), hsame]
  · rw [hother _ _ (by decide), hsame]
  · rw [hother _ _ (by decide), hother _ _ (by decide), hsame]

/-- All other bytes are kept. -/
theorem handlerMemory_eq (s : TrapHart) {a : BitVec 32} (ha : ¬ InReserved a) :
    handlerMemory s a = s.hart.memory a := by
  simp only [handlerMemory, storeWord_reserved _ (by decide : 16 ≤ 20) _ ha,
    storeWord_reserved _ (by decide : 12 ≤ 20) _ ha,
    storeWord_reserved _ (by decide : 20 ≤ 20) _ ha,
    storeWord_reserved _ (by decide : 0 ≤ 20) _ ha, storeWord_reserved _ (by decide : 8 ≤ 20) _ ha,
    storeWord_reserved _ (by decide : 4 ≤ 20) _ ha]

section Blocks

variable {ram : BitVec 32 → Bool} {s t : TrapHart}

/-- **Saving.** -/
theorem runBlock_entry (hram : ∀ k ≤ 20, WordInRam ram (slot reservedBase k)) (s : TrapHart) :
    ∃ t, runBlock ram entryCode s = some t ∧ t.hart.get 6 = s.csr mcause ∧ t.hart.get 7 = 3 ∧
      Saved s t := by
  have h0 : WordInRam ram 0x10000#32 := hram 0 (by decide)
  have h4 : WordInRam ram 0x10004#32 := hram 4 (by decide)
  have h8 : WordInRam ram 0x10008#32 := hram 8 (by decide)
  have h12 : WordInRam ram 0x1000c#32 := hram 12 (by decide)
  have h16 : WordInRam ram 0x10010#32 := hram 16 (by decide)
  have h20 : WordInRam ram 0x10014#32 := hram 20 (by decide)
  -- the exchanges leave `t0` in `mscratch` and the old `mscratch` in `mtval`
  have hne : mscratch ≠ mtval ∧ mcause ≠ mtval ∧ mcause ≠ mscratch ∧ mepc ≠ mtval ∧
      mepc ≠ mscratch := by
    decide
  have hrun : ∃ t, runBlock ram entryCode s = some t ∧ t.hart.memory = handlerMemory s ∧
      t.hart.get 5 = reservedBase ∧
      t.hart.get 6 = loadWord (handlerMemory s) (slot reservedBase 12) ∧
      t.hart.get 7 = 3 ∧ (∀ r, r ∉ [5, 6, 7] → t.hart.get r = s.hart.get r) ∧
      t.csr = Function.update (Function.update s.csr mscratch (s.hart.get 5)) mtval
        (s.csr mscratch) := by
    simp [entryCode, runBlock, executeBlock, execute, ImmOp.apply, h0, h4, h8, h12, h16, h20,
      Function.update_of_ne, hne]
    refine ⟨rfl, rfl, rfl, fun r h5 h6 h7 => ?_⟩
    simp [h5, h6, h7]
  obtain ⟨t, hrun, hmemory, hbase, hcause, hthree, hregisters, hcsr⟩ := hrun
  obtain ⟨ht0, ht1, ht2, hsaved, hscratch⟩ := loadWord_handlerMemory s
  refine ⟨t, hrun, hcause.trans hsaved, hthree,
    ⟨hbase, hregisters, fun csr hmem => ?_, ?_, ?_, ?_, ?_, ?_⟩⟩
  · simp only [List.mem_cons, List.not_mem_nil, or_false, not_or] at hmem
    rw [hcsr, Function.update_of_ne hmem.2.2, Function.update_of_ne hmem.1]
  · rw [hmemory, ht0]
  · rw [hmemory, ht1]
  · rw [hmemory, ht2]
  · rw [hmemory, hscratch]
  · intro a ha
    rw [hmemory, handlerMemory_eq s ha]

/-- **The address of the return.** -/
theorem runBlock_return (ram : BitVec 32 → Bool) (h : Saved s t) :
    ∃ u, runBlock ram returnCode t = some u ∧ Saved s u ∧
    u.csr mepc = 0x1ffc := by
  have hrun : ∃ u, runBlock ram returnCode t = some u ∧ u.hart.memory = t.hart.memory ∧
      (∀ r, r ≠ 6 → u.hart.get r = t.hart.get r) ∧ u.csr = Function.update t.csr mepc 0x1ffc := by
    simp [returnCode, runBlock, executeBlock, execute, ImmOp.apply]
    intro r hr
    simp [hr]
  obtain ⟨u, hrun, hmemory, hregisters, hcsr⟩ := hrun
  refine ⟨u, hrun, ⟨?_, fun r hr => ?_, fun csr hmem => ?_, ?_, ?_, ?_, ?_, ?_⟩, ?_⟩
  · rw [hregisters 5 (by decide), h.base]
  · simp only [List.mem_cons, List.not_mem_nil, or_false, not_or] at hr
    rw [hregisters r hr.2.1]
    exact h.registers r (by simp [hr])
  · rw [hcsr, Function.update_of_ne (by rintro rfl; exact hmem (by decide)), h.csrs csr hmem]
  · rw [hmemory, h.t0]
  · rw [hmemory, h.t1]
  · rw [hmemory, h.t2]
  · rw [hmemory, h.scratch]
  · intro a ha
    rw [hmemory, h.memory a ha]
  · rw [hcsr, Function.update_self]

/-- **Restoring.** -/
theorem runBlock_restore (hram : ∀ k ≤ 20, WordInRam ram (slot reservedBase k)) (h : Saved s t) :
    ∃ u, runBlock ram restoringCode t = some u ∧ u.csr mepc = t.csr mepc ∧
      (∀ r, u.hart.get r = s.hart.get r) ∧
      (∀ csr, csr ≠ mepc → csr ≠ mtval → u.csr csr = s.csr csr) ∧
      ∀ a, ¬ InReserved a → u.hart.memory a = s.hart.memory a := by
  have h0 : WordInRam ram 0x10000#32 := hram 0 (by decide)
  have h4 : WordInRam ram 0x10004#32 := hram 4 (by decide)
  have h8 : WordInRam ram 0x10008#32 := hram 8 (by decide)
  have h20 : WordInRam ram 0x10014#32 := hram 20 (by decide)
  have ht0 : loadWord t.hart.memory 0x10000#32 = s.hart.get 5 := h.t0
  have ht1 : loadWord t.hart.memory 0x10004#32 = s.hart.get 6 := h.t1
  have ht2 : loadWord t.hart.memory 0x10008#32 = s.hart.get 7 := h.t2
  have hscratch : loadWord t.hart.memory 0x10014#32 = s.csr mscratch := h.scratch
  have hbase : t.hart.get 5 = 0x10000#32 := h.base
  have hne : mepc ≠ mscratch := by decide
  simp [restoringCode, runBlock, executeBlock, execute, hbase, h0, h4, h8, h20, ht0, ht1, ht2,
    hscratch, Function.update_of_ne, hne]
  refine ⟨fun r => ?_, fun csr hepc htval => ?_, h.memory⟩
  · by_cases h5 : r = 5
    · simp [h5]
    by_cases h7 : r = 7
    · simp [h7]
    by_cases h6 : r = 6
    · simp [h6]
    simp [h5, h6, h7, h.registers]
  · by_cases hmscratch : csr = mscratch
    · rw [hmscratch, Function.update_self]
    · rw [Function.update_of_ne hmscratch]
      exact h.csrs csr (by simp [hmscratch, hepc, htval])

end Blocks

/-! ### The handler -/

section Handler

variable {ram : BitVec 32 → Bool} {fetch : ℕ → Option TrapInstruction} {n : ℕ}

/-- A block of the handler. -/
theorem reaches_handlerBlock
    (hfetch : ∀ k i, (handlerCode n)[k]? = some i → fetch (4 * (n + 1 + k)) = some i)
    (front block back : List TrapInstruction) (hcode : handlerCode n = front ++ (block ++ back))
    {s t : TrapHart} (hrun : runBlock ram block s = some t) :
    Reaches ram fetch ⟨s, 4 * (n + 1 + front.length)⟩
      ⟨t, 4 * (n + 1 + (front.length + block.length))⟩ := by
  have hblock : ∀ j i, block[j]? = some i →
      fetch (4 * (n + 1 + front.length) + 4 * j) = some i := by
    intro j i hi
    rw [← Nat.mul_add, Nat.add_assoc (n + 1)]
    refine hfetch (front.length + j) i ?_
    rw [hcode]
    exact getElem?_middle _ _ _ hi
  have hreaches := reaches_block hblock hrun
  rwa [← Nat.mul_add, Nat.add_assoc (n + 1)] at hreaches

/-- **Code that is fetched as the handler is transparent.** -/
theorem handlerTransparent_of_fetch
    (hfetch : ∀ k i, (handlerCode n)[k]? = some i → fetch (4 * (n + 1 + k)) = some i)
    (hram : ∀ a, InReserved a → ram a = true) (s : TrapHart) :
    HandlerTransparent ram fetch (4 * (n + 1)) s := by
  have hwords : ∀ k ≤ 20, WordInRam ram (slot reservedBase k) :=
    fun k hk => wordInRam_reserved hram hk
  obtain ⟨t, hentry, hcause, hthree, hsaved⟩ := runBlock_entry hwords s
  have hfirst : Reaches ram fetch ⟨s, 4 * (n + 1)⟩ ⟨t, 4 * (n + 16)⟩ :=
    reaches_handlerBlock hfetch [] entryCode _ rfl hentry
  have hbranch : step ram fetch ⟨t, 4 * (n + 16)⟩ =
      some ⟨t, if s.csr mcause = 3 then 4 * (n + 16) + 20 else 4 * (n + 16) + 4⟩ := by
    rw [step, show fetch (4 * (n + 16)) = some (handlerBranch n) from hfetch 15 _ rfl,
      handlerBranch]
    simp only [hcause, hthree]
  constructor
  · intro h
    rw [if_pos h] at hbranch
    exact ⟨_, hfirst.tail hbranch, hfetch 20 _ rfl, by simp only; omega⟩
  · intro h
    rw [if_neg h] at hbranch
    obtain ⟨u, hreturn, hsaved, hepc⟩ := runBlock_return ram hsaved
    have hsecond : Reaches ram fetch ⟨t, 4 * (n + 17)⟩ ⟨u, 4 * (n + 20)⟩ :=
      reaches_handlerBlock hfetch (entryCode ++ [handlerBranch n]) returnCode
        (handlerJump n :: .ebreak :: (restoringCode ++ [.mret])) rfl hreturn
    have hjump : step ram fetch ⟨u, 4 * (n + 20)⟩ =
        some ⟨{ u with hart := u.hart.set 0 (BitVec.ofNat 32 (4 * (n + 20) + 4)) },
          4 * (n + 22)⟩ := by
      rw [step, show fetch (4 * (n + 20)) = some (handlerJump n) from hfetch 19 _ rfl]
      rfl
    obtain ⟨v, hrestore, hvepc, hregisters, hcsrs, hmemory⟩ :=
      runBlock_restore hwords (hsaved.set_zero _)
    have hthird : Reaches ram fetch ⟨_, 4 * (n + 22)⟩ ⟨v, 4 * (n + 27)⟩ :=
      reaches_handlerBlock hfetch
        (entryCode ++ handlerBranch n :: (returnCode ++ [handlerJump n, .ebreak]))
        restoringCode [.mret] rfl hrestore
    exact ⟨⟨v, 4 * (n + 27)⟩, ((hfirst.tail hbranch).trans (hsecond.tail hjump)).trans hthird,
      hfetch 26 _ rfl, by simp only; omega, hvepc.trans hepc, hregisters, hcsrs, hmemory⟩

end Handler

/-- **The handler of every preamble is transparent.**  The words of the preamble stand behind those
that were there before; the handler is behind the jump over it, and anything may follow. -/
theorem trapHandler_transparent {G : Prng} {e e' : IsgEngine G} {u : Unit}
    (hrun : (emitPreamble : EngineM G Unit).run e = some (u, e')) (hroom : HasRoom e)
    (hfit : UncheckedFit e') (rest : List Text) {ram : BitVec 32 → Bool}
    (hram : ∀ a, InReserved a → ram a = true) (s : TrapHart) :
    HandlerTransparent ram (fetchLine (assemble e'.text ++ rest))
      (4 * ((assemble e.text).length + 1)) s := by
  have hintact : BufferIntact e' :=
    ((Emission.emitPreamble.relates_bufferStep _ _ _ hrun).2 hfit hroom).2
  obtain ⟨words, hadds, front, back, rfl⟩ := lays_emitPreamble.adds _ _ _ hroom hfit hrun
  rw [assemble_text hintact, assemble_text hroom.2, hadds, List.append_assoc, List.append_assoc]
  exact handlerTransparent_of_fetch (fun k i hi => fetchLine_handler _ _ hi) hram s

/-- A breakpoint, and another trap, in a program with nothing before the preamble. -/
theorem trapHandler_transparent_first :
    ∃ e, (emitPreamble : EngineM mt19937_64 Unit).run (.create mt19937_64 1 fun _ => '\x00') =
      some ((), e) ∧
      ∀ s, HandlerTransparent (fun _ => true) (fetchLine (assemble e.text ++ [])) 4 s := by
  have hbudget : HasBudget (IsgEngine.create mt19937_64 1 fun _ => '\x00') 300 12000 :=
    ⟨by decide, by decide, fun append hmem => absurd hmem List.not_mem_nil⟩
  obtain ⟨u, e, hrun, hspent⟩ := completes_emitPreamble _ hbudget
  exact ⟨e, hrun, fun s => trapHandler_transparent hrun (hasRoom_create _ _) hspent.fit []
    (fun _ _ => rfl) s⟩

end CoralNpu
