/-
**Code with loops.**

A loop is code that goes back to its beginning by a branch at its end.  The machine of the code
around traps gets an exclusive or, the branch that is taken when two registers differ, and the
register that holds the address of the trap handler.  Its steps are counted.

Main definitions:

* `Rv32.LoopInstruction`, `Rv32.loopInstructionOf` — the instructions, and the lines that stand for
  them;
* `Rv32.loopStep`, `Rv32.Takes` — a step of the machine, and a number of them;
* `Rv32.runStraight` — instructions that go on to the next one;
* `Rv32.xorshift32` — a generator of words by shifts.

Main results:

* `Rv32.takes_straight` — **straight code that is fetched runs to its end**;
* `Rv32.takes_turns` — **the rule of the loop**;
* `Rv32.xorshift32_iterate_ne_zero` — the generator never comes to zero.
-/

import CoralNpu.Rv32Trap

set_option relaxedAutoImplicit false
set_option autoImplicit false

namespace Rv32

open AsciiText

/-! ### Instructions -/

def mtvec : Csr := 0x305

/-- An instruction of code with loops. -/
inductive LoopInstruction where
  | trap (i : TrapInstruction)
  | xor (rd rs1 rs2 : Reg)
  | bne (rs1 rs2 : Reg) (target : ℕ)
  deriving DecidableEq

/-- The instruction a line stands for. -/
def loopInstructionOf (line : Text) : Option LoopInstruction :=
  match tokens line with
  | [mnemonic, a, b] =>
      if mnemonic = "csrw".toList ∧ a = "mtvec".toList then do
        return .trap (.csrrw 0 mtvec (← regOf b))
      else (trapInstructionOf line).map .trap
  | [mnemonic, a, b, c] =>
      if mnemonic = "xor".toList then do return .xor (← regOf a) (← regOf b) (← regOf c)
      else if mnemonic = "bne".toList then do return .bne (← regOf a) (← regOf b) (← targetOf c)
      else (trapInstructionOf line).map .trap
  | _ => (trapInstructionOf line).map .trap

/-- Fetching from the lines of a program that starts at address zero. -/
def fetchLoop (lines : List Text) (pc : ℕ) : Option LoopInstruction :=
  if pc % 4 = 0 then lines[pc / 4]?.bind loopInstructionOf else none

/-- What is fetched from a line. -/
theorem fetchLoop_eq {lines : List Text} {k : ℕ} {line : Text} {i : LoopInstruction}
    (hline : lines[k]? = some line) (h : loopInstructionOf line = some i) :
    fetchLoop lines (4 * k) = some i := by
  rw [fetchLoop, if_pos (by omega), Nat.mul_div_cancel_left k (by decide), hline,
    Option.bind_some, h]

/-! ### Execution -/

section Execution

variable (ram : BitVec 32 → Bool) (fetch : ℕ → Option LoopInstruction)

/-- A step of the machine. -/
def loopStep (m : Machine) : Option Machine :=
  match fetch m.pc with
  | none => none
  | some (.trap i) => step ram (fun _ => some i) m
  | some (.xor rd rs1 rs2) =>
      let hart := m.state.hart
      some ⟨{ m.state with hart := hart.set rd (hart.get rs1 ^^^ hart.get rs2) }, m.pc + 4⟩
  | some (.bne rs1 rs2 target) =>
      some { m with pc := if m.state.hart.get rs1 = m.state.hart.get rs2 then m.pc + 4 else target }

/-- A number of steps. -/
def loopSteps : ℕ → Machine → Option Machine
  | 0, m => some m
  | n + 1, m => (loopStep ram fetch m).bind (loopSteps n)

/-- The machine comes from `m` to `m'` in `n` steps. -/
def Takes (n : ℕ) (m m' : Machine) : Prop := loopSteps ram fetch n m = some m'

/-- An instruction that goes on to the next one; `none` when it traps, or branches. -/
def executeStraight : LoopInstruction → TrapHart → Option TrapHart
  | .trap i, s => executeBlock ram i s
  | .xor rd rs1 rs2, s => some { s with hart := s.hart.set rd (s.hart.get rs1 ^^^ s.hart.get rs2) }
  | .bne _ _ _, _ => none

/-- Instructions of this kind, one after the other. -/
def runStraight : List LoopInstruction → TrapHart → Option TrapHart
  | [], s => some s
  | i :: is, s => (executeStraight ram i s).bind (runStraight is)

end Execution

variable {ram : BitVec 32 → Bool} {fetch : ℕ → Option LoopInstruction}

theorem Takes.refl (m : Machine) : Takes ram fetch 0 m m := rfl

theorem Takes.head {n : ℕ} {m m' m'' : Machine} (h : loopStep ram fetch m = some m')
    (h' : Takes ram fetch n m' m'') : Takes ram fetch (n + 1) m m'' := by
  rw [Takes, loopSteps, h, Option.bind_some]
  exact h'

theorem Takes.single {m m' : Machine} (h : loopStep ram fetch m = some m') :
    Takes ram fetch 1 m m' :=
  .head h (.refl m')

theorem Takes.trans {n n' : ℕ} {m m' m'' : Machine} (h : Takes ram fetch n m m')
    (h' : Takes ram fetch n' m' m'') : Takes ram fetch (n + n') m m'' := by
  induction n generalizing m with
  | zero =>
      cases h
      rwa [Nat.zero_add]
  | succ n ih =>
      obtain ⟨m₁, hstep, hrest⟩ := Option.bind_eq_some_iff.1 h
      rw [Nat.add_right_comm]
      exact .head hstep (ih hrest)

theorem runStraight_append (is js : List LoopInstruction) (s : TrapHart) :
    runStraight ram (is ++ js) s = (runStraight ram is s).bind (runStraight ram js) := by
  induction is generalizing s with
  | nil => rfl
  | cons i is ih =>
      rw [List.cons_append, runStraight, runStraight, Option.bind_assoc]
      exact congrArg _ (funext ih)

/-- A step to the next instruction. -/
theorem loopStep_of_executeStraight {i : LoopInstruction} {s s' : TrapHart} {pc : ℕ}
    (hfetch : fetch pc = some i) (h : executeStraight ram i s = some s') :
    loopStep ram fetch ⟨s, pc⟩ = some ⟨s', pc + 4⟩ := by
  simp only [loopStep, hfetch]
  cases i with
  | trap i => exact step_of_executeBlock rfl h
  | xor rd rs1 rs2 =>
      cases h
      rfl
  | bne rs1 rs2 target => cases h

/-- **Straight code that is fetched runs to its end**, with a step for each instruction. -/
theorem takes_straight {is : List LoopInstruction} {s s' : TrapHart} {pc : ℕ}
    (hfetch : ∀ k i, is[k]? = some i → fetch (pc + 4 * k) = some i)
    (h : runStraight ram is s = some s') :
    Takes ram fetch is.length ⟨s, pc⟩ ⟨s', pc + 4 * is.length⟩ := by
  induction is generalizing s pc with
  | nil =>
      cases h
      exact .refl _
  | cons i is ih =>
      obtain ⟨t, hfirst, hrest⟩ := Option.bind_eq_some_iff.1 h
      have hstep := loopStep_of_executeStraight (hfetch 0 i rfl) hfirst
      have htailFetch : ∀ k j, is[k]? = some j → fetch (pc + 4 + 4 * k) = some j := by
        intro k j hj
        rw [Nat.add_assoc, Nat.add_comm 4, ← Nat.mul_succ]
        exact hfetch (k + 1) j hj
      have htail := ih htailFetch hrest
      rw [Nat.add_assoc, Nat.add_comm 4, ← Nat.mul_succ] at htail
      exact .head hstep htail

/-- **The rule of the loop**: when a turn goes back to the beginning, the last one to the exit, and
each hands the invariant on, the loop takes its turns and comes to the exit. -/
theorem takes_turns {Inv : ℕ → TrapHart → Prop} {size loop exit turns : ℕ}
    (hturn : ∀ j s, j < turns → Inv j s → ∃ s',
      Takes ram fetch size ⟨s, loop⟩ ⟨s', if j + 1 = turns then exit else loop⟩ ∧ Inv (j + 1) s')
    (hpos : 0 < turns) {s : TrapHart} (h : Inv 0 s) :
    ∃ s', Takes ram fetch (turns * size) ⟨s, loop⟩ ⟨s', exit⟩ ∧ Inv turns s' := by
  have hsome : ∀ j, j < turns →
      ∃ s', Takes ram fetch (j * size) ⟨s, loop⟩ ⟨s', loop⟩ ∧ Inv j s' := by
    intro j hj
    induction j with
    | zero => exact ⟨s, by rw [Nat.zero_mul]; exact .refl _, h⟩
    | succ j ih =>
        obtain ⟨t, htakes, hinv⟩ := ih (by omega)
        obtain ⟨t', hlast, hinv'⟩ := hturn j t (by omega) hinv
        rw [if_neg (by omega)] at hlast
        exact ⟨t', by rw [Nat.succ_mul]; exact htakes.trans hlast, hinv'⟩
  obtain ⟨t, htakes, hinv⟩ := hsome (turns - 1) (by omega)
  obtain ⟨t', hlast, hinv'⟩ := hturn (turns - 1) t (by omega) hinv
  have hturns : turns - 1 + 1 = turns := by omega
  rw [if_pos hturns] at hlast
  rw [hturns] at hinv'
  refine ⟨t', ?_, hinv'⟩
  have hall := htakes.trans hlast
  rwa [← Nat.succ_mul, Nat.succ_eq_add_one, hturns] at hall

/-! ### A generator of words -/

/-- A step of the generator. -/
def xorshift32 (x : BitVec 32) : BitVec 32 :=
  let x := x ^^^ x <<< 13
  let x := x ^^^ x >>> 17
  x ^^^ x <<< 5

/-- A word that is its own shift to the left is zero: its bits come from below. -/
theorem eq_zero_of_eq_shiftLeft {w n : ℕ} (hn : 0 < n) {x : BitVec w} (h : x = x <<< n) :
    x = 0 := by
  have hbit : ∀ i, x.getLsbD i = false := by
    intro i
    induction i using Nat.strong_induction_on with
    | h i ih =>
        rw [h, BitVec.getLsbD_shiftLeft]
        by_cases hlt : i < n
        · simp [hlt]
        · rw [ih (i - n) (by omega), Bool.and_false]
  apply BitVec.eq_of_getLsbD_eq
  intro i _
  exact (hbit i).trans BitVec.getLsbD_zero.symm

/-- A word that is its own shift to the right is zero: its bits come from above. -/
theorem eq_zero_of_eq_ushiftRight {w n : ℕ} (hn : 0 < n) {x : BitVec w} (h : x = x >>> n) :
    x = 0 := by
  have hbit : ∀ k i, w ≤ i + k → x.getLsbD i = false := by
    intro k
    induction k with
    | zero => exact fun i hi => BitVec.getLsbD_of_ge x i hi
    | succ k ih =>
        intro i hi
        rw [h, BitVec.getLsbD_ushiftRight]
        exact ih (n + i) (by omega)
  apply BitVec.eq_of_getLsbD_eq
  intro i _
  exact (hbit w i (by omega)).trans BitVec.getLsbD_zero.symm

/-- **The generator does not come to zero**: each of its three steps can be undone. -/
theorem xorshift32_ne_zero {x : BitVec 32} (h : x ≠ 0) : xorshift32 x ≠ 0 := by
  have hleft : ∀ {n : ℕ} {y : BitVec 32}, 0 < n → y ≠ 0 → y ^^^ y <<< n ≠ 0 :=
    fun hn hy hzero => hy (eq_zero_of_eq_shiftLeft hn (BitVec.xor_eq_zero_iff.1 hzero))
  have hright : ∀ {n : ℕ} {y : BitVec 32}, 0 < n → y ≠ 0 → y ^^^ y >>> n ≠ 0 :=
    fun hn hy hzero => hy (eq_zero_of_eq_ushiftRight hn (BitVec.xor_eq_zero_iff.1 hzero))
  exact hleft (by decide) (hright (by decide) (hleft (by decide) h))

theorem xorshift32_iterate_ne_zero {x : BitVec 32} (h : x ≠ 0) (k : ℕ) : xorshift32^[k] x ≠ 0 := by
  induction k with
  | zero => exact h
  | succ k ih =>
      rw [Function.iterate_succ_apply']
      exact xorshift32_ne_zero ih

end Rv32
