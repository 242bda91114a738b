/-
**Stepping in one call and in several.**

`Step(n)` executes its first instruction by stepping past a breakpoint when the last halt was due to
one, and the rest in its loop.  Behind the loop it decides from the halt reason where the pc
register goes.  That reason is the old one as long as no instruction of the call requests a halt, so
a step from a software breakpoint takes the way meant for arriving at one, with a variable that
names the wrong instruction or none.

Main definitions:

* `CoralNpu.CoralNpuTop.stepOnes` — `Step(1)` again and again until it halts for another reason;
* `CoralNpu.CoralNpuTop.StepComposes` — `Step(n)` does the same, and leaves the next pc in the
  register;
* `CoralNpu.CoralNpuTop.Resumable` — a halt by a software breakpoint asks for a step past it;
* `CoralNpu.CoralNpuTop.LeavesBreakpoint` — behind the step past a breakpoint the halt reason is not
  that of one.

Main results:

* `CoralNpu.CoralNpuTop.Reached.resumable` — every top that commands reach is resumable;
* `CoralNpu.CoralNpuTop.stepHalted_succ` — a step is one instruction and a step for the rest;
* `CoralNpu.CoralNpuTop.stepComposes_iff` — **stepping composes exactly when it leaves the
  breakpoint**.
-/

import CoralNpu.CoralNpuTopResume

set_option relaxedAutoImplicit false
set_option autoImplicit false

namespace CoralNpu

open WordMemory

/-- The address of the instruction to execute next: a breakpoint keeps the pc. -/
def Executed.nextPc {ρ : Type} (e : Executed ρ) : BitVec 32 :=
  if e.request = some .softwareBreakpoint then e.instruction.address.setWidth 32 else e.after.pc

namespace CoralNpuTop

variable {ρ : Type} {C : DecodeCache}

/-! ### Composition -/

/-- `n` successive calls of `Step(1)`, stopped at the first that halts for another reason.  Every
call has its own uninitialised variable. -/
def stepOnes (isa : InstructionSet ρ) (garbage : ℕ → Address) :
    ℕ → CoralNpuTop ρ C → ℕ × CoralNpuTop ρ C
  | 0, s => (0, s)
  | n + 1, s =>
      match s.step isa (garbage n) 1 with
      | .error _ => (0, s)
      | .ok (count, s') =>
          if s'.haltReason = .none then
            let (count', s'') := stepOnes isa garbage n s'
            (count + count', s'')
          else (count, s')

/-- **Stepping composes**: `Step(n)` leaves the core and the halt reason of `n` calls of `Step(1)`
and reports their count, and the pc register holds the address of the next instruction. -/
def StepComposes (isa : InstructionSet ρ) (s : CoralNpuTop ρ C) : Prop :=
  ∀ (garbage : Address) (garbages : ℕ → Address) (n : ℕ), 0 < n →
    ∃ count s' e, s.step isa garbage n = .ok (count, s') ∧
      count = (s.stepOnes isa garbages n).1 ∧ s'.core = (s.stepOnes isa garbages n).2.core ∧
      s'.haltReason = (s.stepOnes isa garbages n).2.haltReason ∧
      s'.executed.getLast? = some e ∧ s'.pc = e.nextPc

/-- The core is halted, and a halt by a software breakpoint asks for a step past it. -/
structure Resumable (s : CoralNpuTop ρ C) : Prop where
  runStatus_eq : s.runStatus = .halted
  needToStepOver_eq : s.haltReason = .softwareBreakpoint → s.needToStepOver = true

/-- Behind the step past a breakpoint, if there is one, the halt reason is not that of a software
breakpoint. -/
def LeavesBreakpoint (isa : InstructionSet ρ) (s : CoralNpuTop ρ C) : Prop :=
  s.needToStepOver = true →
    (s.steppedPast isa).request.getD s.haltReason ≠ .softwareBreakpoint

/-! ### The loop in two parts -/

theorem iterate_add (body : Loop ρ C → Loop ρ C) (m n : ℕ) (l : Loop ρ C) :
    iterate body (m + n) l = iterate body n (iterate body m l) := by
  induction m generalizing l with
  | zero => rw [Nat.zero_add, iterate]
  | succ m ih =>
      cases h : l.top.halted with
      | true => rw [iterate_of_halted h, iterate_of_halted h, iterate_of_halted h]
      | false => rw [Nat.succ_add, iterate_succ h, iterate_succ h, ih]

/-- The loop behind the first instruction of a step. -/
def firstLoop (isa : InstructionSet ρ) (garbage : Address) (s : CoralNpuTop ρ C) : Loop ρ C :=
  let l := stepStart isa garbage s
  iterate (advance isa) (1 - l.count) l

/-- The first instruction of a step. -/
def firstEntry (isa : InstructionSet ρ) (s : CoralNpuTop ρ C) : Executed ρ :=
  if s.needToStepOver then s.steppedPast isa else s.entryAt isa s.pcAddress

theorem stepHalted_eq (isa : InstructionSet ρ) (garbage : Address) (n : ℕ) (s : CoralNpuTop ρ C) :
    s.stepHalted isa garbage (n + 1) =
      ((iterate (advance isa) n (firstLoop isa garbage s)).count,
        stepFinish (iterate (advance isa) n (firstLoop isa garbage s))) := by
  have hcount : (stepStart isa garbage s).count ≤ 1 := by
    simp only [stepStart]
    split
    · exact Nat.le_refl 1
    · exact Nat.zero_le 1
  have hsum : n + 1 - (stepStart isa garbage s).count =
      (1 - (stepStart isa garbage s).count) + n := by omega
  simp only [stepHalted, iterate_stepBody, hsum, iterate_add]
  rfl

/-- The top when `Step` starts to execute. -/
def stepping (s : CoralNpuTop ρ C) : CoralNpuTop ρ C :=
  { s with runStatus := .singleStep, halted := false, needToStepOver := false }

theorem firstLoop_of_need (isa : InstructionSet ρ) (garbage : Address) {s : CoralNpuTop ρ C}
    (h : s.needToStepOver = true) :
    firstLoop isa garbage s =
      ⟨s.stepping.stepPastBreakpoint isa, garbage,
        (s.stepping.stepPastBreakpoint isa).pcAddress, 1⟩ := by
  simp only [firstLoop, stepStart, h, if_true]
  rfl

theorem firstLoop_of_not_need (isa : InstructionSet ρ) (garbage : Address)
    {s : CoralNpuTop ρ C} (h : s.needToStepOver = false) :
    firstLoop isa garbage s =
      ⟨s.stepping.executeAt isa s.pcAddress, s.pcAddress,
        (s.stepping.executeAt isa s.pcAddress).pcAddress, 1⟩ := by
  simp only [firstLoop, stepStart, h, Bool.false_eq_true, if_false]
  rfl

/-- What the first instruction does to the loop. -/
structure AfterFirst (isa : InstructionSet ρ) (s : CoralNpuTop ρ C) (l : Loop ρ C) : Prop where
  count_eq : l.count = 1
  executed_eq : l.top.executed = s.executed ++ [firstEntry isa s]
  halted_eq : l.top.halted = (firstEntry isa s).request.isSome
  haltReason_eq : l.top.haltReason = (firstEntry isa s).request.getD s.haltReason
  needToStepOver_eq : l.top.needToStepOver =
    ((firstEntry isa s).request == some .softwareBreakpoint)
  runStatus_eq : l.top.runStatus = .singleStep
  pc_eq : l.top.pc = (firstEntry isa s).after.pc
  nextPc_eq : l.nextPc = l.top.pcAddress
  lastPc_eq : s.needToStepOver = false → l.pc = (firstEntry isa s).instruction.address

theorem afterFirst_firstLoop (isa : InstructionSet ρ) (garbage : Address) (s : CoralNpuTop ρ C) :
    AfterFirst isa s (firstLoop isa garbage s) := by
  cases h : s.needToStepOver with
  | true =>
      have hentry : s.stepping.steppedPast isa = firstEntry isa s := by
        rw [firstEntry, if_pos h]
        exact steppedPast_congr isa rfl rfl rfl
      rw [firstLoop_of_need isa garbage h]
      constructor
      · rfl
      · rw [executed_stepPastBreakpoint, hentry, stepping]
      · rw [halted_stepPastBreakpoint, hentry, stepping, Bool.false_or]
      · rw [haltReason_stepPastBreakpoint, hentry, stepping]
      · rw [needToStepOver_stepPastBreakpoint, hentry, stepping, Bool.false_or]
      · rw [runStatus_stepPastBreakpoint, stepping]
      · rw [pc_stepPastBreakpoint, hentry]
      · rfl
      · intro hneed
        rw [h] at hneed
        cases hneed
  | false =>
      have hentry : s.stepping.entryAt isa s.pcAddress = firstEntry isa s := by
        rw [firstEntry, if_neg (by rw [h]; exact Bool.false_ne_true)]
        exact entryAt_congr isa _ rfl rfl rfl
      rw [firstLoop_of_not_need isa garbage h]
      constructor
      · rfl
      · rw [executed_executeAt, hentry, stepping]
      · rw [halted_executeAt, hentry, stepping, Bool.false_or]
      · rw [haltReason_executeAt, hentry, stepping]
      · rw [needToStepOver_executeAt, hentry, stepping, Bool.false_or]
      · rw [runStatus_executeAt, stepping]
      · rw [pc_executeAt, hentry]
      · rfl
      · intro _
        rw [← hentry, address_entryAt]

/-- A step leaves the breakpoint when the halt reason behind its first instruction is that of one
only if the loop has executed it. -/
theorem haltReason_firstEntry {isa : InstructionSet ρ} {s : CoralNpuTop ρ C} (hs : s.Resumable)
    (hleaves : LeavesBreakpoint isa s)
    (h : (firstEntry isa s).request.getD s.haltReason = .softwareBreakpoint) :
    s.needToStepOver = false ∧ (firstEntry isa s).request = some .softwareBreakpoint := by
  cases hneed : s.needToStepOver with
  | true =>
      rw [firstEntry, if_pos hneed] at h
      exact absurd h (hleaves hneed)
  | false =>
      refine ⟨rfl, ?_⟩
      cases hrequest : (firstEntry isa s).request with
      | none =>
          rw [hrequest, Option.getD_none] at h
          rw [hs.needToStepOver_eq h] at hneed
          cases hneed
      | some reason =>
          rw [hrequest, Option.getD_some] at h
          rw [h]

/-! ### Stale halt reasons -/

/-- The old halt reason of a top does not matter to an instruction. -/
theorem executeAt_with_haltReason (isa : InstructionSet ρ) (address : Address)
    (reason : HaltReason) (s : CoralNpuTop ρ C) :
    ({ s with haltReason := reason }).executeAt isa address =
      { s.executeAt isa address with
        haltReason := (s.entryAt isa address).request.getD reason } := by
  have hentry : ({ s with haltReason := reason } : CoralNpuTop ρ C).entryAt isa address =
      s.entryAt isa address := entryAt_congr isa address rfl rfl rfl
  rw [executeAt_eq, executeAt_eq, hentry, ready, ready, getDecodedInstruction,
    getDecodedInstruction]
  cases C.lookup s.code.client address <;> rfl

/-- Two loops that differ in a halt reason that is not in force, and in the instructions of earlier
calls. -/
structure SameButStale (l l' : Loop ρ C) : Prop where
  top_eq : l'.top =
    { l.top with haltReason := if l.top.halted then l.top.haltReason else .none }
  nextPc_eq : l'.nextPc = l.nextPc
  count_eq : l.count = l'.count + 1
  pc_eq : l.top.halted = true → l'.pc = l.pc
  haltReason_ne : l.top.halted = false → l.top.haltReason ≠ .softwareBreakpoint

theorem SameButStale.halted_eq {l l' : Loop ρ C} (h : SameButStale l l') :
    l'.top.halted = l.top.halted := by rw [h.top_eq]

theorem SameButStale.advance (isa : InstructionSet ρ) {l l' : Loop ρ C} (h : SameButStale l l')
    (hl : l.top.halted = false) : SameButStale (advance isa l) (advance isa l') := by
  have htop : l'.top = { l.top with haltReason := .none } := by
    rw [h.top_eq, hl]
    rfl
  have hnext : l'.top.executeAt isa l'.nextPc = { l.top.executeAt isa l.nextPc with
      haltReason := (l.top.entryAt isa l.nextPc).request.getD .none } := by
    rw [htop, h.nextPc_eq, executeAt_with_haltReason]
  have hhalted : (l.top.executeAt isa l.nextPc).halted =
      (l.top.entryAt isa l.nextPc).request.isSome := by
    rw [halted_executeAt, hl, Bool.false_or]
  constructor
  · simp only [CoralNpuTop.advance, hnext, hhalted, haltReason_executeAt]
    cases (l.top.entryAt isa l.nextPc).request <;> rfl
  · simp only [CoralNpuTop.advance, hnext]
    rfl
  · simp only [CoralNpuTop.advance, h.count_eq]
  · intro _
    simp only [CoralNpuTop.advance, h.nextPc_eq]
  · intro hgoes
    have hnone : (l.top.entryAt isa l.nextPc).request = none :=
      Option.isSome_eq_false_iff.1 (hhalted.symm.trans hgoes) |> Option.isNone_iff_eq_none.1
    simp only [CoralNpuTop.advance, haltReason_executeAt, hnone, Option.getD_none]
    exact h.haltReason_ne hl

theorem SameButStale.iterate (isa : InstructionSet ρ) (n : ℕ) {l l' : Loop ρ C}
    (h : SameButStale l l') : SameButStale (iterate (CoralNpuTop.advance isa) n l)
      (iterate (CoralNpuTop.advance isa) n l') := by
  induction n generalizing l l' with
  | zero => exact h
  | succ n ih =>
      cases hl : l.top.halted with
      | true => rwa [iterate_of_halted hl, iterate_of_halted (h.halted_eq.trans hl)]
      | false =>
          rw [iterate_succ hl, iterate_succ (h.halted_eq.trans hl)]
          exact ih (h.advance isa hl)

/-- Behind the loop there is no difference left. -/
theorem SameButStale.stepFinish_eq {l l' : Loop ρ C} (h : SameButStale l l') :
    stepFinish l = stepFinish l' := by
  cases hl : l.top.halted with
  | true =>
      have htop : l'.top = l.top := by
        rw [h.top_eq, hl]
        rfl
      rw [stepFinish, stepFinish, finishPc, finishPc, htop, h.pc_eq hl, h.nextPc_eq]
  | false =>
      have htop : l'.top = { l.top with haltReason := .none } := by
        rw [h.top_eq, hl]
        rfl
      have hfinish : finishPc l' = { finishPc l with haltReason := .none } := by
        rw [finishPc, finishPc, if_neg (h.haltReason_ne hl), htop, h.nextPc_eq]
        rfl
      rw [stepFinish_of_not_halted hl, stepFinish_of_not_halted (h.halted_eq.trans hl), hfinish]

/-! ### Stepping composes -/

theorem request_firstEntry {isa : InstructionSet ρ} {s : CoralNpuTop ρ C} {reason : HaltReason}
    (h : (firstEntry isa s).request = some reason) : reason ≠ .none := by
  rw [firstEntry] at h
  split at h
  · exact (request_entryAt isa _ _ h).1
  · exact (request_entryAt isa _ _ h).1

/-- The pc register, when the halt reason is not that of a software breakpoint. -/
theorem finishPc_of_ne {l : Loop ρ C} (hpc : l.nextPc = l.top.pcAddress)
    (h : l.top.haltReason ≠ .softwareBreakpoint) : finishPc l = l.top := by
  have hset : (l.top.pcAddress).setWidth 32 = l.top.pc := by
    rw [pcAddress, BitVec.setWidth_setWidth_of_le _ (by decide), BitVec.setWidth_eq]
  rw [finishPc, if_neg h, hpc, setPc, hset]

section Composition

variable {isa : InstructionSet ρ} {s : CoralNpuTop ρ C}

/-- The uninitialised variable does not matter when the step leaves the breakpoint. -/
theorem stepFinish_firstLoop (hs : s.Resumable) (hleaves : LeavesBreakpoint isa s)
    (garbage garbage' : Address) :
    stepFinish (firstLoop isa garbage s) = stepFinish (firstLoop isa garbage' s) := by
  cases hneed : s.needToStepOver with
  | false => rw [firstLoop_of_not_need isa garbage hneed, firstLoop_of_not_need isa garbage' hneed]
  | true =>
      have hne : ∀ g, (firstLoop isa g s).top.haltReason ≠ .softwareBreakpoint := by
        intro g h
        rw [(afterFirst_firstLoop isa g s).haltReason_eq] at h
        rw [(haltReason_firstEntry hs hleaves h).1] at hneed
        cases hneed
      have hfinish : ∀ g, finishPc (firstLoop isa g s) = (firstLoop isa g s).top := fun g =>
        finishPc_of_ne (afterFirst_firstLoop isa g s).nextPc_eq (hne g)
      rw [stepFinish, stepFinish, hfinish, hfinish, firstLoop_of_need isa garbage hneed,
        firstLoop_of_need isa garbage' hneed]

/-- A step of one instruction. -/
theorem step_one (hs : s.Resumable) (garbage : Address) :
    s.step isa garbage 1 = .ok (1, stepFinish (firstLoop isa garbage s)) := by
  have hcount := (afterFirst_firstLoop isa garbage s).count_eq
  rw [step_eq isa garbage (by decide) hs.runStatus_eq]
  have htwo := stepHalted_eq isa garbage 0 s
  rw [iterate, hcount] at htwo
  exact congrArg Except.ok htwo

/-- Behind a first instruction that requests no halt. -/
theorem stepFinish_firstLoop_of_none (hs : s.Resumable) (hleaves : LeavesBreakpoint isa s)
    (garbage : Address) (h : (firstEntry isa s).request = none) :
    stepFinish (firstLoop isa garbage s) =
      { (firstLoop isa garbage s).top with haltReason := .none, runStatus := .halted } := by
  have hfirst := afterFirst_firstLoop isa garbage s
  have hgoes : (firstLoop isa garbage s).top.halted = false := by rw [hfirst.halted_eq, h]; rfl
  have hne : (firstLoop isa garbage s).top.haltReason ≠ .softwareBreakpoint := by
    intro hreason
    rw [hfirst.haltReason_eq] at hreason
    rw [(haltReason_firstEntry hs hleaves hreason).2] at h
    cases h
  rw [stepFinish_of_not_halted hgoes, finishPc_of_ne hfirst.nextPc_eq hne]

theorem stepStart_of_not_need (isa : InstructionSet ρ) (garbage : Address) {s : CoralNpuTop ρ C}
    (h : s.needToStepOver = false) :
    stepStart isa garbage s = ⟨s.stepping, garbage, s.pcAddress, 0⟩ := by
  simp only [stepStart, h, Bool.false_eq_true, if_false]
  rfl

theorem stepping_of_goes {t : CoralNpuTop ρ C} (hgoes : t.halted = false)
    (hstatus : t.runStatus = .singleStep) (hneed : t.needToStepOver = false) :
    ({ t with haltReason := .none, runStatus := .halted } : CoralNpuTop ρ C).stepping =
      { t with haltReason := .none } := by
  simp [stepping, hgoes, hstatus, hneed]

/-- **A step is one instruction, and a step for the rest.** -/
theorem stepHalted_succ (hs : s.Resumable) (hleaves : LeavesBreakpoint isa s) (garbage : Address)
    (n : ℕ) (h : (firstEntry isa s).request = none) :
    let s' := stepFinish (firstLoop isa garbage s)
    s.stepHalted isa garbage (n + 2) =
      (1 + (s'.stepHalted isa garbage (n + 1)).1, (s'.stepHalted isa garbage (n + 1)).2) := by
  intro s'
  have hfirst := afterFirst_firstLoop isa garbage s
  have hs' : s' = { (firstLoop isa garbage s).top with
      haltReason := .none, runStatus := .halted } :=
    stepFinish_firstLoop_of_none hs hleaves garbage h
  have hgoes : (firstLoop isa garbage s).top.halted = false := by rw [hfirst.halted_eq, h]; rfl
  have hneed : (firstLoop isa garbage s).top.needToStepOver = false := by
    rw [hfirst.needToStepOver_eq, h]
    rfl
  have hstart : stepStart isa garbage s' =
      ⟨{ (firstLoop isa garbage s).top with haltReason := .none }, garbage, s'.pcAddress, 0⟩ := by
    rw [← stepping_of_goes hgoes hfirst.runStatus_eq hneed, ← hs']
    exact stepStart_of_not_need isa garbage (by rw [hs']; exact hneed)
  have hstale : SameButStale (firstLoop isa garbage s) (stepStart isa garbage s') := by
    rw [hstart]
    constructor
    · rw [hgoes]
      rfl
    · rw [hs', hfirst.nextPc_eq]
      rfl
    · exact hfirst.count_eq
    · intro hhalted
      rw [hgoes] at hhalted
      cases hhalted
    · intro _ hreason
      rw [hfirst.haltReason_eq] at hreason
      rw [(haltReason_firstEntry hs hleaves hreason).2] at h
      cases h
  have hcount : (stepStart isa garbage s').count = 0 := by rw [hstart]
  have hrest := hstale.iterate isa (n + 1)
  rw [stepHalted_eq, hrest.stepFinish_eq, hrest.count_eq, stepHalted]
  simp only [hcount, Nat.sub_zero, iterate_stepBody, Nat.add_comm 1]

/-- A first instruction that requests a halt is the whole step. -/
theorem stepHalted_of_some (garbage : Address) (n : ℕ) {reason : HaltReason}
    (h : (firstEntry isa s).request = some reason) :
    s.stepHalted isa garbage (n + 1) = (1, stepFinish (firstLoop isa garbage s)) ∧
      (stepFinish (firstLoop isa garbage s)).haltReason = reason := by
  have hfirst := afterFirst_firstLoop isa garbage s
  have hhalted : (firstLoop isa garbage s).top.halted = true := by
    rw [hfirst.halted_eq, h]
    rfl
  constructor
  · rw [stepHalted_eq, iterate_of_halted hhalted, hfirst.count_eq]
  · rw [stepFinish_of_halted hhalted]
    show (finishPc (firstLoop isa garbage s)).haltReason = reason
    rw [haltReason_finishPc, hfirst.haltReason_eq, h, Option.getD_some]

end Composition

/-- A step is as many steps of one instruction, when it leaves the breakpoint. -/
theorem stepHalted_eq_stepOnes (isa : InstructionSet ρ) (garbage : Address)
    (garbages : ℕ → Address) (n : ℕ) {s : CoralNpuTop ρ C} (hs : s.Resumable)
    (hleaves : LeavesBreakpoint isa s) :
    s.stepHalted isa garbage (n + 1) = s.stepOnes isa garbages (n + 1) := by
  induction n generalizing s with
  | zero =>
      simp only [stepOnes, step_one hs]
      have hone := stepHalted_eq isa garbage 0 s
      rw [iterate, (afterFirst_firstLoop isa garbage s).count_eq,
        stepFinish_firstLoop hs hleaves garbage (garbages 0)] at hone
      split <;> exact hone
  | succ n ih =>
      rw [stepOnes, step_one hs]
      cases hrequest : (firstEntry isa s).request with
      | some reason =>
          obtain ⟨hstep, -⟩ := stepHalted_of_some garbage (n + 1) hrequest
          obtain ⟨-, hreason⟩ := stepHalted_of_some (garbages (n + 1)) n hrequest
          have hne : ¬ (stepFinish (firstLoop isa (garbages (n + 1)) s)).haltReason = .none := by
            rw [hreason]
            exact request_firstEntry hrequest
          simp only [if_neg hne]
          rw [hstep, stepFinish_firstLoop hs hleaves garbage (garbages (n + 1))]
      | none =>
          have hs' := stepFinish_firstLoop_of_none hs hleaves (garbages (n + 1)) hrequest
          have hreason : (stepFinish (firstLoop isa (garbages (n + 1)) s)).haltReason = .none := by
            rw [hs']
          have hneed : (stepFinish (firstLoop isa (garbages (n + 1)) s)).needToStepOver =
              false := by
            rw [hs']
            show (firstLoop isa (garbages (n + 1)) s).top.needToStepOver = false
            rw [(afterFirst_firstLoop isa _ s).needToStepOver_eq, hrequest]
            rfl
          have hresumable : (stepFinish (firstLoop isa (garbages (n + 1)) s)).Resumable :=
            ⟨by rw [hs'], fun h => by rw [hreason] at h; cases h⟩
          have hrest := ih hresumable fun h => by rw [hneed] at h; cases h
          simp only [if_pos hreason, ← hrest]
          rw [stepHalted_succ hs hleaves garbage n hrequest,
            stepFinish_firstLoop hs hleaves garbage (garbages (n + 1))]

/-! ### The pc register -/

/-- The loop knows where the next instruction is. -/
structure TracksPc (l : Loop ρ C) (e : Executed ρ) : Prop where
  getLast_eq : l.top.executed.getLast? = some e
  nextPc_eq : l.nextPc = l.top.pcAddress
  pc_eq : l.top.pc = e.after.pc
  halted_eq : l.top.halted = e.request.isSome
  lastPc_eq : l.top.haltReason = .softwareBreakpoint →
    e.request = some .softwareBreakpoint ∧ l.pc = e.instruction.address
  request_ne : l.top.haltReason ≠ .softwareBreakpoint → e.request ≠ some .softwareBreakpoint

theorem TracksPc.advance (isa : InstructionSet ρ) {l : Loop ρ C} {e : Executed ρ}
    (h : TracksPc l e) (hl : l.top.halted = false) :
    TracksPc (advance isa l) (l.top.entryAt isa l.nextPc) := by
  have hreason : l.top.haltReason ≠ .softwareBreakpoint := by
    intro hreason
    have hhalted := h.halted_eq
    rw [hl, (h.lastPc_eq hreason).1] at hhalted
    cases hhalted
  constructor
  · simp only [CoralNpuTop.advance, executed_executeAt, List.getLast?_append,
      List.getLast?_singleton, Option.some_or]
  · rfl
  · exact pc_executeAt isa l.nextPc l.top
  · simp only [CoralNpuTop.advance, halted_executeAt, hl, Bool.false_or]
  · simp only [CoralNpuTop.advance, haltReason_executeAt, address_entryAt, and_true]
    intro hnew
    cases hrequest : (l.top.entryAt isa l.nextPc).request with
    | none =>
        rw [hrequest] at hnew
        exact absurd hnew hreason
    | some reason =>
        rw [hrequest, Option.getD_some] at hnew
        rw [hnew]
  · simp only [CoralNpuTop.advance, haltReason_executeAt]
    intro hnew hrequest
    rw [hrequest] at hnew
    exact hnew rfl

theorem TracksPc.iterate (isa : InstructionSet ρ) (n : ℕ) {l : Loop ρ C} {e : Executed ρ}
    (h : TracksPc l e) : ∃ e', TracksPc (iterate (CoralNpuTop.advance isa) n l) e' := by
  have hstep : ∀ l : Loop ρ C, l.top.halted = false → (∃ e, TracksPc l e) →
      ∃ e', TracksPc (CoralNpuTop.advance isa l) e' := by
    rintro l hl ⟨e, h⟩
    exact ⟨_, h.advance isa hl⟩
  exact iterate_invariant hstep n ⟨e, h⟩

theorem TracksPc.pc_stepFinish {l : Loop ρ C} {e : Executed ρ} (h : TracksPc l e) :
    (stepFinish l).pc = e.nextPc := by
  have hpc : (stepFinish l).pc = (finishPc l).pc := by
    rw [stepFinish]
    split <;> rfl
  rw [hpc]
  by_cases hreason : l.top.haltReason = .softwareBreakpoint
  · rw [finishPc, if_pos hreason, Executed.nextPc, if_pos (h.lastPc_eq hreason).1,
      ← (h.lastPc_eq hreason).2, setPc]
  · rw [finishPc_of_ne h.nextPc_eq hreason, Executed.nextPc, if_neg (h.request_ne hreason),
      h.pc_eq]

theorem tracksPc_firstLoop {isa : InstructionSet ρ} {s : CoralNpuTop ρ C} (hs : s.Resumable)
    (hleaves : LeavesBreakpoint isa s) (garbage : Address) :
    TracksPc (firstLoop isa garbage s) (firstEntry isa s) := by
  have hfirst := afterFirst_firstLoop isa garbage s
  constructor
  · rw [hfirst.executed_eq, List.getLast?_append, List.getLast?_singleton, Option.some_or]
  · exact hfirst.nextPc_eq
  · exact hfirst.pc_eq
  · exact hfirst.halted_eq
  · intro hreason
    rw [hfirst.haltReason_eq] at hreason
    obtain ⟨hneed, hrequest⟩ := haltReason_firstEntry hs hleaves hreason
    exact ⟨hrequest, hfirst.lastPc_eq hneed⟩
  · intro hreason hrequest
    rw [hfirst.haltReason_eq, hrequest] at hreason
    exact hreason rfl

/-- **Stepping composes when it leaves the breakpoint.** -/
theorem stepComposes_of_leavesBreakpoint {isa : InstructionSet ρ} {s : CoralNpuTop ρ C}
    (hs : s.Resumable) (hleaves : LeavesBreakpoint isa s) : StepComposes isa s := by
  intro garbage garbages n hn
  obtain ⟨n, rfl⟩ := Nat.exists_eq_succ_of_ne_zero hn.ne'
  have hones := stepHalted_eq_stepOnes isa garbage garbages n hs hleaves
  obtain ⟨e, he⟩ := (tracksPc_firstLoop hs hleaves garbage).iterate isa n
  refine ⟨_, _, e, step_eq isa garbage (by omega) hs.runStatus_eq, ?_, ?_, ?_, ?_, ?_⟩
  · exact congrArg Prod.fst hones
  · exact congrArg (fun r => r.2.core) hones
  · exact congrArg (fun r => r.2.haltReason) hones
  · show (s.stepHalted isa garbage (n + 1)).2.executed.getLast? = some e
    rw [stepHalted_eq, executed_stepFinish, he.getLast_eq]
  · show (s.stepHalted isa garbage (n + 1)).2.pc = e.nextPc
    rw [stepHalted_eq, he.pc_stepFinish]

/-- A step that stays on the breakpoint leaves the uninitialised variable in the pc register. -/
theorem leavesBreakpoint_of_stepComposes {isa : InstructionSet ρ} {s : CoralNpuTop ρ C}
    (hs : s.Resumable) (h : StepComposes isa s) : LeavesBreakpoint isa s := by
  intro hneed hreason
  have hfirst : ∀ garbage, (stepFinish (firstLoop isa garbage s)).pc = garbage.setWidth 32 := by
    intro garbage
    have hentry : (firstLoop isa garbage s).top.haltReason = .softwareBreakpoint := by
      rw [(afterFirst_firstLoop isa garbage s).haltReason_eq, firstEntry, if_pos hneed, hreason]
    have hpc : (stepFinish (firstLoop isa garbage s)).pc =
        (finishPc (firstLoop isa garbage s)).pc := by
      rw [stepFinish]
      split <;> rfl
    rw [hpc, finishPc, if_pos hentry, firstLoop_of_need isa garbage hneed, setPc]
  have hstep : ∀ garbage : Address,
      garbage.setWidth 32 = (firstEntry isa s).nextPc := by
    intro garbage
    obtain ⟨count, s', e, hok, -, -, -, hlast, hpc⟩ := h garbage (fun _ => 0) 1 (by decide)
    rw [Nat.cast_one, step_one hs] at hok
    cases hok
    rw [executed_stepFinish, (afterFirst_firstLoop isa garbage s).executed_eq,
      List.getLast?_append, List.getLast?_singleton, Option.some_or] at hlast
    rw [hfirst] at hpc
    rw [hpc, Option.some.inj hlast]
  have hzero := hstep 0
  rw [← hstep 1] at hzero
  exact absurd hzero (by decide)

/-! ### Every command leaves a resumable top -/

/-- A halt in force by a software breakpoint asks for a step past it. -/
def AsksToStepOver (s : CoralNpuTop ρ C) : Prop :=
  s.halted = true → s.haltReason = .softwareBreakpoint → s.needToStepOver = true

theorem asksToStepOver_executeAt (isa : InstructionSet ρ) (address : Address)
    {s : CoralNpuTop ρ C} (h : s.halted = false) : AsksToStepOver (s.executeAt isa address) := by
  intro hhalted hreason
  rw [halted_executeAt, h, Bool.false_or, Option.isSome_iff_exists] at hhalted
  obtain ⟨reason, hrequest⟩ := hhalted
  rw [haltReason_executeAt, hrequest, Option.getD_some] at hreason
  rw [needToStepOver_executeAt, hrequest, hreason]
  exact Bool.or_true _

theorem asksToStepOver_stepPastBreakpoint (isa : InstructionSet ρ) {s : CoralNpuTop ρ C}
    (h : s.halted = false) : AsksToStepOver (s.stepPastBreakpoint isa) := by
  have hcode : ({ s with code := (writeOriginalInstruction C.invalidate s.pcAddress s.code).2 } :
      CoralNpuTop ρ C).halted = false := h
  exact asksToStepOver_executeAt isa s.pcAddress hcode

theorem asksToStepOver_iterate (isa : InstructionSet ρ) (n : ℕ) {l : Loop ρ C}
    (h : AsksToStepOver l.top) : AsksToStepOver (iterate (advance isa) n l).top := by
  have hstep : ∀ l : Loop ρ C, l.top.halted = false → AsksToStepOver l.top →
      AsksToStepOver (advance isa l).top := fun l hl _ => asksToStepOver_executeAt isa l.nextPc hl
  exact iterate_invariant hstep n h

@[simp] theorem needToStepOver_finishPc (l : Loop ρ C) :
    (finishPc l).needToStepOver = l.top.needToStepOver := by
  rw [finishPc]
  split <;> rfl

theorem resumable_stepHalted (isa : InstructionSet ρ) (garbage : Address) (num : ℕ)
    (s : CoralNpuTop ρ C) : (s.stepHalted isa garbage num).2.Resumable := by
  have hstart : AsksToStepOver (stepStart isa garbage s).top := by
    simp only [stepStart]
    split
    · exact asksToStepOver_stepPastBreakpoint isa rfl
    · intro hhalted
      cases hhalted
  have hloop := asksToStepOver_iterate isa (num - (stepStart isa garbage s).count) hstart
  simp only [stepHalted, iterate_stepBody]
  refine ⟨rfl, fun hreason => ?_⟩
  cases hl : (iterate (advance isa) (num - (stepStart isa garbage s).count)
      (stepStart isa garbage s)).top.halted with
  | true =>
      rw [stepFinish_of_halted hl] at hreason ⊢
      exact (needToStepOver_finishPc _).trans
        (hloop hl ((haltReason_finishPc _).symm.trans hreason))
  | false =>
      rw [stepFinish_of_not_halted hl] at hreason
      cases hreason

theorem resumable_run (isa : InstructionSet ρ) (garbage : Address) (fuel : ℕ)
    {s s' : CoralNpuTop ρ C} (h : s.run isa garbage fuel = .ok (some s')) : s'.Resumable := by
  have hstart : AsksToStepOver (runStart isa garbage s).top := by
    intro hhalted
    cases hhalted
  have hloop := asksToStepOver_iterate isa fuel hstart
  rw [run] at h
  split at h
  · cases h
  · simp only [runLoop, iterate_runBody] at h
    split at h
    · rename_i hhalted
      cases h
      refine ⟨rfl, fun hreason => ?_⟩
      exact (needToStepOver_finishPc _).trans
        (hloop hhalted ((haltReason_finishPc _).symm.trans hreason))
    · cases h

theorem resumable_writePc (value : BitVec 64) {s : CoralNpuTop ρ C} (hs : s.Resumable) :
    (s.writePc value).2.Resumable := by
  rw [writePc, if_neg (by simp [hs.runStatus_eq])]
  by_cases hreason : s.haltReason = .softwareBreakpoint
  · simp only [if_pos hreason]
    exact ⟨hs.runStatus_eq, nofun⟩
  · simp only [if_neg hreason]
    exact ⟨hs.runStatus_eq, fun h => absurd h hreason⟩

theorem resumable_getDisassembly (address : Address) {s s' : CoralNpuTop ρ C}
    {inst : DecodedInstruction} (hs : s.Resumable)
    (h : s.getDisassembly address = .ok (inst, s')) : s'.Resumable := by
  obtain ⟨client, rfl⟩ := getDisassembly_eq_ok h
  exact ⟨hs.runStatus_eq, hs.needToStepOver_eq⟩

/-- **Every command leaves a resumable top.** -/
theorem resumable_perform (isa : InstructionSet ρ) (garbage : Address) (fuel : ℕ)
    (command : TopCommand) {s s' : CoralNpuTop ρ C} (hs : s.Resumable)
    (h : s.perform isa garbage fuel command = some s') : s'.Resumable := by
  cases command with
  | setSwBreakpoint address =>
      cases h
      rw [setSwBreakpoint]
      split
      · exact hs
      · split
        · exact hs
        · exact ⟨hs.runStatus_eq, hs.needToStepOver_eq⟩
  | clearSwBreakpoint address =>
      cases h
      rw [clearSwBreakpoint]
      split
      · exact hs
      · split
        · exact ⟨hs.runStatus_eq, hs.needToStepOver_eq⟩
        · exact hs
  | clearAllSwBreakpoints =>
      cases h
      rw [clearAllSwBreakpoints]
      split
      · exact hs
      · exact ⟨hs.runStatus_eq, hs.needToStepOver_eq⟩
  | getDisassembly address =>
      rw [perform] at h
      split at h
      · rename_i heq
        cases h
        exact resumable_getDisassembly address hs heq
      · cases h
        exact hs
  | step num =>
      rw [perform, step] at h
      split at h
      · rename_i heq
        split at heq
        · cases heq
        · split at heq
          · cases heq
          · cases heq
            cases h
            exact resumable_stepHalted isa garbage num.toNat s
      · cases h
        exact hs
  | run =>
      rw [perform] at h
      split at h
      · rename_i heq
        rw [h] at heq
        exact resumable_run isa garbage fuel heq
      · cases h
        exact hs
  | writePc value =>
      cases h
      exact resumable_writePc value hs

/-- The tops that commands reach from a new one. -/
inductive Reached (isa : InstructionSet ρ) : CoralNpuTop ρ C → Prop
  | start (registers : ρ) (memory : Memory) (pc : BitVec 32) :
      Reached isa (start registers memory pc)
  | perform {garbage : Address} {fuel : ℕ} {command : TopCommand} {s s' : CoralNpuTop ρ C}
      (hs : Reached isa s) (h : s.perform isa garbage fuel command = some s') : Reached isa s'

theorem resumable_start (registers : ρ) (memory : Memory) (pc : BitVec 32) :
    (start registers memory pc : CoralNpuTop ρ C).Resumable := ⟨rfl, nofun⟩

/-- **Every top that commands reach is resumable.** -/
theorem Reached.resumable {isa : InstructionSet ρ} {s : CoralNpuTop ρ C} (h : Reached isa s) :
    s.Resumable := by
  induction h with
  | start registers memory pc => exact resumable_start registers memory pc
  | @perform garbage fuel command _ _ _ hstep ih =>
      exact resumable_perform isa garbage fuel command ih hstep

/-! ### When stepping composes -/

/-- **Stepping composes exactly when it leaves the breakpoint.** -/
theorem stepComposes_iff (isa : InstructionSet ρ) {s : CoralNpuTop ρ C} (hs : s.Resumable) :
    StepComposes isa s ↔ LeavesBreakpoint isa s :=
  ⟨leavesBreakpoint_of_stepComposes hs, stepComposes_of_leavesBreakpoint hs⟩

/-- A new top. -/
theorem stepComposes_iff_start :
    let s : CoralNpuTop Unit noCache := start () (fun _ => 0) 0
    StepComposes plainIsa s ↔ LeavesBreakpoint plainIsa s :=
  stepComposes_iff plainIsa (resumable_start () (fun _ => 0) 0)

/-- A program of instructions that do nothing, with a breakpoint on the first. -/
def nopWithBreakpoint : CoralNpuTop Unit noCache :=
  ((start () (fun _ => 0) 0).setSwBreakpoint 0).2

/-- It is halted by the breakpoint. -/
def breakpointOnNop : CoralNpuTop Unit noCache :=
  match nopWithBreakpoint.run plainIsa 0 1 with
  | .ok (some s') => s'
  | _ => nopWithBreakpoint

theorem reached_breakpointOnNop : Reached plainIsa breakpointOnNop := by
  have hset : (start () (fun _ => 0) 0).perform plainIsa 0 0 (.setSwBreakpoint 0) =
      some nopWithBreakpoint := rfl
  have hrun : nopWithBreakpoint.perform plainIsa 0 1 .run = some breakpointOnNop := rfl
  exact ((Reached.start () (fun _ => 0) 0).perform hset).perform hrun

/-- A step from there leaves the uninitialised variable in the pc register. -/
theorem not_stepComposes_breakpointOnNop :
    ¬ ∀ s : CoralNpuTop Unit noCache, Reached plainIsa s → StepComposes plainIsa s := by
  intro h
  have hs := reached_breakpointOnNop
  have hleaves := leavesBreakpoint_of_stepComposes hs.resumable (h breakpointOnNop hs)
  exact hleaves (by decide) (by decide)

end CoralNpuTop

end CoralNpu
