/-
**Resuming the simulator.**

`Step` and `Run` share their loops: an iteration executes the instruction at the next pc, and a halt
requested by it ends the loop.  They differ in what they do in front of the loop: `Step` clears the
halted flag before it steps past a breakpoint, `Run` after that.

Main definitions:

* `CoralNpu.CoralNpuTop.advance` — an iteration of either loop;
* `CoralNpu.CoralNpuTop.HaltsAtLast` — no halt was requested, or the last instruction requested the
  one in force;
* `CoralNpu.CoralNpuTop.KeepsHalts` — no halt request is lost;
* `CoralNpu.CoralNpuTop.LosesHalt` — `Run` steps past an instruction that requests a halt.

Main results:

* `CoralNpu.CoralNpuTop.iterate_stepBody`, `CoralNpu.CoralNpuTop.iterate_runBody` — the loops;
* `CoralNpu.CoralNpuTop.haltsAtLast_iterate` — a loop ends at the first request;
* `CoralNpu.CoralNpuTop.keepsHalts_iff` — **a halt is lost exactly when `Run` steps past an
  instruction that requests it**.
-/

import CoralNpu.CoralNpuTop
import CoralNpu.OrchestratorMutate

set_option relaxedAutoImplicit false
set_option autoImplicit false

namespace CoralNpu

open WordMemory

namespace CoralNpuTop

variable {ρ : Type} {C : DecodeCache}

/-! ### The loops -/

/-- An iteration: the instruction at the next pc is executed. -/
def advance (isa : InstructionSet ρ) (l : Loop ρ C) : Loop ρ C :=
  let s := l.top.executeAt isa l.nextPc
  ⟨s, l.nextPc, s.pcAddress, l.count + 1⟩

/-- The branch for other action points is never taken. -/
theorem not_actionPoint_executeAt (isa : InstructionSet ρ) (address : Address)
    {s : CoralNpuTop ρ C} (h : s.halted = false) :
    ¬ ((s.executeAt isa address).halted ∧ (s.executeAt isa address).haltReason = .actionPoint) := by
  rintro ⟨hhalted, hreason⟩
  rw [halted_executeAt, h, Bool.false_or, Option.isSome_iff_exists] at hhalted
  obtain ⟨reason, hrequest⟩ := hhalted
  rw [haltReason_executeAt, hrequest, Option.getD_some] at hreason
  exact (request_entryAt isa address s hrequest).2 hreason

theorem stepBody_eq (isa : InstructionSet ρ) {l : Loop ρ C} (h : l.top.halted = false) :
    stepBody isa l = advance isa l := if_neg (not_actionPoint_executeAt isa l.nextPc h)

theorem runBody_eq (isa : InstructionSet ρ) {l : Loop ρ C} (h : l.top.halted = false) :
    runBody isa l = advance isa l := if_neg (not_actionPoint_executeAt isa l.nextPc h)

theorem iterate_of_halted {body : Loop ρ C → Loop ρ C} {l : Loop ρ C} (h : l.top.halted = true)
    (n : ℕ) : iterate body n l = l := by
  cases n with
  | zero => rfl
  | succ n => exact if_pos h

theorem iterate_succ {body : Loop ρ C → Loop ρ C} {l : Loop ρ C} (h : l.top.halted = false)
    (n : ℕ) : iterate body (n + 1) l = iterate body n (body l) :=
  if_neg (by rw [h]; exact Bool.false_ne_true)

theorem iterate_congr {body body' : Loop ρ C → Loop ρ C}
    (h : ∀ l, l.top.halted = false → body l = body' l) (n : ℕ) (l : Loop ρ C) :
    iterate body n l = iterate body' n l := by
  induction n generalizing l with
  | zero => rfl
  | succ n ih =>
      cases hl : l.top.halted with
      | true => rw [iterate_of_halted hl, iterate_of_halted hl]
      | false => rw [iterate_succ hl, iterate_succ hl, h l hl, ih]

/-- What an iteration keeps, a loop keeps. -/
theorem iterate_invariant {body : Loop ρ C → Loop ρ C} {P : Loop ρ C → Prop}
    (hbody : ∀ l, l.top.halted = false → P l → P (body l)) (n : ℕ) {l : Loop ρ C} (h : P l) :
    P (iterate body n l) := by
  induction n generalizing l with
  | zero => exact h
  | succ n ih =>
      cases hl : l.top.halted with
      | true => rwa [iterate_of_halted hl]
      | false =>
          rw [iterate_succ hl]
          exact ih (hbody l hl h)

/-- The loop of `Step`. -/
theorem iterate_stepBody (isa : InstructionSet ρ) (n : ℕ) (l : Loop ρ C) :
    iterate (stepBody isa) n l = iterate (advance isa) n l :=
  iterate_congr (fun _ h => stepBody_eq isa h) n l

/-- The loop of `Run`. -/
theorem iterate_runBody (isa : InstructionSet ρ) (n : ℕ) (l : Loop ρ C) :
    iterate (runBody isa) n l = iterate (advance isa) n l :=
  iterate_congr (fun _ h => runBody_eq isa h) n l

/-! ### Halts -/

/-- No instruction requested a halt, or the last one requested the halt in force. -/
inductive HaltsAtLast : List (Executed ρ) → CoralNpuTop ρ C → Prop where
  | goes {entries : List (Executed ρ)} {s : CoralNpuTop ρ C} (h : s.halted = false)
      (hnone : ∀ e ∈ entries, e.request = none) : HaltsAtLast entries s
  | halts {entries : List (Executed ρ)} {s : CoralNpuTop ρ C} {e : Executed ρ}
      (hnone : ∀ e ∈ entries, e.request = none) (h : s.halted = true)
      (hlast : e.request = some s.haltReason) : HaltsAtLast (entries ++ [e]) s

/-- An instruction executed by a top that is not halted. -/
theorem HaltsAtLast.executeAt {entries : List (Executed ρ)} {s : CoralNpuTop ρ C}
    (h : s.halted = false) (hs : HaltsAtLast entries s) (isa : InstructionSet ρ)
    (address : Address) :
    HaltsAtLast (entries ++ [s.entryAt isa address]) (s.executeAt isa address) := by
  have hnone : ∀ e ∈ entries, e.request = none := by
    cases hs with
    | goes _ hnone => exact hnone
    | halts _ hhalted _ => rw [h] at hhalted; cases hhalted
  cases hrequest : (s.entryAt isa address).request with
  | none =>
      refine HaltsAtLast.goes (by rw [halted_executeAt, h, hrequest]; rfl) ?_
      intro e he
      rcases List.mem_append.1 he with he | he
      · exact hnone e he
      · rw [List.mem_singleton.1 he, hrequest]
  | some reason =>
      refine HaltsAtLast.halts hnone (by rw [halted_executeAt, hrequest, Option.isSome_some,
        Bool.or_true]) ?_
      rw [haltReason_executeAt, hrequest, Option.getD_some]

/-- **A loop ends at the first request.** -/
theorem haltsAtLast_iterate (isa : InstructionSet ρ) (n : ℕ) {l : Loop ρ C}
    {entries before : List (Executed ρ)} (hexecuted : l.top.executed = before ++ entries)
    (h : HaltsAtLast entries l.top) :
    ∃ entries', (iterate (advance isa) n l).top.executed = before ++ entries' ∧
      HaltsAtLast entries' (iterate (advance isa) n l).top := by
  induction n generalizing l entries with
  | zero => exact ⟨entries, hexecuted, h⟩
  | succ n ih =>
      cases hl : l.top.halted with
      | true =>
          rw [iterate_of_halted hl]
          exact ⟨entries, hexecuted, h⟩
      | false =>
          rw [iterate_succ hl]
          have hnext := h.executeAt hl isa l.nextPc
          refine ih ?_ hnext
          rw [advance, executed_executeAt, hexecuted, List.append_assoc]

/-- What follows a request is nothing, and the request is in force. -/
theorem HaltsAtLast.eq_nil {entries before after : List (Executed ρ)} {s : CoralNpuTop ρ C}
    {e : Executed ρ} {reason : HaltReason} (h : HaltsAtLast entries s)
    (hentries : entries = before ++ e :: after) (hrequest : e.request = some reason) :
    after = [] ∧ s.halted = true ∧ s.haltReason = reason := by
  cases h with
  | goes _ hnone =>
      have := hnone e (by rw [hentries]; simp)
      rw [hrequest] at this
      cases this
  | @halts entries s last hnone hhalted hlast =>
      rcases List.eq_nil_or_concat' after with rfl | ⟨after', e', rfl⟩
      · have heq := (List.append_inj' hentries rfl).2
        cases heq
        rw [hrequest] at hlast
        exact ⟨rfl, hhalted, (Option.some.inj hlast).symm⟩
      · -- the request would lie among the instructions without one
        have hsplit : entries ++ [last] = (before ++ e :: after') ++ [e'] := by
          rw [hentries, List.append_assoc, List.cons_append]
        have hmem : e ∈ entries := by
          rw [(List.append_inj' hsplit rfl).1]
          simp
        rw [hnone e hmem] at hrequest
        cases hrequest

/-! ### Stepping past a breakpoint -/

/-- The instruction executed by stepping past a breakpoint. -/
def steppedPast (isa : InstructionSet ρ) (s : CoralNpuTop ρ C) : Executed ρ :=
  ({ s with code := (writeOriginalInstruction C.invalidate s.pcAddress s.code).2 }).entryAt isa
    s.pcAddress

/-- What an instruction does depends on the core, the code and the breakpoints alone. -/
theorem entryAt_congr (isa : InstructionSet ρ) (address : Address) {s s' : CoralNpuTop ρ C}
    (hcore : s'.core = s.core) (hcode : s'.code = s.code)
    (hbreakpoints : s'.breakpoints = s.breakpoints) :
    s'.entryAt isa address = s.entryAt isa address := by
  obtain ⟨registers, pc, numInstructions, numCycles, _, code, breakpoints, _, _, _, _, _⟩ := s
  obtain ⟨registers', pc', numInstructions', numCycles', _, code', breakpoints', _, _, _, _, _⟩ :=
    s'
  simp only [core, CoreState.mk.injEq] at hcore hcode hbreakpoints
  obtain ⟨rfl, -, rfl, rfl, rfl⟩ := hcore
  subst hcode hbreakpoints
  simp only [entryAt, ready, getDecodedInstruction]
  cases C.lookup code'.client address <;> rfl

theorem steppedPast_congr (isa : InstructionSet ρ) {s s' : CoralNpuTop ρ C}
    (hcore : s'.core = s.core) (hcode : s'.code = s.code)
    (hbreakpoints : s'.breakpoints = s.breakpoints) :
    s'.steppedPast isa = s.steppedPast isa := by
  have hpc : s'.pcAddress = s.pcAddress := congrArg (fun c => c.pc.setWidth 64) hcore
  simp only [core, CoreState.mk.injEq] at hcore
  rw [steppedPast, steppedPast, hpc]
  refine entryAt_congr isa _ ?_ (by rw [hcode]) hbreakpoints
  simp only [core, hcore, hcode]

section StepPast

variable (isa : InstructionSet ρ) (s : CoralNpuTop ρ C)

@[simp] theorem executed_stepPastBreakpoint :
    (s.stepPastBreakpoint isa).executed = s.executed ++ [s.steppedPast isa] :=
  executed_executeAt isa s.pcAddress _

@[simp] theorem halted_stepPastBreakpoint :
    (s.stepPastBreakpoint isa).halted = (s.halted || (s.steppedPast isa).request.isSome) :=
  halted_executeAt isa s.pcAddress _

@[simp] theorem haltReason_stepPastBreakpoint :
    (s.stepPastBreakpoint isa).haltReason = (s.steppedPast isa).request.getD s.haltReason :=
  haltReason_executeAt isa s.pcAddress _

@[simp] theorem needToStepOver_stepPastBreakpoint :
    (s.stepPastBreakpoint isa).needToStepOver =
      (s.needToStepOver || (s.steppedPast isa).request == some .softwareBreakpoint) :=
  needToStepOver_executeAt isa s.pcAddress _

@[simp] theorem runStatus_stepPastBreakpoint :
    (s.stepPastBreakpoint isa).runStatus = s.runStatus :=
  runStatus_executeAt isa s.pcAddress _

@[simp] theorem breakpoints_stepPastBreakpoint :
    (s.stepPastBreakpoint isa).breakpoints = s.breakpoints :=
  breakpoints_executeAt isa s.pcAddress _

theorem pc_stepPastBreakpoint : (s.stepPastBreakpoint isa).pc = (s.steppedPast isa).after.pc :=
  pc_executeAt isa s.pcAddress _

end StepPast

/-! ### No halt request is lost -/

/-- The two ways of resuming. -/
inductive ResumeCall where
  | step (num : ℤ)
  | run

/-- The top when the call returns or, for a `Run` that has not halted by then, after `fuel`
iterations. -/
def afterResume (isa : InstructionSet ρ) (garbage : Address) (fuel : ℕ) (s : CoralNpuTop ρ C) :
    ResumeCall → CoralNpuTop ρ C
  | .step num =>
      match s.step isa garbage num with
      | .ok (_, s') => s'
      | .error _ => s
  | .run =>
      match s.run isa garbage fuel with
      | .ok (some s') => s'
      | .ok none => (s.runLoop isa garbage fuel).top
      | .error _ => s

/-- **No halt request is lost**: after an instruction that requests a halt, other than by a
breakpoint, the call executes no further one, and it ends halted with the reason of the request. -/
def KeepsHalts (isa : InstructionSet ρ) (call : ResumeCall) (s : CoralNpuTop ρ C) : Prop :=
  ∀ garbage fuel before e after reason,
    (s.afterResume isa garbage fuel call).executed = s.executed ++ (before ++ e :: after) →
    e.request = some reason → reason ≠ .softwareBreakpoint →
    after = [] ∧ (s.afterResume isa garbage fuel call).halted = true ∧
      (s.afterResume isa garbage fuel call).haltReason = reason

/-- `Run` steps past an instruction that requests a halt. -/
def LosesHalt (isa : InstructionSet ρ) (call : ResumeCall) (s : CoralNpuTop ρ C) : Prop :=
  match call with
  | .step _ => False
  | .run => s.runStatus ≠ .running ∧ s.needToStepOver = true ∧
      ∃ reason, (s.steppedPast isa).request = some reason ∧ reason ≠ .softwareBreakpoint

/-- A step past a breakpoint, by a top that is not halted. -/
theorem haltsAtLast_stepPastBreakpoint (isa : InstructionSet ρ) {s : CoralNpuTop ρ C}
    (h : s.halted = false) :
    HaltsAtLast [s.steppedPast isa] (s.stepPastBreakpoint isa) := by
  cases hrequest : (s.steppedPast isa).request with
  | none =>
      refine HaltsAtLast.goes (by rw [halted_stepPastBreakpoint, h, hrequest]; rfl) ?_
      intro e he
      rw [List.mem_singleton.1 he, hrequest]
  | some reason =>
      have hentries : [s.steppedPast isa] = [] ++ [s.steppedPast isa] := rfl
      rw [hentries]
      refine HaltsAtLast.halts (by simp) ?_ ?_
      · rw [halted_stepPastBreakpoint, hrequest, Option.isSome_some, Bool.or_true]
      · rw [haltReason_stepPastBreakpoint, hrequest, Option.getD_some]

/-- The start of `Step` keeps a halt requested by the instruction it steps past. -/
theorem haltsAtLast_stepStart (isa : InstructionSet ρ) (garbage : Address) (s : CoralNpuTop ρ C) :
    ∃ entries, (stepStart isa garbage s).top.executed = s.executed ++ entries ∧
      HaltsAtLast entries (stepStart isa garbage s).top := by
  simp only [stepStart]
  split
  · exact ⟨[_], executed_stepPastBreakpoint isa _, haltsAtLast_stepPastBreakpoint isa rfl⟩
  · exact ⟨[], (List.append_nil _).symm, HaltsAtLast.goes rfl (by simp)⟩

/-- The start of `Run` has no halt in force, whatever the instruction it steps past requested. -/
theorem executed_runStart (isa : InstructionSet ρ) (garbage : Address) (s : CoralNpuTop ρ C) :
    (runStart isa garbage s).top.halted = false ∧
      (runStart isa garbage s).top.executed =
        s.executed ++ if s.needToStepOver then [s.steppedPast isa] else [] := by
  refine ⟨rfl, ?_⟩
  have hentry : ({ s with needToStepOver := false } : CoralNpuTop ρ C).steppedPast isa =
      s.steppedPast isa := steppedPast_congr isa rfl rfl rfl
  simp only [runStart]
  split
  · rw [executed_stepPastBreakpoint, hentry]
  · exact (List.append_nil _).symm

/-- A request among instructions that end in the halt in force, behind others without a request. -/
theorem HaltsAtLast.eq_nil_of_append {pre entries before after : List (Executed ρ)}
    {s : CoralNpuTop ρ C} {e : Executed ρ} {reason : HaltReason} (h : HaltsAtLast entries s)
    (hpre : ∀ p ∈ pre, p.request ≠ some reason)
    (hentries : pre ++ entries = before ++ e :: after) (hrequest : e.request = some reason) :
    after = [] ∧ s.halted = true ∧ s.haltReason = reason := by
  rcases List.append_eq_append_iff.1 hentries with ⟨rest, hbefore, hrest⟩ | ⟨rest, hpre', hrest⟩
  · exact h.eq_nil hrest hrequest
  · cases rest with
    | nil =>
        have hfirst : entries = [] ++ e :: after := hrest.symm
        exact h.eq_nil hfirst hrequest
    | cons p rest =>
        have heq : e = p := (List.cons.inj hrest).1
        exact absurd hrequest (hpre e (by rw [hpre', heq]; simp))

@[simp] theorem executed_finishPc (l : Loop ρ C) : (finishPc l).executed = l.top.executed := by
  rw [finishPc]
  split <;> rfl

@[simp] theorem halted_finishPc (l : Loop ρ C) : (finishPc l).halted = l.top.halted := by
  rw [finishPc]
  split <;> rfl

@[simp] theorem haltReason_finishPc (l : Loop ρ C) :
    (finishPc l).haltReason = l.top.haltReason := by
  rw [finishPc]
  split <;> rfl

theorem stepFinish_of_halted {l : Loop ρ C} (h : l.top.halted = true) :
    stepFinish l = { finishPc l with runStatus := .halted } := by
  simp only [stepFinish, halted_finishPc, h, if_true]

theorem stepFinish_of_not_halted {l : Loop ρ C} (h : l.top.halted = false) :
    stepFinish l = { finishPc l with haltReason := .none, runStatus := .halted } := by
  simp only [stepFinish, halted_finishPc, h, Bool.false_eq_true, if_false]

@[simp] theorem executed_stepFinish (l : Loop ρ C) :
    (stepFinish l).executed = l.top.executed := by
  cases h : l.top.halted with
  | true => rw [stepFinish_of_halted h, executed_finishPc]
  | false => rw [stepFinish_of_not_halted h, executed_finishPc]

/-- A step, when the core is halted and the count is positive. -/
theorem step_eq (isa : InstructionSet ρ) (garbage : Address) {num : ℤ} {s : CoralNpuTop ρ C}
    (hnum : 0 < num) (hs : s.runStatus = .halted) :
    s.step isa garbage num = .ok (s.stepHalted isa garbage num.toNat) := by
  rw [step, if_neg (by omega), if_neg (by simp [hs])]

/-- A step that fails executes nothing. -/
theorem afterResume_step (isa : InstructionSet ρ) (garbage : Address) (fuel : ℕ) (num : ℤ)
    (s : CoralNpuTop ρ C) :
    s.afterResume isa garbage fuel (.step num) = s ∨
      s.afterResume isa garbage fuel (.step num) = (s.stepHalted isa garbage num.toNat).2 := by
  rw [afterResume, step]
  split
  · rename_i heq
    split at heq
    · cases heq
    · split at heq
      · cases heq
      · exact Or.inr (congrArg Prod.snd (Except.ok.inj heq)).symm
  · exact Or.inl rfl

/-- `Step` keeps every halt. -/
theorem keepsHalts_step (isa : InstructionSet ρ) (num : ℤ) (s : CoralNpuTop ρ C) :
    KeepsHalts isa (.step num) s := by
  intro garbage fuel before e after reason hexecuted hrequest _
  rcases afterResume_step isa garbage fuel num s with hs | hs
  · rw [hs] at hexecuted
    have hlength := congrArg List.length hexecuted
    simp at hlength
  · rw [hs] at hexecuted ⊢
    obtain ⟨entries, hstart, hhalts⟩ := haltsAtLast_stepStart isa garbage s
    obtain ⟨entries', hloop, hhalts'⟩ := haltsAtLast_iterate isa
      (num.toNat - (stepStart isa garbage s).count) hstart hhalts
    simp only [stepHalted, iterate_stepBody] at hexecuted ⊢
    rw [executed_stepFinish, hloop, List.append_cancel_left_eq] at hexecuted
    obtain ⟨hafter, hhalted, hreason⟩ := hhalts'.eq_nil hexecuted hrequest
    rw [stepFinish_of_halted hhalted]
    exact ⟨hafter, by rw [← hhalted]; exact halted_finishPc _,
      by rw [← hreason]; exact haltReason_finishPc _⟩

/-- The states of a `Run` are those of its loop. -/
theorem afterResume_run (isa : InstructionSet ρ) (garbage : Address) (fuel : ℕ)
    {s : CoralNpuTop ρ C} (h : s.runStatus ≠ .running) :
    (s.afterResume isa garbage fuel .run).executed = (s.runLoop isa garbage fuel).top.executed ∧
      (s.afterResume isa garbage fuel .run).halted = (s.runLoop isa garbage fuel).top.halted ∧
      (s.afterResume isa garbage fuel .run).haltReason =
        (s.runLoop isa garbage fuel).top.haltReason := by
  rw [afterResume, run, if_neg h]
  cases hhalted : (s.runLoop isa garbage fuel).top.halted with
  | true => simp [hhalted]
  | false => simp [hhalted]

/-- `Run` executes the instruction it steps past, and then goes on. -/
theorem executed_runLoop_one (isa : InstructionSet ρ) (garbage : Address) {s : CoralNpuTop ρ C}
    (h : s.needToStepOver = true) :
    ∃ e, (s.runLoop isa garbage 1).top.executed = s.executed ++ [s.steppedPast isa, e] := by
  obtain ⟨hhalted, hexecuted⟩ := executed_runStart isa garbage s
  rw [runLoop, iterate_runBody, iterate_succ hhalted, iterate, advance, executed_executeAt,
    hexecuted, if_pos h, List.append_assoc]
  exact ⟨_, rfl⟩

/-- A halt requested by the instruction stepped past is lost. -/
theorem not_keepsHalts_of_losesHalt {isa : InstructionSet ρ} {call : ResumeCall}
    {s : CoralNpuTop ρ C} (h : LosesHalt isa call s) : ¬ KeepsHalts isa call s := by
  intro hkeeps
  cases call with
  | step num => exact h
  | run =>
      obtain ⟨hstatus, hneed, reason, hrequest, hreason⟩ := h
      obtain ⟨e, hexecuted⟩ := executed_runLoop_one isa (0 : Address) hneed
      have hnil := (hkeeps 0 1 [] (s.steppedPast isa) [e] reason
        (by rw [(afterResume_run isa 0 1 hstatus).1, hexecuted]; rfl) hrequest hreason).1
      cases hnil

/-- `Run` keeps every halt it does not lose. -/
theorem keepsHalts_run (isa : InstructionSet ρ) {s : CoralNpuTop ρ C}
    (h : ¬ LosesHalt isa .run s) : KeepsHalts isa .run s := by
  intro garbage fuel before e after reason hexecuted hrequest hreason
  by_cases hstatus : s.runStatus = .running
  · rw [afterResume, run, if_pos hstatus] at hexecuted
    have hlength := congrArg List.length hexecuted
    simp at hlength
  · obtain ⟨hentries, hhalted, hlast⟩ := afterResume_run isa garbage fuel hstatus
    rw [hhalted, hlast]
    rw [hentries] at hexecuted
    obtain ⟨hgoes, hstart⟩ := executed_runStart isa garbage s
    have hnothing := hstart.trans (List.append_nil _).symm
    obtain ⟨entries, hloop, hhalts⟩ := haltsAtLast_iterate isa fuel hnothing
      (HaltsAtLast.goes hgoes (by simp))
    rw [runLoop, iterate_runBody] at hexecuted ⊢
    rw [hloop, List.append_assoc, List.append_cancel_left_eq] at hexecuted
    refine hhalts.eq_nil_of_append ?_ hexecuted hrequest
    intro p hp
    split at hp
    · rename_i hneed
      rw [List.mem_singleton.1 hp]
      exact fun hlost => h ⟨hstatus, hneed, reason, hlost, hreason⟩
    · cases hp

/-- **A halt is lost exactly when `Run` steps past an instruction that requests it.** -/
theorem keepsHalts_iff (isa : InstructionSet ρ) (call : ResumeCall) (s : CoralNpuTop ρ C) :
    KeepsHalts isa call s ↔ ¬ LosesHalt isa call s := by
  constructor
  · exact fun hkeeps hloses => not_keepsHalts_of_losesHalt hloses hkeeps
  · intro hkept
    cases call with
    | step num => exact keepsHalts_step isa num s
    | run => exact keepsHalts_run isa hkept

/-- Instructions that do nothing, but for `ebreak` and `mpause`. -/
def plainIsa : InstructionSet Unit where
  size _ := 4
  opcode _ := 0
  stalls _ _ := 0
  execute inst c :=
    (c, if inst.word = ebreak32 then some .ebreak
      else if inst.word = mpause then some .mpause else none)
  advanceDelayLines c := c
  semihosting _ _ := none

/-- A cache that keeps nothing. -/
def noCache : DecodeCache where
  State := Unit
  empty := ()
  lookup _ _ := none
  insert _ _ _ := ()
  invalidate _ _ := ()
  lookup_empty _ := rfl
  lookup_insert h := by cases h
  lookup_invalidate h := by cases h

/-- A program of one `mpause`, halted by a breakpoint on it. -/
def breakpointOnMpause : CoralNpuTop Unit noCache :=
  let memory : Memory := storeWord (fun _ => 0) 0 mpause
  let s := ((start () memory 0).setSwBreakpoint 0).2
  match s.run plainIsa 0 1 with
  | .ok (some s') => s'
  | _ => s

/-- `Run` from there runs past the `mpause`. -/
theorem not_keepsHalts_breakpointOnMpause :
    ¬ ∀ (call : ResumeCall) (s : CoralNpuTop Unit noCache), KeepsHalts plainIsa call s :=
  fun h =>
    have hloses : LosesHalt plainIsa .run breakpointOnMpause :=
      ⟨by decide, by decide, .userRequest, by decide, by decide⟩
    not_keepsHalts_of_losesHalt hloses (h _ _)

end CoralNpuTop

end CoralNpu
