/-
**Stepping a core for Renode.**

Renode asks the agent for up to `2 ^ 64` steps of a core.  The agent steps the core in slices that
fit an `int`, and returns when the request is done, or when a slice fails, halts or stops short.  It
adds up what the slices executed in 32 bits.

Main definitions:

* `CoralNpu.RenodeDebugInterface` — what the agent sees of its cores;
* `CoralNpu.RenodeAgent.step` — `RenodeAgent::Step`, with the inner calls it makes;
* `CoralNpu.InnerStep.Stops` — an inner call failed, halted or stopped short;
* `CoralNpu.StepReported` — a report says what ran;
* `CoralNpu.ExecutesTooMany` — a core that executes `2 ^ 32` instructions before it stops;
* `CoralNpu.coralNpuRenode` — the interface of the top.

Main results:

* `CoralNpu.stepLoop_cases` — what an iteration does;
* `CoralNpu.stepReported_iff` — **a report says what ran exactly when the sum fits 32 bits**.
-/

import CoralNpu.CoralNpuTopResume

set_option relaxedAutoImplicit false
set_option autoImplicit false

namespace CoralNpu

open CoralNpuTop WordMemory

-- the state of a core
variable {σ : Type}

/-! ### The cores -/

/-- `ExecutionResult`. -/
inductive ExecutionResult where
  | ok
  | interrupted
  | waitingForInterrupt
  | stoppedAtBreakpoint
  | stoppedAtWatchpoint
  | externalMmuFault
  | aborted
  deriving DecidableEq, Repr

/-- What `GetLastHaltReason` gives: a reason of the top, or one the top never gives. -/
inductive LastHaltReason where
  | top (reason : HaltReason)
  | hardwareBreakpoint
  deriving DecidableEq, Repr

/-- The status of a call that returns for a halt; `none` when the switch goes on. -/
def LastHaltReason.result : LastHaltReason → Option ExecutionResult
  | top .semihostHaltRequest => some .aborted
  | top .softwareBreakpoint | hardwareBreakpoint => some .stoppedAtBreakpoint
  | top .userRequest => some .ok
  | top .haltAbort => some .aborted
  | top .none | top .actionPoint | top .simulatorError => none

/-- `RenodeDebugInterface`, as far as stepping goes.  A call executes no more than it was asked for,
and halts for the reasons the agent knows. -/
structure RenodeDebugInterface (σ : Type) where
  step : ℤ → σ → Except TopStatus ℕ × σ
  getLastHaltReason : σ → Except TopStatus LastHaltReason
  executed_le : ∀ {num : ℤ} {s : σ} {executed : ℕ}, (step num s).1 = .ok executed → executed ≤ num
  halts_for : ∀ {num : ℤ} {s : σ} {executed : ℕ} {reason : LastHaltReason},
    (step num s).1 = .ok executed → getLastHaltReason (step num s).2 = .ok reason →
      reason = .top .none ∨ reason.result.isSome

/-! ### The inner calls -/

/-- An inner call of `Step`, with the halt reason after it; a missing value is an error. -/
structure InnerStep where
  requested : ℕ
  executed : Option ℕ
  reason : Option LastHaltReason
  deriving DecidableEq

/-- The number of instructions an inner call reports. -/
def InnerStep.count (call : InnerStep) : ℕ := call.executed.getD 0

/-- The inner call failed, halted or stopped short. -/
def InnerStep.Stops (call : InnerStep) : Prop :=
  call.executed = none ∨ call.count < call.requested ∨ call.reason ≠ some (.top .none)

instance (call : InnerStep) : Decidable call.Stops := inferInstanceAs (Decidable (_ ∨ _))

/-- The inner call of so many steps. -/
def innerStep (dbg : RenodeDebugInterface σ) (num : ℕ) (s : σ) : InnerStep :=
  match (dbg.step num s).1 with
  | .error _ => ⟨num, none, none⟩
  | .ok executed => ⟨num, some executed, (dbg.getLastHaltReason (dbg.step num s).2).toOption⟩

/-! ### The agent -/

/-- What `Step` returns, and what it writes to the status when there is a place for it.  The inner
calls are for the proofs only. -/
structure StepReport where
  count : BitVec 64
  status : ExecutionResult
  calls : List InnerStep

/-- A report with one more call in front. -/
def StepReport.cons (call : InnerStep) (report : StepReport) : StepReport :=
  { report with calls := call :: report.calls }

/-- `std::numeric_limits<int>::max()`. -/
def intMax : ℕ := 2 ^ 31 - 1

/-- `step_count`. -/
def stepCount (numToStep : BitVec 64) : ℕ :=
  if numToStep.toNat > intMax then intMax else numToStep.toNat

theorem stepCount_le (numToStep : BitVec 64) : stepCount numToStep ≤ numToStep.toNat := by
  rw [stepCount]
  split <;> omega

theorem stepCount_pos {numToStep : BitVec 64} (h : numToStep ≠ 0) : 0 < stepCount numToStep := by
  have hpos : numToStep.toNat ≠ 0 := fun hzero => h (BitVec.eq_of_toNat_eq hzero)
  rw [stepCount, intMax]
  split <;> omega

/-- The loop of `Step`. -/
def stepLoop (dbg : RenodeDebugInterface σ) (numToStep : BitVec 64) (totalExecuted : BitVec 32)
    (s : σ) : StepReport × σ :=
  if _ : numToStep = 0 then (⟨totalExecuted.setWidth 64, .ok, []⟩, s)
  else
    let count := stepCount numToStep
    let s' := (dbg.step count s).2
    match _ : (dbg.step count s).1 with
    | .error _ => (⟨totalExecuted.setWidth 64, .aborted, [⟨count, none, none⟩]⟩, s')
    | .ok numExecuted =>
        let totalExecuted := totalExecuted + BitVec.ofNat 32 numExecuted
        match dbg.getLastHaltReason s' with
        | .error _ => (⟨totalExecuted.setWidth 64, .aborted, [⟨count, some numExecuted, none⟩]⟩, s')
        | .ok reason =>
            let call : InnerStep := ⟨count, some numExecuted, some reason⟩
            match reason.result with
            | some status => (⟨totalExecuted.setWidth 64, status, [call]⟩, s')
            | none =>
                if numExecuted < count then (⟨totalExecuted.setWidth 64, .ok, [call]⟩, s')
                else
                  let rest :=
                    stepLoop dbg (numToStep - BitVec.ofNat 64 numExecuted) totalExecuted s'
                  (rest.1.cons call, rest.2)
termination_by numToStep.toNat
decreasing_by
  have hstep : (dbg.step (stepCount numToStep) s).1 = .ok numExecuted := by assumption
  have hle : numExecuted ≤ stepCount numToStep := by exact_mod_cast dbg.executed_le hstep
  have hpos := stepCount_pos ‹¬ numToStep = 0›
  have hcount := stepCount_le numToStep
  rw [BitVec.toNat_sub, BitVec.toNat_ofNat]
  omega

/-- `Step` of a core. -/
def stepCore (dbg : RenodeDebugInterface σ) (numToStep : BitVec 64) (s : σ) : StepReport × σ :=
  if numToStep = 0 then (⟨0, .ok, []⟩, s)
  else
    match dbg.getLastHaltReason s with
    | .error _ => (⟨0, .aborted, []⟩, s)
    | .ok reason =>
        if reason = .top .semihostHaltRequest then (⟨0, .aborted, []⟩, s)
        else stepLoop dbg numToStep 0 s

/-- `RenodeAgent`: the cores by their numbers. -/
structure RenodeAgent (σ : Type) where
  coreDbgInstances : BitVec 32 → Option σ

/-- `Step`. -/
def RenodeAgent.step (dbg : RenodeDebugInterface σ) (agent : RenodeAgent σ) (id : BitVec 32)
    (numToStep : BitVec 64) : StepReport × RenodeAgent σ :=
  match agent.coreDbgInstances id with
  | none => (⟨0, .aborted, []⟩, agent)
  | some s =>
      let result := stepCore dbg numToStep s
      (result.1, ⟨Function.update agent.coreDbgInstances id (some result.2)⟩)

/-! ### An iteration -/

section Loop

variable {dbg : RenodeDebugInterface σ}

/-- The number of steps that are left after a full slice. -/
def left (numToStep : BitVec 64) : BitVec 64 := numToStep - BitVec.ofNat 64 (stepCount numToStep)

theorem toNat_left (numToStep : BitVec 64) :
    (left numToStep).toNat = numToStep.toNat - stepCount numToStep := by
  have hcount := stepCount_le numToStep
  rw [left, BitVec.toNat_sub, BitVec.toNat_ofNat]
  omega

/-- An inner call executes no more than it was asked for. -/
theorem count_innerStep_le (dbg : RenodeDebugInterface σ) (num : ℕ) (s : σ) :
    (innerStep dbg num s).count ≤ num := by
  rw [innerStep]
  cases hstep : (dbg.step num s).1 with
  | error e => exact Nat.zero_le _
  | ok executed => exact_mod_cast dbg.executed_le hstep

@[simp] theorem requested_innerStep (dbg : RenodeDebugInterface σ) (num : ℕ) (s : σ) :
    (innerStep dbg num s).requested = num := by
  rw [innerStep]
  cases (dbg.step num s).1 <;> rfl

/-- An inner call that does not stop executes all it was asked for. -/
theorem count_innerStep_of_not_stops {num : ℕ} {s : σ} (h : ¬ (innerStep dbg num s).Stops) :
    (innerStep dbg num s).count = num := by
  have hle := count_innerStep_le dbg num s
  simp only [InnerStep.Stops, not_or, requested_innerStep] at h
  omega

theorem innerStep_error {num : ℕ} {s : σ} {e : TopStatus} (h : (dbg.step num s).1 = .error e) :
    innerStep dbg num s = ⟨num, none, none⟩ := by
  rw [innerStep, h]

theorem innerStep_ok {num executed : ℕ} {s : σ} (h : (dbg.step num s).1 = .ok executed) :
    innerStep dbg num s =
      ⟨num, some executed, (dbg.getLastHaltReason (dbg.step num s).2).toOption⟩ := by
  rw [innerStep, h]

/-- The loop behind an inner call that executed something. -/
def afterStep (dbg : RenodeDebugInterface σ) (numToStep : BitVec 64) (totalExecuted : BitVec 32)
    (numExecuted : ℕ) (s' : σ) : StepReport × σ :=
  let count := stepCount numToStep
  match dbg.getLastHaltReason s' with
  | .error _ => (⟨totalExecuted.setWidth 64, .aborted, [⟨count, some numExecuted, none⟩]⟩, s')
  | .ok reason =>
      let call : InnerStep := ⟨count, some numExecuted, some reason⟩
      match reason.result with
      | some status => (⟨totalExecuted.setWidth 64, status, [call]⟩, s')
      | none =>
          if numExecuted < count then (⟨totalExecuted.setWidth 64, .ok, [call]⟩, s')
          else
            let rest := stepLoop dbg (numToStep - BitVec.ofNat 64 numExecuted) totalExecuted s'
            (rest.1.cons call, rest.2)

theorem stepLoop_error {numToStep : BitVec 64} (hne : numToStep ≠ 0) (totalExecuted : BitVec 32)
    {s : σ} {e : TopStatus} (h : (dbg.step (stepCount numToStep) s).1 = .error e) :
    stepLoop dbg numToStep totalExecuted s =
      (⟨totalExecuted.setWidth 64, .aborted, [⟨stepCount numToStep, none, none⟩]⟩,
        (dbg.step (stepCount numToStep) s).2) := by
  rw [stepLoop, dif_neg hne]
  dsimp only
  split
  next => rfl
  next executed hok =>
    rw [h] at hok
    cases hok

theorem stepLoop_ok {numToStep : BitVec 64} (hne : numToStep ≠ 0) (totalExecuted : BitVec 32)
    {s : σ} {executed : ℕ} (h : (dbg.step (stepCount numToStep) s).1 = .ok executed) :
    stepLoop dbg numToStep totalExecuted s =
      afterStep dbg numToStep (totalExecuted + BitVec.ofNat 32 executed) executed
        (dbg.step (stepCount numToStep) s).2 := by
  rw [stepLoop, dif_neg hne]
  dsimp only
  split
  next e herror =>
    rw [h] at herror
    cases herror
  next executed' hok =>
    rw [h] at hok
    cases hok
    rfl

/-- **What an iteration does**: nothing when nothing is left; or it makes one call, and returns if
that call stops, and goes on after it otherwise. -/
theorem stepLoop_cases (dbg : RenodeDebugInterface σ) (numToStep : BitVec 64)
    (totalExecuted : BitVec 32) (s : σ) :
    let call := innerStep dbg (stepCount numToStep) s
    let s' := (dbg.step (stepCount numToStep) s).2
    let totalExecuted' := totalExecuted + BitVec.ofNat 32 call.count
    (numToStep = 0 ∧ stepLoop dbg numToStep totalExecuted s =
        (⟨totalExecuted.setWidth 64, .ok, []⟩, s)) ∨
      (numToStep ≠ 0 ∧ call.Stops ∧ ∃ status, stepLoop dbg numToStep totalExecuted s =
        (⟨totalExecuted'.setWidth 64, status, [call]⟩, s')) ∨
      (numToStep ≠ 0 ∧ ¬ call.Stops ∧ stepLoop dbg numToStep totalExecuted s =
        ((stepLoop dbg (left numToStep) totalExecuted' s').1.cons call,
          (stepLoop dbg (left numToStep) totalExecuted' s').2)) := by
  intro call s' totalExecuted'
  by_cases hzero : numToStep = 0
  · refine Or.inl ⟨hzero, ?_⟩
    rw [stepLoop, dif_pos hzero]
  refine Or.inr ?_
  cases hstep : (dbg.step (stepCount numToStep) s).1 with
  | error e =>
      have hcall : call = ⟨stepCount numToStep, none, none⟩ := innerStep_error hstep
      have htotal : totalExecuted' = totalExecuted := by
        simp [totalExecuted', hcall, InnerStep.count]
      refine Or.inl ⟨hzero, Or.inl (by rw [hcall]), .aborted, ?_⟩
      rw [stepLoop_error hzero _ hstep, htotal, hcall]
  | ok executed =>
      have hcall : call = ⟨stepCount numToStep, some executed,
        (dbg.getLastHaltReason s').toOption⟩ :=
        innerStep_ok hstep
      have hcount : call.count = executed := by
        rw [hcall]
        rfl
      have hloop : stepLoop dbg numToStep totalExecuted s =
          afterStep dbg numToStep totalExecuted' executed s' := by
        rw [stepLoop_ok hzero _ hstep, ← hcount]
      rw [hloop, afterStep]
      cases hreason : dbg.getLastHaltReason s' with
      | error e =>
          rw [hreason] at hcall
          refine Or.inl ⟨hzero, Or.inr (Or.inr ?_), .aborted, ?_⟩
          · rw [hcall]
            nofun
          · rw [hcall]
            rfl
      | ok reason =>
          rw [hreason] at hcall
          cases hresult : reason.result with
          | some status =>
              refine Or.inl ⟨hzero, Or.inr (Or.inr ?_), status, ?_⟩
              · rw [hcall]
                intro heq
                cases heq
                cases hresult
              · simp only [hresult]
                rw [hcall]
                rfl
          | none =>
              -- the call did not halt
              have hnone : reason = .top .none := by
                rcases dbg.halts_for hstep hreason with hnone | hsome
                · exact hnone
                · rw [hresult] at hsome
                  cases hsome
              by_cases hshort : executed < stepCount numToStep
              · refine Or.inl ⟨hzero, Or.inr (Or.inl ?_), .ok, ?_⟩
                · rw [hcall]
                  exact hshort
                · simp only [hresult, if_pos hshort]
                  rw [hcall]
                  rfl
              · have hnot : ¬ call.Stops := by
                  rw [hcall, hnone]
                  rintro (hfailed | hlt | hhalted)
                  · cases hfailed
                  · exact hshort hlt
                  · exact hhalted rfl
                have hfull : executed = stepCount numToStep := by
                  rw [← hcount]
                  exact count_innerStep_of_not_stops hnot
                refine Or.inr ⟨hzero, hnot, ?_⟩
                simp only [hresult, if_neg hshort]
                rw [left, ← hfull, hcall, ← hfull]
                rfl

/-! ### The loop -/

/-- The number of instructions the inner calls report. -/
def StepReport.executed (report : StepReport) : ℕ := (report.calls.map InnerStep.count).sum

/-- No inner call is made after one that stops. -/
def StepReport.EndsAtStop (report : StepReport) : Prop :=
  ∀ front call back, report.calls = front ++ call :: back → call.Stops → back = []

theorem endsAtStop_singleton (count : BitVec 64) (status : ExecutionResult) (call : InnerStep) :
    StepReport.EndsAtStop ⟨count, status, [call]⟩ := by
  intro front call' back hcalls _
  have hlength : [call].length = (front ++ call' :: back).length := congrArg List.length hcalls
  rw [List.length_append, List.length_singleton, List.length_cons] at hlength
  exact List.eq_nil_of_length_eq_zero (by omega)

theorem StepReport.EndsAtStop.cons {report : StepReport} (h : report.EndsAtStop) {call : InnerStep}
    (hcall : ¬ call.Stops) : (report.cons call).EndsAtStop := by
  intro front call' back hcalls hstops
  cases front with
  | nil =>
      cases hcalls
      exact absurd hstops hcall
  | cons first front =>
      exact h front call' back (List.cons.inj hcalls).2 hstops

/-- What the loop reports, behind a total. -/
structure LoopReported (numToStep : BitVec 64) (totalExecuted : BitVec 32) (report : StepReport) :
    Prop where
  count : report.count = (totalExecuted + BitVec.ofNat 32 report.executed).setWidth 64
  executed_le : report.executed ≤ numToStep.toNat
  endsAtStop : report.EndsAtStop
  short : report.executed < numToStep.toNat → ∃ call ∈ report.calls, call.Stops

/-- **The whole loop.** -/
theorem loopReported_stepLoop (dbg : RenodeDebugInterface σ) (numToStep : BitVec 64)
    (totalExecuted : BitVec 32) (s : σ) :
    LoopReported numToStep totalExecuted (stepLoop dbg numToStep totalExecuted s).1 := by
  -- by induction on the number of steps that are left
  induction hn : numToStep.toNat using Nat.strongRecOn generalizing numToStep totalExecuted s with
  | _ n ih =>
      subst hn
      have hcount := stepCount_le numToStep
      have hle := count_innerStep_le dbg (stepCount numToStep) s
      rcases stepLoop_cases dbg numToStep totalExecuted s with
        ⟨rfl, hloop⟩ | ⟨-, hstops, status, hloop⟩ | ⟨hne, hnot, hloop⟩
      · rw [hloop]
        exact ⟨by simp [StepReport.executed], Nat.zero_le _, by simp [StepReport.EndsAtStop],
          fun hlt => absurd hlt (Nat.not_lt_zero _)⟩
      · rw [hloop]
        refine ⟨by simp [StepReport.executed], ?_, endsAtStop_singleton _ _ _,
          fun _ => ⟨_, List.mem_singleton_self _, hstops⟩⟩
        simp only [StepReport.executed, List.map_cons, List.map_nil, List.sum_cons, List.sum_nil]
        omega
      · have hfull := count_innerStep_of_not_stops hnot
        have hleft := toNat_left numToStep
        have hpos := stepCount_pos hne
        obtain ⟨hsum, hrest, hends, hshort⟩ := ih (left numToStep).toNat (by omega) (left numToStep)
          (totalExecuted + BitVec.ofNat 32 (innerStep dbg (stepCount numToStep) s).count)
          (dbg.step (stepCount numToStep) s).2 rfl
        rw [hloop]
        generalize (stepLoop dbg (left numToStep) _ _).1 = report at *
        have hexecuted : (report.cons (innerStep dbg (stepCount numToStep) s)).executed =
            (innerStep dbg (stepCount numToStep) s).count + report.executed := by
          simp [StepReport.executed, StepReport.cons]
        refine ⟨?_, ?_, hends.cons hnot, fun hlt => ?_⟩
        · rw [hexecuted, BitVec.ofNat_add, ← BitVec.add_assoc]
          exact hsum
        · rw [hexecuted]
          omega
        · rw [hexecuted] at hlt
          obtain ⟨call, hmem, hstops⟩ := hshort (by omega)
          exact ⟨call, List.mem_cons_of_mem _ hmem, hstops⟩

/-- What the inner calls of the loop report, call by call. -/
theorem executed_stepLoop (dbg : RenodeDebugInterface σ) {numToStep : BitVec 64}
    (hne : numToStep ≠ 0) (totalExecuted : BitVec 32) (s : σ) :
    (stepLoop dbg numToStep totalExecuted s).1.executed =
      (innerStep dbg (stepCount numToStep) s).count +
        if (innerStep dbg (stepCount numToStep) s).Stops then 0
        else (stepLoop dbg (left numToStep)
          (totalExecuted + BitVec.ofNat 32 (innerStep dbg (stepCount numToStep) s).count)
          (dbg.step (stepCount numToStep) s).2).1.executed := by
  rcases stepLoop_cases dbg numToStep totalExecuted s with
    ⟨hzero, -⟩ | ⟨-, hstops, status, hloop⟩ | ⟨-, hnot, hloop⟩
  · exact absurd hzero hne
  · rw [hloop, if_pos hstops]
    simp [StepReport.executed]
  · rw [hloop, if_neg hnot]
    simp [StepReport.executed, StepReport.cons]

/-- The core executes `2 ^ 32` instructions before it stops: two full slices, and two instructions
of a third. -/
structure ExecutesTooMany (dbg : RenodeDebugInterface σ) (numToStep : BitVec 64) (s : σ) :
    Prop where
  request : 2 ^ 32 ≤ numToStep.toNat
  first : ¬ (innerStep dbg intMax s).Stops
  second : ¬ (innerStep dbg intMax (dbg.step intMax s).2).Stops
  third : 2 ≤ (innerStep dbg (stepCount (numToStep - BitVec.ofNat 64 (2 * intMax)))
    (dbg.step intMax (dbg.step intMax s).2).2).count

theorem ne_of_toNat_pos {numToStep : BitVec 64} (h : 0 < numToStep.toNat) : numToStep ≠ 0 := by
  rintro rfl
  exact absurd h (Nat.lt_irrefl _)

theorem stepCount_of_lt {numToStep : BitVec 64} (h : intMax < numToStep.toNat) :
    stepCount numToStep = intMax := if_pos h

/-- **Exactly such a core makes the sum exceed 32 bits.** -/
theorem executesTooMany_iff (dbg : RenodeDebugInterface σ) (numToStep : BitVec 64) (s : σ) :
    ExecutesTooMany dbg numToStep s ↔ 2 ^ 32 ≤ (stepLoop dbg numToStep 0 s).1.executed := by
  by_cases hrequest : 2 ^ 32 ≤ numToStep.toNat
  · have hmax : intMax = 2147483647 := rfl
    have hleft := toNat_left numToStep
    have hleft₂ := toNat_left (left numToStep)
    have hslice : stepCount numToStep = intMax := stepCount_of_lt (by omega)
    rw [hslice] at hleft
    have hslice₂ : stepCount (left numToStep) = intMax := stepCount_of_lt (by omega)
    rw [hslice₂, hleft] at hleft₂
    have hthird : left (left numToStep) = numToStep - BitVec.ofNat 64 (2 * intMax) := by
      apply BitVec.eq_of_toNat_eq
      rw [hleft₂, BitVec.toNat_sub, BitVec.toNat_ofNat]
      omega
    have hpos₂ : left numToStep ≠ 0 := ne_of_toNat_pos (by omega)
    have hpos₃ : left (left numToStep) ≠ 0 := ne_of_toNat_pos (by omega)
    have hne : numToStep ≠ 0 := ne_of_toNat_pos (by omega)
    -- the first three calls, if they are made
    have hsum := executed_stepLoop dbg hne 0 s
    have hsum₂ := executed_stepLoop dbg hpos₂
      (0 + BitVec.ofNat 32 (innerStep dbg intMax s).count) (dbg.step intMax s).2
    rw [hslice] at hsum
    rw [hslice₂] at hsum₂
    generalize hs₂ : (dbg.step intMax (dbg.step intMax s).2).2 = s₂ at hsum₂
    have hsum₃ := executed_stepLoop dbg hpos₃ (0 + BitVec.ofNat 32 (innerStep dbg intMax s).count +
      BitVec.ofNat 32 (innerStep dbg intMax (dbg.step intMax s).2).count) s₂
    have hle := count_innerStep_le dbg intMax s
    have hle₂ := count_innerStep_le dbg intMax (dbg.step intMax s).2
    constructor
    · rintro ⟨-, hgoes, hgoes₂, hcount⟩
      rw [hs₂, ← hthird] at hcount
      have hfull := count_innerStep_of_not_stops hgoes
      have hfull₂ := count_innerStep_of_not_stops hgoes₂
      rw [if_neg hgoes] at hsum
      rw [if_neg hgoes₂] at hsum₂
      omega
    · intro hexceeds
      have hgoes : ¬ (innerStep dbg intMax s).Stops := by
        intro hstops
        rw [if_pos hstops] at hsum
        omega
      rw [if_neg hgoes] at hsum
      have hgoes₂ : ¬ (innerStep dbg intMax (dbg.step intMax s).2).Stops := by
        intro hstops
        rw [if_pos hstops] at hsum₂
        omega
      rw [if_neg hgoes₂] at hsum₂
      refine ⟨hrequest, hgoes, hgoes₂, ?_⟩
      rw [hs₂, ← hthird]
      by_cases hstops : (innerStep dbg (stepCount (left (left numToStep))) s₂).Stops
      · rw [if_pos hstops] at hsum₃
        omega
      · -- a full slice of at least two
        rw [count_innerStep_of_not_stops hstops, stepCount]
        split <;> omega
  · have hle := (loopReported_stepLoop dbg numToStep 0 s).executed_le
    refine ⟨fun h => absurd h.request hrequest, fun h => ?_⟩
    omega

end Loop

/-! ### The agent's reports -/

section Report

variable (dbg : RenodeDebugInterface σ) (agent : RenodeAgent σ) (id : BitVec 32)
  (numToStep : BitVec 64)

/-- The core is there, its halt reason can be read, and the program has not exited. -/
def CanStep (s : σ) : Prop :=
  agent.coreDbgInstances id = some s ∧
    ∃ reason, dbg.getLastHaltReason s = .ok reason ∧ reason ≠ .top .semihostHaltRequest

/-- **A report says what ran**: the count is the sum of what the inner calls executed, and no more
than was asked for; nothing is executed after a call that stops; and the count is smaller only if a
call stops, or the core cannot be stepped at all. -/
structure StepReported (report : StepReport) : Prop where
  count : report.count.toNat = report.executed
  count_le : report.count ≤ numToStep
  endsAtStop : report.EndsAtStop
  short : report.count < numToStep →
    (¬ ∃ s, CanStep dbg agent id s) ∨ ∃ call ∈ report.calls, call.Stops

/-- A core that can be stepped is. -/
theorem step_of_canStep {s : σ} (h : CanStep dbg agent id s) :
    (agent.step dbg id numToStep).1 = (stepLoop dbg numToStep 0 s).1 := by
  obtain ⟨hcore, reason, hreason, hne⟩ := h
  simp only [RenodeAgent.step, hcore, stepCore, hreason, if_neg hne]
  split
  next hzero => rw [stepLoop, dif_pos hzero]; rfl
  next => rfl

/-- Nothing is done with a core that cannot be stepped. -/
theorem step_of_not_canStep (h : ¬ ∃ s, CanStep dbg agent id s) :
    ∃ status, (agent.step dbg id numToStep).1 = ⟨0, status, []⟩ := by
  rw [RenodeAgent.step]
  cases hcore : agent.coreDbgInstances id with
  | none => exact ⟨_, rfl⟩
  | some s =>
      simp only [stepCore]
      split
      next => exact ⟨_, rfl⟩
      next =>
        split
        next => exact ⟨_, rfl⟩
        next reason hreason =>
          split
          next => exact ⟨_, rfl⟩
          next hne => exact absurd ⟨s, hcore, reason, hreason, hne⟩ h

/-- **A report says what ran exactly when the sum fits 32 bits.** -/
theorem stepReported_iff :
    StepReported dbg agent id numToStep (agent.step dbg id numToStep).1 ↔
      ∀ s, CanStep dbg agent id s → ¬ ExecutesTooMany dbg numToStep s := by
  by_cases hcan : ∃ s, CanStep dbg agent id s
  · obtain ⟨s, hs⟩ := hcan
    have hunique : ∀ s', CanStep dbg agent id s' → s' = s := by
      rintro s' ⟨hcore, -⟩
      exact Option.some.inj (hcore.symm.trans hs.1)
    obtain ⟨hcount, hle, hends, hshort⟩ := loopReported_stepLoop dbg numToStep 0 s
    have hmod : (stepLoop dbg numToStep 0 s).1.count.toNat =
        (stepLoop dbg numToStep 0 s).1.executed % 2 ^ 32 := by
      rw [hcount, BitVec.ofNat_eq_ofNat, BitVec.zero_add, BitVec.toNat_setWidth, BitVec.toNat_ofNat]
      omega
    rw [step_of_canStep dbg agent id numToStep hs]
    constructor
    · rintro ⟨hsum, -, -, -⟩ s' hs' htoo
      rw [hunique s' hs', executesTooMany_iff] at htoo
      omega
    · intro hfits
      have hsum := hfits s hs
      rw [executesTooMany_iff, Nat.not_le] at hsum
      rw [Nat.mod_eq_of_lt hsum] at hmod
      refine ⟨hmod, ?_, hends, fun hlt => Or.inr (hshort ?_)⟩
      · rw [BitVec.le_def, hmod]
        exact hle
      · rw [← hmod]
        exact hlt
  · obtain ⟨status, hstep⟩ := step_of_not_canStep dbg agent id numToStep hcan
    refine ⟨fun _ s hs => absurd ⟨s, hs⟩ hcan, fun _ => ?_⟩
    rw [hstep]
    refine ⟨rfl, Nat.zero_le _, ?_, fun _ => Or.inl hcan⟩
    intro front call back hcalls _
    exact absurd (congrArg List.length hcalls) (by simp)

end Report

/-! ### The top behind the interface -/

section Top

variable {ρ : Type} {C : DecodeCache} (isa : InstructionSet ρ)

/-- The reasons an instruction can give are known to the agent. -/
theorem isSome_result_of_eventRequest {inst : DecodedInstruction} {breakpoints : List Address}
    {c : CoreState ρ} {event : Option CoreEvent} {reason : HaltReason}
    (h : eventRequest isa inst breakpoints c event = some reason) :
    (LastHaltReason.top reason).result.isSome := by
  unfold eventRequest at h
  split at h
  · cases h
  · split at h
    · split at h
      · cases h
        rfl
      · cases h
    · split at h <;>
      · cases h
        rfl
  · cases h
    rfl
  · split at h
    · cases h
      rfl
    · cases h

/-- A halt in force has a reason that the agent knows. -/
def HaltsKnown (s : CoralNpuTop ρ C) : Prop :=
  s.halted = true → (LastHaltReason.top s.haltReason).result.isSome

theorem haltsKnown_executeAt (address : Address) {s : CoralNpuTop ρ C} (h : s.halted = false) :
    HaltsKnown (s.executeAt isa address) := by
  intro hhalted
  rw [halted_executeAt, h, Bool.false_or, Option.isSome_iff_exists] at hhalted
  obtain ⟨reason, hrequest⟩ := hhalted
  rw [haltReason_executeAt, hrequest, Option.getD_some]
  exact isSome_result_of_eventRequest isa hrequest

theorem haltReason_stepHalted (garbage : Address) (num : ℕ) (s : CoralNpuTop ρ C) :
    (s.stepHalted isa garbage num).2.haltReason = .none ∨
      (LastHaltReason.top (s.stepHalted isa garbage num).2.haltReason).result.isSome := by
  have hstart : HaltsKnown (stepStart isa garbage s).top := by
    simp only [stepStart]
    split
    · exact haltsKnown_executeAt isa _ rfl
    · intro hhalted
      cases hhalted
  have hloop : HaltsKnown (iterate (stepBody isa) (num - (stepStart isa garbage s).count)
      (stepStart isa garbage s)).top := by
    rw [iterate_stepBody]
    exact iterate_invariant (P := fun l => HaltsKnown l.top)
      (fun l hl _ => haltsKnown_executeAt isa l.nextPc hl) _ hstart
  simp only [stepHalted, stepFinish]
  split
  next hhalted =>
    have hreason : ∀ l : Loop ρ C, (finishPc l).haltReason = l.top.haltReason ∧
        (finishPc l).halted = l.top.halted := by
      intro l
      rw [finishPc]
      split <;> exact ⟨rfl, rfl⟩
    rw [(hreason _).2] at hhalted
    rw [(hreason _).1]
    exact Or.inr (hloop hhalted)
  next => exact Or.inl rfl

theorem count_iterate_le (n : ℕ) (l : Loop ρ C) :
    (iterate (CoralNpuTop.advance isa) n l).count ≤ l.count + n := by
  induction n generalizing l with
  | zero => exact Nat.le_refl _
  | succ n ih =>
      cases hl : l.top.halted with
      | true =>
          rw [iterate_of_halted hl]
          omega
      | false =>
          rw [iterate_succ hl]
          have hrest := ih (CoralNpuTop.advance isa l)
          have hone : (CoralNpuTop.advance isa l).count = l.count + 1 := rfl
          omega

/-- A call executes no more than it was asked for. -/
theorem count_stepHalted_le (garbage : Address) {num : ℕ} (h : 0 < num) (s : CoralNpuTop ρ C) :
    (s.stepHalted isa garbage num).1 ≤ num := by
  have hstart : (stepStart isa garbage s).count ≤ 1 := by
    simp only [stepStart]
    split
    · exact Nat.le_refl _
    · exact Nat.zero_le _
  have hloop := count_iterate_le isa (num - (stepStart isa garbage s).count)
    (stepStart isa garbage s)
  simp only [stepHalted, iterate_stepBody]
  omega

/-- `CoralNPURenode::Step`. -/
def renodeStep (garbage : Address) (num : ℤ) (s : CoralNpuTop ρ C) :
    Except TopStatus ℕ × CoralNpuTop ρ C :=
  match s.step isa garbage num with
  | .error e => (.error e, s)
  | .ok (executed, s') => (.ok executed, s')

/-- A call that does not fail steps a top that is halted. -/
theorem renodeStep_eq_ok {garbage : Address} {num : ℤ} {s : CoralNpuTop ρ C} {executed : ℕ}
    (h : (renodeStep isa garbage num s).1 = .ok executed) :
    0 < num ∧ renodeStep isa garbage num s =
      (.ok (s.stepHalted isa garbage num.toNat).1, (s.stepHalted isa garbage num.toNat).2) := by
  rw [renodeStep, step] at h ⊢
  split at h
  next e herror => cases h
  next executed' s' hok =>
    split at hok
    next => cases hok
    next hpos =>
      split at hok
      next => cases hok
      next hhalted =>
        cases hok
        exact ⟨by omega, rfl⟩

/-- `CoralNPURenode`, over the top.  The uninitialised variable of a call may be anything. -/
def coralNpuRenode (garbage : ℤ → CoralNpuTop ρ C → Address) :
    RenodeDebugInterface (CoralNpuTop ρ C) where
  step num s := renodeStep isa (garbage num s) num s
  getLastHaltReason s := .ok (.top s.haltReason)
  executed_le := by
    intro num s executed h
    obtain ⟨hpos, hstep⟩ := renodeStep_eq_ok isa h
    rw [hstep] at h
    cases h
    have hle := count_stepHalted_le isa (garbage num s) (show 0 < num.toNat by omega) s
    omega
  halts_for := by
    intro num s executed reason h hreason
    obtain ⟨-, hstep⟩ := renodeStep_eq_ok isa h
    rw [hstep] at hreason
    cases hreason
    rcases haltReason_stepHalted isa (garbage num s) num.toNat s with hnone | hsome
    · exact Or.inl (congrArg _ hnone)
    · exact Or.inr hsome

end Top

/-! ### A program that never halts -/

/-- The core has a program of instructions that do nothing, and no breakpoint. -/
structure RunsNops (s : CoralNpuTop Unit noCache) : Prop where
  memory : s.code.memory = fun _ => 0
  runStatus : s.runStatus = .halted
  needToStepOver : s.needToStepOver = false

theorem word_getDecodedInstruction {s : CoralNpuTop Unit noCache}
    (h : s.code.memory = fun _ => 0) (address : Address) :
    (s.getDecodedInstruction address).1.word = 0 := by
  have hword : (s.getDecodedInstruction address).1.word = loadWord s.code.memory address := rfl
  rw [hword, h]
  simp [loadWord]

theorem execute_plainIsa {inst : DecodedInstruction} (h : inst.word = 0) (c : CoreState Unit) :
    plainIsa.execute inst c = (c, none) := by
  simp only [plainIsa, h]
  rfl

theorem entryAt_plainIsa {s : CoralNpuTop Unit noCache} (h : s.code.memory = fun _ => 0)
    (address : Address) : (s.entryAt plainIsa address).request = none ∧
      (s.entryAt plainIsa address).after.memory = fun _ => 0 := by
  have hexecute := execute_plainIsa (word_getDecodedInstruction h address)
  constructor
  · have hrequest : (s.entryAt plainIsa address).request =
        eventRequest plainIsa (s.getDecodedInstruction address).1
          (s.ready plainIsa address).breakpoints
          (plainIsa.execute (s.getDecodedInstruction address).1 (s.ready plainIsa address).core).1
          (plainIsa.execute (s.getDecodedInstruction address).1
            (s.ready plainIsa address).core).2 :=
      rfl
    rw [hrequest, hexecute]
    rfl
  · have hafter : (s.entryAt plainIsa address).after.memory =
        (eventCore plainIsa (s.getDecodedInstruction address).1
          (plainIsa.execute (s.getDecodedInstruction address).1 (s.ready plainIsa address).core).1
          (plainIsa.execute (s.getDecodedInstruction address).1
            (s.ready plainIsa address).core).2).memory := rfl
    rw [hafter, hexecute]
    exact h

/-- The loop of `Step` runs on over such a program. -/
theorem iterate_plainIsa (n : ℕ) {l : Loop Unit noCache} (hmemory : l.top.code.memory = fun _ => 0)
    (hhalted : l.top.halted = false) (hneed : l.top.needToStepOver = false) :
    (iterate (CoralNpuTop.advance plainIsa) n l).count = l.count + n ∧
      (iterate (CoralNpuTop.advance plainIsa) n l).top.code.memory = (fun _ => 0) ∧
      (iterate (CoralNpuTop.advance plainIsa) n l).top.halted = false ∧
      (iterate (CoralNpuTop.advance plainIsa) n l).top.needToStepOver = false := by
  induction n generalizing l with
  | zero => exact ⟨rfl, hmemory, hhalted, hneed⟩
  | succ n ih =>
      obtain ⟨hrequest, hafter⟩ := entryAt_plainIsa hmemory l.nextPc
      have htop : (CoralNpuTop.advance plainIsa l).top = l.top.executeAt plainIsa l.nextPc := rfl
      have hcount : (CoralNpuTop.advance plainIsa l).count = l.count + 1 := rfl
      obtain ⟨hrest, hrests⟩ := ih (l := CoralNpuTop.advance plainIsa l)
        (by rw [htop, memory_executeAt, hafter])
          (by rw [htop, halted_executeAt, hrequest, hhalted]; rfl)
        (by rw [htop, needToStepOver_executeAt, hrequest, hneed]; rfl)
      rw [iterate_succ hhalted]
      exact ⟨by omega, hrests⟩

/-- **A call executes all it was asked for**, and leaves such a core. -/
theorem RunsNops.step {s : CoralNpuTop Unit noCache} (h : RunsNops s) (garbage : Address) {num : ℕ}
    (hnum : 0 < num) : ∃ s', renodeStep plainIsa garbage num s = (.ok num, s') ∧ RunsNops s' ∧
      s'.haltReason = .none := by
  have hstart : stepStart plainIsa garbage s =
      ⟨{ s with runStatus := .singleStep, halted := false }, garbage, s.pcAddress, 0⟩ := by
    simp only [stepStart, h.needToStepOver]
    rfl
  obtain ⟨hcount, hmemory, hhalted, hneed⟩ := iterate_plainIsa num
    (l := ⟨{ s with runStatus := .singleStep, halted := false }, garbage, s.pcAddress, 0⟩)
    h.memory rfl h.needToStepOver
  have hpos : ¬ (num : ℤ) ≤ 0 := by omega
  refine ⟨(s.stepHalted plainIsa garbage num).2, ?_, ?_⟩
  · have hexecuted : (s.stepHalted plainIsa garbage num).1 = num := by
      rw [stepHalted, hstart, iterate_stepBody, Nat.sub_zero]
      exact hcount.trans (Nat.zero_add num)
    simp only [renodeStep, CoralNpuTop.step, if_neg hpos, h.runStatus, ne_eq, not_true_eq_false,
      if_false, Int.toNat_natCast, hexecuted]
  · simp only [stepHalted, hstart, iterate_stepBody, Nat.sub_zero, stepFinish]
    generalize iterate (CoralNpuTop.advance plainIsa) num _ = l at *
    have hpc : finishPc l =
        l.top.setPc (if l.top.haltReason = .softwareBreakpoint then l.pc else l.nextPc) := by
      rw [finishPc]
      split <;> rfl
    rw [hpc, setPc]
    simp only [hhalted]
    exact ⟨⟨hmemory, rfl, hneed⟩, rfl⟩

/-- The interface of the cores that execute nothing but nops, ebreaks and mpauses. -/
def plainRenode : RenodeDebugInterface (CoralNpuTop Unit noCache) :=
  coralNpuRenode plainIsa fun _ _ => 0

theorem RunsNops.innerStep {s : CoralNpuTop Unit noCache} (h : RunsNops s) {num : ℕ}
    (hnum : 0 < num) : innerStep plainRenode num s = ⟨num, some num, some (.top .none)⟩ ∧
      RunsNops (plainRenode.step num s).2 := by
  obtain ⟨s', hstep, hs', hreason⟩ := h.step 0 hnum
  have hcall : plainRenode.step num s = (.ok num, s') := hstep
  refine ⟨?_, by rw [hcall]; exact hs'⟩
  rw [innerStep_ok (by rw [hcall]), hcall]
  simp only [plainRenode, coralNpuRenode, hreason]
  rfl

theorem RunsNops.executesTooMany {s : CoralNpuTop Unit noCache} (h : RunsNops s) :
    ExecutesTooMany plainRenode (BitVec.ofNat 64 (2 ^ 32)) s := by
  have hgoes (num : ℕ) : ¬ InnerStep.Stops ⟨num, some num, some (.top .none)⟩ := by
    simp [InnerStep.Stops, InnerStep.count]
  have hmax : 0 < intMax := by decide
  obtain ⟨hfirst, h₁⟩ := h.innerStep hmax
  obtain ⟨hsecond, h₂⟩ := h₁.innerStep hmax
  have hslice : stepCount (BitVec.ofNat 64 (2 ^ 32) - BitVec.ofNat 64 (2 * intMax)) = 2 := by decide
  obtain ⟨hthird, -⟩ := h₂.innerStep (show 0 < 2 by decide)
  refine ⟨by decide, by rw [hfirst]; exact hgoes _, by rw [hsecond]; exact hgoes _, ?_⟩
  rw [hslice, hthird]
  exact Nat.le_refl _

/-- An agent with such a core. -/
def nopAgent : RenodeAgent (CoralNpuTop Unit noCache) :=
  ⟨fun id => if id = 0 then some (start () (fun _ => 0) 0) else none⟩

/-- Of `2 ^ 32` steps all are executed, and none is reported. -/
theorem not_stepReported_nopAgent :
    let report := (nopAgent.step plainRenode 0 (BitVec.ofNat 64 (2 ^ 32))).1
    report.executed = 2 ^ 32 ∧ report.count = 0 ∧
      ¬ StepReported plainRenode nopAgent 0 (BitVec.ofNat 64 (2 ^ 32)) report := by
  intro report
  have hnops : RunsNops (start () (fun _ => 0) 0) := ⟨rfl, rfl, rfl⟩
  have hcan : CanStep plainRenode nopAgent 0 (start () (fun _ => 0) 0) :=
    ⟨rfl, .top .none, rfl, by decide⟩
  have hreport : report =
      (stepLoop plainRenode (BitVec.ofNat 64 (2 ^ 32)) 0 (start () (fun _ => 0) 0)).1 :=
    step_of_canStep plainRenode nopAgent 0 _ hcan
  have hloop := loopReported_stepLoop plainRenode (BitVec.ofNat 64 (2 ^ 32)) 0
    (start () (fun _ => 0) 0)
  have hmany := (executesTooMany_iff plainRenode _ _).1 hnops.executesTooMany
  rw [← hreport] at hloop hmany
  have hexecuted : report.executed = 2 ^ 32 := Nat.le_antisymm hloop.executed_le hmany
  have hcount : report.count = 0 := by
    rw [hloop.count, hexecuted]
    rfl
  refine ⟨hexecuted, hcount, fun h => ?_⟩
  have hsum := h.count
  rw [hexecuted, hcount] at hsum
  exact absurd hsum (by decide)

end CoralNpu
