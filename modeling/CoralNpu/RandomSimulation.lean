/-
**The simulation of a test sequence.**

A sequence is loaded into a new simulator and stepped, one instruction at a time.  In front of every
step the tracker is told of the instruction at the program counter.  The loop ends at the step
limit, behind a step that fails or halts, and behind one with an exception; it finds the exception
only when it comes around, in a variable that a callback has set.  Whether the simulation was a
success is decided on what is left then.

The simulator, with its registers, its memory and its decoder, is a parameter.

Main definitions:

* `CoralNpu.SequenceCore` — the simulator, as far as it is used;
* `CoralNpu.runRandomSimulation` — `RunRandomSimulation`, and
  `CoralNpu.SequenceCore.simulationLoop`, its loop;
* `CoralNpu.SequenceCore.runSteps` — steps up to the first that ends the simulation;
* `CoralNpu.simulatedSteps` — the steps that a sequence is simulated for.

Main results:

* `CoralNpu.SequenceCore.simulationLoop_eq` — the loop takes the steps up to the first that ends it,
  and no more;
* `CoralNpu.runRandomSimulation_steps` — **what a result says of the steps that were taken**: their
  number, and the hazards of their instructions;
* `CoralNpu.runRandomSimulation_success` — **what a success says of them**;
* `CoralNpu.globalCoverage_of_simulated` — **what the global coverage of an evolution says of all
  sequences that were simulated**.
-/

import CoralNpu.ExecutionReport
import CoralNpu.OrchestratorEvolve
import CoralNpu.RandomSimulatorMemory

set_option relaxedAutoImplicit false
set_option autoImplicit false

namespace CoralNpu

open AsciiText CodeImage Traces

variable {σ : Type}

/-! ### The simulator -/

/-- A call of the trap callback. -/
structure TrapCall where
  isInterrupt : Bool
  epc : BitVec 64

/-- What a step answers: whether it was one, and the calls of the trap callback in it. -/
structure StepAnswer where
  ok : Bool
  traps : List TrapCall

/-- The simulator of sequences, with its top, its state and its decoder.  What may fail is an
option, or answers whether it was done. -/
structure SequenceCore (σ : Type) where
  start : List CoralNPUV2MemoryRegion → σ
  writeMemory : BitVec 64 → Bytes → σ → Bool × σ
  writeRegister : Text → BitVec 64 → σ → Bool × σ
  hasRegister : Text → σ → Bool
  /-- the data buffer of the pc register -/
  pc : σ → BitVec 32
  /-- the decoded instruction at an address, from the cache -/
  getInstruction : BitVec 64 → σ → Option TracedInstruction × σ
  step : σ → StepAnswer × σ
  getLastHaltReason : σ → Option (BitVec 32)
  getCycleCount : σ → BitVec 64
  readRegister : Text → σ → Option (BitVec 64)
  getRegisterDataBuffer : Text → σ → Option Bytes
  readMemory : BitVec 64 → BitVec 64 → σ → Option Bytes
  /-- the text of the instruction at an address, from the decoder -/
  decodeInstruction : BitVec 64 → σ → Option Text

/-- `HaltReason::kNone`. -/
def kHaltNone : BitVec 32 := 0

/-! ### The loop -/

/-- What the loop sees of a step: the instruction that the tracker is told of, the answer, and the
halt reason behind it. -/
structure SimulatedStep where
  routed : Option TracedInstruction
  answer : StepAnswer
  haltReason : Option (BitVec 32)

/-- The trap callback, on the captured pc. -/
def captureTrap (capturedTrapPc : BitVec 64) (call : TrapCall) : BitVec 64 :=
  if call.isInterrupt = false ∧ capturedTrapPc = 0 then call.epc else capturedTrapPc

/-- The variables of the loop. -/
structure SimulationLoop (σ : Type) where
  core : σ
  tracker : ExecutionTracker
  capturedTrapPc : BitVec 64
  runStatus : Bool
  executed : ℕ

namespace SequenceCore

variable (c : SequenceCore σ)

/-- The instruction at the pc, and a step. -/
def stepOnce (s : σ) : SimulatedStep × σ :=
  let (inst, s) := c.getInstruction ((c.pc s).setWidth 64) s
  let (answer, s) := c.step s
  (⟨inst, answer, c.getLastHaltReason s⟩, s)

/-- The body of the loop. -/
def loopBody (l : SimulationLoop σ) : SimulatedStep × SimulationLoop σ :=
  let (e, s) := c.stepOnce l.core
  (e, { core := s
        tracker := onInstruction l.tracker e.routed
        capturedTrapPc := e.answer.traps.foldl captureTrap l.capturedTrapPc
        runStatus := e.answer.ok
        executed := l.executed + 1 })

/-- The loop, with the number of steps that are left. -/
def simulationLoop : ℕ → SimulationLoop σ → SimulationLoop σ
  | 0, l => l
  | n + 1, l =>
      if l.capturedTrapPc ≠ 0 then l
      else
        let (e, l) := c.loopBody l
        if e.answer.ok = false then l
        else
          match e.haltReason with
          | some reason => if reason ≠ kHaltNone then l else simulationLoop n l
          | none => simulationLoop n l

/-! ### The result -/

/-- The names of the registers that are recorded. -/
def recordedRegisters : List Text :=
  ((List.range 32).flatMap fun r => ['x' :: decimal r, 'f' :: decimal r]) ++
    ["fcsr".toList, "mstatus".toList, "vxrm".toList, "vxsat".toList, "vl".toList, "vtype".toList] ++
    ["satp".toList, "mscratch".toList, "mepc".toList, "mcause".toList, "mtvec".toList,
      "vstart".toList]

/-- The names of the vector registers that are recorded. -/
def recordedVectorRegisters : List Text := (List.range 32).map fun r => 'v' :: decimal r

/-- A map with what is read under a name, if anything is. -/
def recordEntry {α : Type} (read : Text → Option α) (entries : Text → Option α) (name : Text) :
    Text → Option α :=
  match read name with
  | some value => Function.update entries name (some value)
  | none => entries

/-- The terminal state. -/
def terminalState (s : σ) : TerminalState where
  registers := recordedRegisters.foldl
    (recordEntry fun name => (c.readRegister name s).map (BitVec.setWidth 32)) fun _ => none
  vectorRegisters := recordedVectorRegisters.foldl
    (recordEntry fun name => c.getRegisterDataBuffer name s) fun _ => none

/-- The memory dump with a region that can be read and written, when the whole of it can be read. -/
def dumpRegion (s : σ) (dump : BitVec 64 → Option Bytes) (region : CoralNPUV2MemoryRegion) :
    BitVec 64 → Option Bytes :=
  if region.permissions ≠ .readWrite then dump
  else
    match c.readMemory (region.startAddress.setWidth 64) (region.length.setWidth 64) s with
    | some bytes =>
        if bytes.length = region.length.toNat then
          Function.update dump (region.startAddress.setWidth 64) (some bytes)
        else dump
    | none => dump

/-- There is an `mpause` at an address. -/
def isMpause (address : BitVec 64) (s : σ) : Bool :=
  match c.decodeInstruction address s with
  | some disasm => "mpause".toList.isPrefixOf disasm
  | none => false

/-- Whether a simulation that ran for a number of steps was a success. -/
def succeeds (stepLimit : ℕ) (l : SimulationLoop σ) : Bool :=
  if l.runStatus = false then false
  else if l.executed ≥ stepLimit ∧ c.getLastHaltReason l.core = some kHaltNone then false
  else
    match c.readRegister "pc".toList l.core with
    | some pc => c.isMpause pc l.core || (decide (pc ≥ 4) && c.isMpause (pc - 4) l.core)
    | none => false

end SequenceCore

/-- `RandomSimulatorResult`, with the tracker that its coverage is taken from. -/
structure SimulationResult where
  success : Bool
  executedSteps : ℕ
  tracker : ExecutionTracker
  cycles : BitVec 64
  pc : Option (BitVec 32)
  terminalState : TerminalState
  memoryDump : BitVec 64 → Option Bytes

/-- A new result. -/
def SimulationResult.failed : SimulationResult :=
  ⟨false, 0, .new fun _ => none, 0, none, ⟨fun _ => none, fun _ => none⟩, fun _ => none⟩

section Run

variable (c : SequenceCore σ) (compileInMemory : CompiledSequence → Option CompiledSequence)

/-- A new simulator with a sequence loaded and the pc at its start; `none` when that fails. -/
def loadSequence (seq : CompiledSequence) : Option σ :=
  match if seq.itcmBinary = [] then compileInMemory seq else some seq with
  | none => none
  | some runSeq =>
      let (written, s) := c.writeMemory 0 runSeq.itcmBinary (c.start runRandomSimulationRegions)
      if written = false then none
      else
        let (set, s) := c.writeRegister "pc".toList 0 s
        if set = false then none
        else if c.hasRegister "pc".toList s then some s
        else none

/-- The variables in front of the loop. -/
def SimulationLoop.start (s : σ) : SimulationLoop σ := ⟨s, .new fun _ => none, 0, true, 0⟩

/-- `RunRandomSimulation`. -/
def runRandomSimulation (seq : CompiledSequence) (stepLimit : ℕ) : SimulationResult :=
  match loadSequence c compileInMemory seq with
  | none => .failed
  | some s =>
      let l := c.simulationLoop stepLimit (.start s)
      { success := c.succeeds stepLimit l
        executedSteps := l.executed
        tracker := l.tracker
        cycles := c.getCycleCount l.core
        pc := (c.readRegister "pc".toList l.core).map (BitVec.setWidth 32)
        terminalState := c.terminalState l.core
        memoryDump := runRandomSimulationRegions.foldl (c.dumpRegion l.core) fun _ => none }

end Run

/-! ### Steps up to the first that ends the simulation -/

/-- A call of the trap callback that ends the simulation: an exception, but not one at address
zero. -/
def TrapCall.IsFault (call : TrapCall) : Prop := call.isInterrupt = false ∧ call.epc ≠ 0

instance (call : TrapCall) : Decidable call.IsFault := inferInstanceAs (Decidable (_ ∧ _))

namespace SimulatedStep

/-- The step halts. -/
def Halts (e : SimulatedStep) : Prop := ∃ reason, e.haltReason = some reason ∧ reason ≠ kHaltNone

/-- There is an exception in the step. -/
def Faults (e : SimulatedStep) : Prop := ∃ call ∈ e.answer.traps, call.IsFault

/-- The step ends the simulation. -/
def Ends (e : SimulatedStep) : Prop := e.answer.ok = false ∨ e.Halts ∨ e.Faults

instance (e : SimulatedStep) : Decidable e.Halts :=
  match h : e.haltReason with
  | some reason =>
      decidable_of_iff (reason ≠ kHaltNone) ⟨fun hne => ⟨reason, h, hne⟩, by
        rintro ⟨reason', heq, hne⟩
        rwa [Option.some.inj (h.symm.trans heq)]⟩
  | none => isFalse (by
      rintro ⟨reason, heq, -⟩
      rw [h] at heq
      cases heq)

instance (e : SimulatedStep) : Decidable e.Faults :=
  inferInstanceAs (Decidable (∃ call ∈ e.answer.traps, call.IsFault))

instance (e : SimulatedStep) : Decidable e.Ends := inferInstanceAs (Decidable (_ ∨ _ ∨ _))

end SimulatedStep

namespace SequenceCore

variable (c : SequenceCore σ)

/-- The simulator takes a step. -/
def Steps (s : σ) (e : SimulatedStep) (s' : σ) : Prop := c.stepOnce s = (e, s')

/-- Steps up to the first that ends the simulation, and at most so many. -/
def runSteps : ℕ → σ → List SimulatedStep × σ
  | 0, s => ([], s)
  | n + 1, s =>
      let (e, s) := c.stepOnce s
      if e.Ends then ([e], s)
      else
        let (es, s) := runSteps n s
        (e :: es, s)

/-- They are steps of the simulator. -/
theorem trace_runSteps (n : ℕ) (s : σ) : Trace c.Steps s (c.runSteps n s).1 (c.runSteps n s).2 := by
  induction n generalizing s with
  | zero => exact .nil s
  | succ n ih =>
      have hstep : c.Steps s (c.stepOnce s).1 (c.stepOnce s).2 := rfl
      rw [runSteps]
      dsimp only
      split
      · exact .cons hstep (.nil _)
      · exact .cons hstep (ih _)

/-- Only the last of them ends the simulation, and it does when they are fewer than the limit. -/
theorem runSteps_ends (n : ℕ) (s : σ) :
    (c.runSteps n s).1.length ≤ n ∧ (∀ e ∈ (c.runSteps n s).1.dropLast, ¬ e.Ends) ∧
      ((c.runSteps n s).1.length < n → ∃ e ∈ (c.runSteps n s).1.getLast?, e.Ends) := by
  induction n generalizing s with
  | zero =>
    exact ⟨Nat.le_refl 0,
      fun e hmem => (List.not_mem_nil hmem).elim, fun h => (Nat.not_lt_zero _ h).elim⟩
  | succ n ih =>
      rw [runSteps]
      dsimp only
      split
      · rename_i hends
        exact ⟨Nat.succ_pos n, fun e hmem => (List.not_mem_nil hmem).elim, fun _ => ⟨_, rfl, hends⟩⟩
      · rename_i hgoes
        obtain ⟨hle, hfront, hlast⟩ := ih (c.stepOnce s).2
        dsimp only
        refine ⟨Nat.succ_le_succ hle, fun e hmem => ?_, fun hlt => ?_⟩
        · cases hes : (c.runSteps n (c.stepOnce s).2).1 with
          | nil =>
              rw [hes] at hmem
              cases hmem
          | cons e' es =>
              rw [hes, List.dropLast_cons_cons] at hmem
              rcases List.mem_cons.1 hmem with rfl | hmem
              · exact hgoes
              · exact hfront e (by rwa [hes])
        · obtain ⟨e, hmem, hends⟩ := hlast (Nat.lt_of_succ_lt_succ hlt)
          refine ⟨e, ?_, hends⟩
          rw [Option.mem_def] at hmem ⊢
          rw [List.getLast?_cons, hmem]
          rfl

/-! #### The captured pc -/

theorem captureTrap_foldl_of_ne (traps : List TrapCall) {captured : BitVec 64} (h : captured ≠ 0) :
    traps.foldl captureTrap captured = captured := by
  induction traps with
  | nil => rfl
  | cons call traps ih => rw [List.foldl_cons, captureTrap, if_neg fun hboth => h hboth.2, ih]

/-- The pc is captured exactly when there is an exception. -/
theorem captureTrap_foldl_ne_zero_iff (traps : List TrapCall) :
    traps.foldl captureTrap 0 ≠ 0 ↔ ∃ call ∈ traps, call.IsFault := by
  induction traps with
  | nil =>
      refine iff_of_false (fun h => h rfl) ?_
      rintro ⟨call, hmem, -⟩
      cases hmem
  | cons call traps ih =>
      rw [List.foldl_cons, List.exists_mem_cons_iff]
      by_cases hfault : call.IsFault
      · have hcapture : captureTrap 0 call = call.epc := if_pos ⟨hfault.1, rfl⟩
        rw [hcapture, captureTrap_foldl_of_ne traps hfault.2]
        exact iff_of_true hfault.2 (.inl hfault)
      · have hcapture : captureTrap 0 call = 0 := by
          rw [captureTrap]
          split
          · rename_i hexception
            by_contra hepc
            exact hfault ⟨hexception.1, hepc⟩
          · rfl
        rw [hcapture, ih, or_iff_right hfault]

/-! #### The loop -/

/-- The variables of the loop behind steps. -/
def SimulationLoop.after (l : SimulationLoop σ) (es : List SimulatedStep) (s : σ) :
    SimulationLoop σ where
  core := s
  tracker := onTrace l.tracker (es.map SimulatedStep.routed)
  capturedTrapPc := es.foldl (fun pc e => e.answer.traps.foldl captureTrap pc) l.capturedTrapPc
  runStatus := (es.getLast?.map fun e => e.answer.ok).getD l.runStatus
  executed := l.executed + es.length

theorem after_after (l : SimulationLoop σ) (e : SimulatedStep) (es : List SimulatedStep)
    (s s' : σ) :
    (SimulationLoop.after (SimulationLoop.after l [e] s) es s') =
      SimulationLoop.after l (e :: es) s' := by
  have hstatus : (es.getLast?.map fun e => e.answer.ok).getD e.answer.ok =
      ((e :: es).getLast?.map fun e => e.answer.ok).getD l.runStatus := by
    rw [List.getLast?_cons]
    cases es.getLast? <;> rfl
  have hexecuted : l.executed + 1 + es.length = l.executed + (e :: es).length := by
    rw [List.length_cons]
    omega
  simp only [SimulationLoop.after, List.length_singleton, hexecuted, ← hstatus]
  rfl

/-- The body of the loop is a step. -/
theorem loopBody_eq (l : SimulationLoop σ) :
    c.loopBody l = ((c.stepOnce l.core).1,
      SimulationLoop.after l [(c.stepOnce l.core).1] (c.stepOnce l.core).2) := rfl

/-- The loop does nothing any more once a pc is captured. -/
theorem simulationLoop_of_captured (n : ℕ) {l : SimulationLoop σ} (h : l.capturedTrapPc ≠ 0) :
    c.simulationLoop n l = l := by
  cases n with
  | zero => rfl
  | succ n => rw [simulationLoop, if_pos h]

/-- The loop behind a step that does not end it at once. -/
theorem simulationLoop_succ (n : ℕ) {l : SimulationLoop σ} (h : l.capturedTrapPc = 0) :
    c.simulationLoop (n + 1) l =
      let l' := SimulationLoop.after l [(c.stepOnce l.core).1] (c.stepOnce l.core).2
      if (c.stepOnce l.core).1.answer.ok = false ∨ (c.stepOnce l.core).1.Halts then l'
      else c.simulationLoop n l' := by
  rw [simulationLoop, if_neg (not_not.2 h), loopBody_eq]
  dsimp only
  by_cases hok : (c.stepOnce l.core).1.answer.ok = false
  · rw [if_pos hok, if_pos (.inl hok)]
  · rw [if_neg hok]
    cases hreason : (c.stepOnce l.core).1.haltReason with
    | none =>
        have hgoes : ¬ (c.stepOnce l.core).1.Halts := by
          rintro ⟨reason, heq, -⟩
          rw [hreason] at heq
          cases heq
        rw [if_neg (not_or.2 ⟨hok, hgoes⟩)]
    | some reason =>
        dsimp only
        by_cases hne : reason ≠ kHaltNone
        · rw [if_pos hne, if_pos (.inr ⟨reason, hreason, hne⟩)]
        · have hgoes : ¬ (c.stepOnce l.core).1.Halts := by
            rintro ⟨reason', heq, hne'⟩
            rw [hreason] at heq
            cases heq
            exact hne hne'
          rw [if_neg hne, if_neg (not_or.2 ⟨hok, hgoes⟩)]

/-- **The loop takes the steps up to the first that ends it**, and no more: an exception is found in
front of the next step. -/
theorem simulationLoop_eq (n : ℕ) {l : SimulationLoop σ} (h : l.capturedTrapPc = 0) :
    c.simulationLoop n l = SimulationLoop.after l (c.runSteps n l.core).1
      (c.runSteps n l.core).2 := by
  induction n generalizing l with
  | zero => rfl
  | succ n ih =>
      have hcaptured :
          (SimulationLoop.after l [(c.stepOnce l.core).1] (c.stepOnce l.core).2).capturedTrapPc ≠
            0 ↔
          (c.stepOnce l.core).1.Faults := by
        simp only [SimulationLoop.after, List.foldl_cons, List.foldl_nil, h]
        exact captureTrap_foldl_ne_zero_iff _
      rw [c.simulationLoop_succ n h, runSteps]
      dsimp only
      by_cases hstops : (c.stepOnce l.core).1.answer.ok = false ∨ (c.stepOnce l.core).1.Halts
      · rw [if_pos hstops, if_pos (hstops.elim .inl fun hhalts => .inr (.inl hhalts))]
      · rw [if_neg hstops]
        by_cases hfaults : (c.stepOnce l.core).1.Faults
        · rw [if_pos (.inr (.inr hfaults)), c.simulationLoop_of_captured n (hcaptured.2 hfaults)]
        · have hgoes : ¬ (c.stepOnce l.core).1.Ends := by
            rintro (hok | hhalts | hfault)
            · exact hstops (.inl hok)
            · exact hstops (.inr hhalts)
            · exact hfaults hfault
          rw [if_neg hgoes, ih (not_not.1 fun hne => hfaults (hcaptured.1 hne)), after_after]
          rfl

/-- What the last step says of the halt reason is what is left of it. -/
theorem haltReason_of_trace {s s' : σ} {es : List SimulatedStep} (h : Trace c.Steps s es s') :
    ∀ e ∈ es.getLast?, e.haltReason = c.getLastHaltReason s' := by
  refine h.history (I := fun past s => ∀ e ∈ past.getLast?, e.haltReason = c.getLastHaltReason s)
    (fun past s e s' _ hstep => ?_) (fun e hmem => ?_)
  · intro e' hmem
    rw [List.getLast?_concat, Option.mem_some_iff] at hmem
    cases hstep
    rw [← hmem]
  · rw [List.getLast?_nil] at hmem
    cases hmem

/-! #### The recorded registers -/

theorem recordEntry_foldl {α : Type} (read : Text → Option α) (names : List Text)
    (entries : Text → Option α) (name : Text) :
    names.foldl (recordEntry read) entries name =
      if name ∈ names then (read name).or (entries name) else entries name := by
  induction names generalizing entries with
  | nil => rw [List.foldl_nil, if_neg List.not_mem_nil]
  | cons name' names ih =>
      rw [List.foldl_cons, ih]
      have hentry : recordEntry read entries name' name =
          if name = name' then (read name').or (entries name) else entries name := by
        rw [recordEntry]
        cases hread : read name' with
        | none =>
            dsimp only
            rw [Option.none_or, ite_self]
        | some value =>
            dsimp only
            rw [Function.update_apply, Option.some_or]
      by_cases heq : name = name'
      · subst heq
        rw [hentry, if_pos rfl, if_pos List.mem_cons_self]
        split
        · cases read name <;> rfl
        · rfl
      · rw [hentry, if_neg heq]
        simp only [List.mem_cons, heq, false_or]

/-- **The terminal state has the registers that can be read**, of those that are recorded. -/
theorem registers_terminalState (s : σ) (name : Text) :
    (c.terminalState s).registers name =
      if name ∈ recordedRegisters then (c.readRegister name s).map (BitVec.setWidth 32)
        else none := by
  refine (recordEntry_foldl _ _ _ name).trans ?_
  rw [Option.or_none]

theorem vectorRegisters_terminalState (s : σ) (name : Text) :
    (c.terminalState s).vectorRegisters name =
      if name ∈ recordedVectorRegisters then c.getRegisterDataBuffer name s else none := by
  refine (recordEntry_foldl _ _ _ name).trans ?_
  rw [Option.or_none]

/-! #### Success -/

/-- When a simulation was a success. -/
theorem succeeds_iff (stepLimit : ℕ) (l : SimulationLoop σ) :
    c.succeeds stepLimit l = true ↔ l.runStatus = true ∧
      ¬ (l.executed ≥ stepLimit ∧ c.getLastHaltReason l.core = some kHaltNone) ∧
        ∃ pc, c.readRegister "pc".toList l.core = some pc ∧
          (c.isMpause pc l.core = true ∨ 4 ≤ pc ∧ c.isMpause (pc - 4) l.core = true) := by
  rw [succeeds]
  by_cases hstatus : l.runStatus = false
  · rw [if_pos hstatus, hstatus]
    exact iff_of_false Bool.false_ne_true fun h => Bool.false_ne_true h.1
  · rw [if_neg hstatus, and_iff_right (eq_true_of_ne_false hstatus)]
    by_cases htimeout : l.executed ≥ stepLimit ∧ c.getLastHaltReason l.core = some kHaltNone
    · rw [if_pos htimeout]
      exact iff_of_false Bool.false_ne_true fun h => h.1 htimeout
    · rw [if_neg htimeout, and_iff_right htimeout]
      cases c.readRegister "pc".toList l.core with
      | none =>
          refine iff_of_false Bool.false_ne_true ?_
          rintro ⟨pc, hpc, -⟩
          cases hpc
      | some pc =>
          simp only [Option.some.injEq, exists_eq_left', Bool.or_eq_true, Bool.and_eq_true,
            decide_eq_true_eq, ge_iff_le]

end SequenceCore

/-! ### What a result says -/

/-- The instructions of steps. -/
def instructionsOf (es : List SimulatedStep) : List TracedInstruction :=
  (es.map SimulatedStep.routed).reduceOption

section Run

variable (c : SequenceCore σ) (compileInMemory : CompiledSequence → Option CompiledSequence)

/-- The loop of a sequence that is loaded. -/
theorem simulationLoop_start (s : σ) (stepLimit : ℕ) :
    c.simulationLoop stepLimit (.start s) =
      { core := (c.runSteps stepLimit s).2
        tracker :=
          onTrace (.new fun _ => none) ((c.runSteps stepLimit s).1.map SimulatedStep.routed)
        capturedTrapPc :=
          (c.runSteps stepLimit s).1.foldl (fun pc e => e.answer.traps.foldl captureTrap pc) 0
        runStatus := ((c.runSteps stepLimit s).1.getLast?.map fun e => e.answer.ok).getD true
        executed := (c.runSteps stepLimit s).1.length } := by
  rw [c.simulationLoop_eq stepLimit rfl, SequenceCore.SimulationLoop.after]
  simp only [SimulationLoop.start, Nat.zero_add]

/-- **What a result says of the steps that were taken.**  They are steps of the simulator, only the
last one ends the simulation, and it does unless the limit is reached; the result has their number,
the registers that they leave, and the hazards of their instructions. -/
theorem runRandomSimulation_steps {seq : CompiledSequence} {s : σ}
    (hload : loadSequence c compileInMemory seq = some s) (stepLimit : ℕ) :
    let (es, s') := c.runSteps stepLimit s
    let result := runRandomSimulation c compileInMemory seq stepLimit
    Trace c.Steps s es s' ∧ es.length ≤ stepLimit ∧ (∀ e ∈ es.dropLast, ¬ e.Ends) ∧
      (es.length < stepLimit → ∃ e ∈ es.getLast?, e.Ends) ∧ result.executedSteps = es.length ∧
      (∀ name, result.terminalState.registers name =
        if name ∈ SequenceCore.recordedRegisters then
          (c.readRegister name s').map (BitVec.setWidth 32)
        else none) ∧
      (∀ name, result.terminalState.vectorRegisters name =
        if name ∈ SequenceCore.recordedVectorRegisters then c.getRegisterDataBuffer name s'
        else none) ∧
      ((∀ inst ∈ instructionsOf es, ReadAsNamed inst) → ∀ d ∈ [1, 2, 3],
        result.tracker.coverageSummary (hazardName d) = rawHazards d (instructionsOf es)) := by
  obtain ⟨hle, hfront, hlast⟩ := c.runSteps_ends stepLimit s
  have htrace := c.trace_runSteps stepLimit s
  rw [runRandomSimulation, hload]
  dsimp only
  rw [simulationLoop_start]
  refine ⟨htrace, hle, hfront, hlast, rfl, fun name => c.registers_terminalState _ name,
    fun name => c.vectorRegisters_terminalState _ name, fun hnamed d hd => ?_⟩
  have hrange : 0 < d ∧ d ≤ 3 := by
    simp only [List.mem_cons, List.not_mem_nil, or_false] at hd
    omega
  exact (tracks_onTrace (fun _ => none) _ hnamed).hazards d hrange.1 hrange.2

theorem mem_dropLast_or_getLast? {α : Type} {xs : List α} {x : α} (h : x ∈ xs) :
    x ∈ xs.dropLast ∨ x ∈ xs.getLast? := by
  have hne := List.ne_nil_of_mem h
  rw [← List.dropLast_append_getLast hne, List.mem_append, List.mem_singleton] at h
  exact h.imp_right fun heq => by rw [heq, List.getLast?_eq_some_getLast hne, Option.mem_some_iff]

/-- **What a success says of the steps that were taken**: all of them were done, the simulator is
halted or the last of them has an exception, and the final pc is that of an `mpause` or just behind
one. -/
theorem runRandomSimulation_success {seq : CompiledSequence} {stepLimit : ℕ}
    (h : (runRandomSimulation c compileInMemory seq stepLimit).success = true) :
    ∃ s, loadSequence c compileInMemory seq = some s ∧
      let (es, s') := c.runSteps stepLimit s
      (∀ e ∈ es, e.answer.ok = true) ∧
        (c.getLastHaltReason s' ≠ some kHaltNone ∨ ∃ e ∈ es.getLast?, e.Faults) ∧
        ∃ pc, c.readRegister "pc".toList s' = some pc ∧
          (c.isMpause pc s' = true ∨ 4 ≤ pc ∧ c.isMpause (pc - 4) s' = true) := by
  rw [runRandomSimulation] at h
  cases hload : loadSequence c compileInMemory seq with
  | none =>
      rw [hload] at h
      cases h
  | some s =>
      rw [hload] at h
      dsimp only at h
      rw [simulationLoop_start, c.succeeds_iff] at h
      obtain ⟨hstatus, htimeout, hpause⟩ := h
      obtain ⟨-, hfront, hlast⟩ := c.runSteps_ends stepLimit s
      have hreason := c.haltReason_of_trace (c.trace_runSteps stepLimit s)
      have hdone : ∀ e ∈ (c.runSteps stepLimit s).1.getLast?, e.answer.ok = true := by
        intro e hmem
        rw [Option.mem_def] at hmem
        rwa [hmem] at hstatus
      refine ⟨s, rfl, fun e hmem => ?_, ?_, hpause⟩
      · -- a step in front of the last does not end the simulation
        rcases mem_dropLast_or_getLast? hmem with hmem | hmem
        · exact eq_true_of_ne_false fun hnot => hfront e hmem (.inl hnot)
        · exact hdone e hmem
      · by_cases hlimit : (c.runSteps stepLimit s).1.length < stepLimit
        · obtain ⟨e, hmem, hok | hhalts | hfaults⟩ := hlast hlimit
          · rw [hdone e hmem] at hok
            cases hok
          · obtain ⟨reason, heq, hne⟩ := hhalts
            refine .inl ?_
            rw [← hreason e hmem, heq]
            exact fun h => hne (Option.some.inj h)
          · exact .inr ⟨e, hmem, hfaults⟩
        · exact .inl fun h => htimeout ⟨Nat.le_of_not_lt hlimit, h⟩

/-- The steps that a sequence is simulated for. -/
def simulatedSteps (seq : CompiledSequence) (stepLimit : ℕ) : List SimulatedStep :=
  match loadSequence c compileInMemory seq with
  | none => []
  | some s => (c.runSteps stepLimit s).1

theorem tracker_runRandomSimulation (seq : CompiledSequence) (stepLimit : ℕ) :
    (runRandomSimulation c compileInMemory seq stepLimit).tracker =
      onTrace (.new fun _ => none)
        ((simulatedSteps c compileInMemory seq stepLimit).map SimulatedStep.routed) := by
  rw [runRandomSimulation, simulatedSteps]
  cases loadSequence c compileInMemory seq with
  | none => rfl
  | some s =>
      dsimp only
      rw [simulationLoop_start]

end Run

/-! ### Evolutions -/

/-- A result as the orchestrator gets it, with the coverage listed in some order. -/
structure SimulationResult.Reports (r : SimulationResult) (result : RandomSimulatorResult) :
    Prop where
  success : result.success = r.success
  coverageSummary : ListsCounts r.tracker result.coverageSummary
  cycles : result.cycles = r.cycles.toNat
  terminalState : result.terminalState = r.terminalState
  memoryDump : result.memoryDump = r.memoryDump

/-- A name is active in a report exactly when the tracker counts it. -/
theorem SimulationResult.Reports.isActive_iff {r : SimulationResult}
    {result : RandomSimulatorResult} (h : r.Reports result) (name : Text) :
    result.coverageSummary.IsActive name ↔ 0 < r.tracker.coverageSummary name := by
  constructor
  · rintro ⟨count, hmem, hpos⟩
    rwa [((h.coverageSummary name count).1 hmem).1]
  · intro hpos
    exact ⟨_, (h.coverageSummary name _).2 ⟨rfl, hpos⟩, hpos⟩

section Evolution

variable (c : SequenceCore σ) (compileInMemory : CompiledSequence → Option CompiledSequence)
    (stepLimit : ℕ)
  {parts : EvolutionParts}

/-- **What the global coverage of an evolution says of all sequences that were simulated**: it has
the hazard of a distance exactly when the instructions that some sequence was simulated for have
one. -/
theorem globalCoverage_of_simulated {seed : BitVec 64} {iterations : List Iteration}
    {o : Orchestrator parts} (h : Trace EvolveStep (.start parts seed) iterations o)
    (simulated : Iteration → CompiledSequence) (hreports : ∀ i ∈ iterations,
      (runRandomSimulation c compileInMemory (simulated i) stepLimit).Reports i.result)
    (hnamed : ∀ i ∈ iterations,
      ∀ inst ∈ instructionsOf (simulatedSteps c compileInMemory (simulated i) stepLimit),
      ReadAsNamed inst)
    {d : ℕ} (hd : d ∈ [1, 2, 3]) :
    let hazards (i : Iteration) :=
      rawHazards d (instructionsOf (simulatedSteps c compileInMemory (simulated i) stepLimit))
    (o.globalCoverage (hazardName d) = some 1 ↔ ∃ i ∈ iterations, 0 < hazards i) ∧
      (o.globalCoverage (hazardName d) = none ↔ ∀ i ∈ iterations, hazards i = 0) := by
  intro hazards
  have hrange : 0 < d ∧ d ≤ 3 := by
    simp only [List.mem_cons, List.not_mem_nil, or_false] at hd
    omega
  have hactive (i : Iteration) (hi : i ∈ iterations) :
      i.result.coverageSummary.IsActive (hazardName d) ↔ 0 < hazards i := by
    rw [(hreports i hi).isActive_iff, tracker_runRandomSimulation,
      (tracks_onTrace (fun _ => none) _ (hnamed i hi)).hazards d hrange.1 hrange.2]
    rfl
  have hcovers := covers_of_evolution h
  by_cases hsome : ∃ i ∈ iterations, 0 < hazards i
  · obtain ⟨i, hi, hpos⟩ := hsome
    have hname : hazardName d ≠ [] := hazardName_ne (by decide) d
    have hone := hcovers.covered _ hname ⟨i, hi, (hactive i hi).2 hpos⟩
    rw [hone]
    refine ⟨iff_of_true rfl ⟨i, hi, hpos⟩, iff_of_false (Option.some_ne_none 1) fun hall => ?_⟩
    rw [hall i hi] at hpos
    cases hpos
  · have hnone : o.globalCoverage (hazardName d) = none := by
      refine hcovers.others _ ?_
      rintro ⟨i, hi, hcounts⟩
      exact hsome ⟨i, hi, (hactive i hi).1 hcounts⟩
    rw [hnone]
    refine ⟨iff_of_false (Option.some_ne_none 1).symm hsome, iff_of_true rfl fun i hi => ?_⟩
    by_contra hne
    exact hsome ⟨i, hi, Nat.pos_of_ne_zero hne⟩

end Evolution

/-! ### A simulation of two instructions -/

/-- A simulator of the two vector instructions and an `mpause` between them that halts behind the
last. -/
def vectorCore : SequenceCore ℕ where
  start _ := 0
  writeMemory _ _ s := (true, s)
  writeRegister _ _ s := (true, s)
  hasRegister _ _ := true
  pc s := BitVec.ofNat 32 (4 * s)
  getInstruction _ s := ((vectorTrace[s]?).join, s)
  step s := (⟨true, []⟩, s + 1)
  getLastHaltReason s := some (if s = 3 then 1 else kHaltNone)
  getCycleCount s := BitVec.ofNat 64 s
  readRegister name s := if name = "pc".toList then some (BitVec.ofNat 64 (4 * s)) else none
  getRegisterDataBuffer _ _ := none
  readMemory _ _ _ := none
  decodeInstruction address _ := if address = 8 then some "mpause".toList else none

theorem loadSequence_vectorCore : loadSequence vectorCore some oneWord = some 0 := by
  have hbinary : oneWord.itcmBinary ≠ [] :=
    List.ne_nil_of_length_pos (by rw [length_oneWord]; decide)
  rw [loadSequence, if_neg hbinary]
  rfl

/-- Three steps are taken, and there is a hazard of distance one. -/
theorem runRandomSimulation_steps_vectorCore :
    let result := runRandomSimulation vectorCore some oneWord 10
    result.executedSteps = 3 ∧ result.tracker.coverageSummary (hazardName 1) = 1 := by
  obtain ⟨-, -, -, -, hexecuted, -, -, hhazards⟩ :=
    runRandomSimulation_steps vectorCore some loadSequence_vectorCore 10
  exact ⟨hexecuted, hhazards readAsNamed_vectorTrace 1 (by decide)⟩

theorem success_vectorCore : (runRandomSimulation vectorCore some oneWord 10).success = true := by
  rw [runRandomSimulation, loadSequence_vectorCore]
  decide +kernel

/-- All steps of a success were done. -/
theorem runRandomSimulation_success_vectorCore :
    ∃ s, loadSequence vectorCore some oneWord = some s ∧
      ∀ e ∈ (vectorCore.runSteps 10 s).1, e.answer.ok = true := by
  have hsuccess := success_vectorCore
  obtain ⟨s, hload, hok, -⟩ := runRandomSimulation_success vectorCore some hsuccess
  exact ⟨s, hload, hok⟩

/-- The result as the orchestrator gets it. -/
def vectorResult : RandomSimulatorResult where
  success := true
  coverageSummary := vectorSummary
  cycles := 3
  terminalState := (runRandomSimulation vectorCore some oneWord 10).terminalState
  memoryDump := (runRandomSimulation vectorCore some oneWord 10).memoryDump

theorem steps_vectorCore : (vectorCore.runSteps 10 0).1.map SimulatedStep.routed = vectorTrace :=
  rfl

theorem reports_vectorResult :
    (runRandomSimulation vectorCore some oneWord 10).Reports vectorResult where
  success := success_vectorCore.symm
  coverageSummary := by
    rw [tracker_runRandomSimulation, simulatedSteps, loadSequence_vectorCore]
    dsimp only
    rw [steps_vectorCore]
    exact listsCounts_vectorSummary
  cycles := by
    rw [runRandomSimulation, loadSequence_vectorCore]
    rfl
  terminalState := rfl
  memoryDump := rfl

/-- The hazard of the two instructions is in the global coverage. -/
theorem globalCoverage_of_simulated_vectorCore :
    ∃ i o, Trace EvolveStep (.start oneWordParts 1) [i] o ∧ o.globalCoverage (hazardName 1) =
      some 1 := by
  obtain ⟨i, o, hstep, hresult⟩ := exists_firstStep vectorResult
  have htrace := Trace.cons hstep (.nil o)
  have hreports : ∀ i' ∈ [i],
      (runRandomSimulation vectorCore some oneWord 10).Reports i'.result := by
    intro i' hmem
    rw [List.mem_singleton.1 hmem, hresult]
    exact reports_vectorResult
  have hinstructions : instructionsOf (simulatedSteps vectorCore some oneWord 10) =
      vectorTrace.reduceOption := by
    rw [simulatedSteps, loadSequence_vectorCore, instructionsOf]
    dsimp only
    rw [steps_vectorCore]
  have hglobal := globalCoverage_of_simulated vectorCore some 10 htrace (fun _ => oneWord) hreports
    (fun _ _ => hinstructions ▸ readAsNamed_vectorTrace) (show 1 ∈ [1, 2, 3] by decide)
  have hone : 0 < rawHazards 1 vectorTrace.reduceOption := by decide
  refine ⟨i, o, htrace, hglobal.1.2 ⟨i, List.mem_cons_self, ?_⟩⟩
  rw [hinstructions]
  exact hone

end CoralNpu
