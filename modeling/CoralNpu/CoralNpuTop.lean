/-
**The top of the simulator: stepping, running, breakpoints.**

The top executes instructions one by one and talks to a debugger.  Instructions ask it to halt from
inside their execution; a planted breakpoint does so through the handler of `ebreak`.  When a halt
was due to a breakpoint, the next resume first steps past it: the planted word is taken away, the
instruction under it is executed, and the `ebreak` is planted again.

The instructions themselves, the decode cache and semihosting are parameters.  The breakpoints are
the only action points.  What an instruction asked for is recorded with the states around it, for
the proofs only.

Main definitions:

* `CoralNpu.DecodeCache`, `CoralNpu.InstructionSet` — the parameters;
* `CoralNpu.CoralNpuTop` — the state;
* `CoralNpu.CoralNpuTop.executeAt` — fetching, executing and counting an instruction;
* `CoralNpu.CoralNpuTop.stepPastBreakpoint`, `CoralNpu.CoralNpuTop.step`,
  `CoralNpu.CoralNpuTop.run` — `StepPastBreakpoint`, `Step` and `Run`;
* `CoralNpu.TopCommand`, `CoralNpu.CoralNpuTop.perform` — the commands of a debugger.

Main results:

* `CoralNpu.CoralNpuTop.executeAt_eq` — all that executing an instruction does to the top;
* `CoralNpu.CoralNpuTop.onEvent_eq` — the callbacks change the core and request a halt.
-/

import CoralNpu.ActionPointMemory

set_option relaxedAutoImplicit false
set_option autoImplicit false

namespace CoralNpu

open AsciiText WordMemory
open CodeImage (Word)

/-! ### The parameters -/

/-- A decoded instruction: a word and the address it is decoded at. -/
structure DecodedInstruction where
  address : Address
  word : Word
  deriving DecidableEq

/-- A cache of decoded instructions.  It may forget, but it gives back only what was put in at the
address and not invalidated since. -/
structure DecodeCache where
  State : Type
  empty : State
  lookup : State → Address → Option Word
  insert : State → Address → Word → State
  invalidate : Address → State → State
  lookup_empty : ∀ a, lookup empty a = none
  lookup_insert : ∀ {s a word b word'}, lookup (insert s a word) b = some word' →
    b = a ∧ word' = word ∨ lookup s b = some word'
  lookup_invalidate : ∀ {s a b word}, lookup (invalidate a s) b = some word →
    b ≠ a ∧ lookup s b = some word

/-- What an instruction sees and changes: the memory, the pc operand, the two counters behind
`minstret` and `mcycle`, and all other registers. -/
structure CoreState (ρ : Type) where
  registers : ρ
  memory : Memory
  pc : BitVec 32
  numInstructions : BitVec 64
  numCycles : BitVec 64

/-- The calls an instruction makes while it executes. -/
inductive CoreEvent where
  | ebreak
  | mpause
  | trap (exceptionCode : ℕ)
  deriving DecidableEq

/-- The instructions. -/
structure InstructionSet (ρ : Type) where
  size : DecodedInstruction → BitVec 64
  opcode : DecodedInstruction → ℕ
  /-- the attempts that find a resource taken -/
  stalls : DecodedInstruction → CoreState ρ → ℕ
  execute : DecodedInstruction → CoreState ρ → CoreState ρ × Option CoreEvent
  advanceDelayLines : CoreState ρ → CoreState ρ
  /-- what a semihosting call does, and whether it exits; `none` when semihosting is off or the
  instruction is no such call -/
  semihosting : DecodedInstruction → CoreState ρ → Option (CoreState ρ × Bool)

/-! ### The state -/

/-- `HaltReason`, with `kHaltAbort`. -/
inductive HaltReason where
  | none
  | softwareBreakpoint
  | actionPoint
  | userRequest
  | semihostHaltRequest
  | simulatorError
  | haltAbort
  deriving DecidableEq, Repr

/-- `RunStatus`. -/
inductive RunStatus where
  | halted
  | running
  | singleStep
  deriving DecidableEq, Repr

/-- The status of a call. -/
inductive TopStatus where
  | ok
  | invalidArgument (message : Text)
  | failedPrecondition (message : Text)
  | alreadyExists
  | notFound
  deriving DecidableEq

/-- An instruction executed, with the core before and after it and the halt it requested. -/
structure Executed (ρ : Type) where
  instruction : DecodedInstruction
  before : CoreState ρ
  after : CoreState ρ
  request : Option HaltReason

/-- `CoralNPUTop`.  The instructions executed are for the proofs only. -/
structure CoralNpuTop (ρ : Type) (C : DecodeCache) where
  registers : ρ
  pc : BitVec 32
  numInstructions : BitVec 64
  numCycles : BitVec 64
  counterOpcode : ℕ → BitVec 64
  /-- the memory, with the decode cache that is told of changes -/
  code : ActionPointMemory C.State
  breakpoints : List Address
  runStatus : RunStatus
  haltReason : HaltReason
  halted : Bool
  needToStepOver : Bool
  executed : List (Executed ρ)

namespace CoralNpuTop

variable {ρ : Type} {C : DecodeCache}

/-- A new top. -/
def start (registers : ρ) (memory : Memory) (pc : BitVec 32) : CoralNpuTop ρ C where
  registers := registers
  pc := pc
  numInstructions := 0
  numCycles := 0
  counterOpcode := fun _ => 0
  code := ⟨memory, fun _ => none, C.empty⟩
  breakpoints := []
  runStatus := .halted
  haltReason := .none
  halted := false
  needToStepOver := false
  executed := []

/-- What an instruction sees. -/
def core (s : CoralNpuTop ρ C) : CoreState ρ :=
  ⟨s.registers, s.code.memory, s.pc, s.numInstructions, s.numCycles⟩

/-- The top with another core. -/
def setCore (c : CoreState ρ) (s : CoralNpuTop ρ C) : CoralNpuTop ρ C :=
  { s with
    registers := c.registers
    code := { s.code with memory := c.memory }
    pc := c.pc
    numInstructions := c.numInstructions
    numCycles := c.numCycles }

/-- The pc operand as an address. -/
def pcAddress (s : CoralNpuTop ρ C) : Address := s.pc.setWidth 64

/-- `SetPc`. -/
def setPc (value : Address) (s : CoralNpuTop ρ C) : CoralNpuTop ρ C :=
  { s with pc := value.setWidth 32 }

/-! ### Halting -/

/-- `RequestHalt`. -/
def requestHalt (reason : HaltReason) (s : CoralNpuTop ρ C) : CoralNpuTop ρ C :=
  let s := { s with haltReason := reason, halted := true }
  if s.haltReason = .softwareBreakpoint ∨ s.haltReason = .actionPoint then
    { s with needToStepOver := true }
  else s

/-- `IsActionPointActive`. -/
def isActionPointActive (address : Address) (s : CoralNpuTop ρ C) : Bool :=
  s.breakpoints.contains address

/-- `PerformActions`, with the breakpoint callback as the action. -/
def performActions (s : CoralNpuTop ρ C) : CoralNpuTop ρ C := s.requestHalt .softwareBreakpoint

/-- The handler of `ebreak`. -/
def onEbreak (isa : InstructionSet ρ) (inst : DecodedInstruction) (s : CoralNpuTop ρ C) :
    CoralNpuTop ρ C :=
  match isa.semihosting inst s.core with
  | some (core, exits) =>
      let s := s.setCore core
      if exits then s.requestHalt .semihostHaltRequest else s
  | none =>
      if s.isActionPointActive inst.address then
        -- a possible software breakpoint
        (s.requestHalt .actionPoint).performActions
      else s.requestHalt .haltAbort

/-- The exception codes of illegal instructions and of load and store access faults. -/
def haltingTraps : List ℕ := [2, 5, 7]

/-- The trap callback. -/
def onTrap (exceptionCode : ℕ) (s : CoralNpuTop ρ C) : CoralNpuTop ρ C :=
  if exceptionCode ∈ haltingTraps then s.requestHalt .userRequest else s

/-- The callbacks an instruction runs into. -/
def onEvent (isa : InstructionSet ρ) (inst : DecodedInstruction) (s : CoralNpuTop ρ C) :
    Option CoreEvent → CoralNpuTop ρ C
  | none => s
  | some .ebreak => s.onEbreak isa inst
  | some .mpause => s.requestHalt .userRequest
  | some (.trap exceptionCode) => s.onTrap exceptionCode

/-! ### Executing -/

/-- One attempt counted: the cycle counter and the delay lines. -/
def tick (isa : InstructionSet ρ) (c : CoreState ρ) : CoreState ρ :=
  isa.advanceDelayLines { c with numCycles := c.numCycles + 1 }

/-- The attempts that find a resource taken. -/
def stalled (isa : InstructionSet ρ) : ℕ → CoreState ρ → CoreState ρ
  | 0, c => c
  | n + 1, c => stalled isa n (tick isa c)

/-- The loop that attempts an instruction until it is executed. -/
def executeInstruction (isa : InstructionSet ρ) (inst : DecodedInstruction)
    (s : CoralNpuTop ρ C) : CoralNpuTop ρ C :=
  let c := stalled isa (isa.stalls inst s.core) s.core
  let (c, event) := isa.execute inst c
  let s := (s.setCore c).onEvent isa inst event
  s.setCore (tick isa s.core)

/-- `GetDecodedInstruction`. -/
def getDecodedInstruction (address : Address) (s : CoralNpuTop ρ C) :
    DecodedInstruction × CoralNpuTop ρ C :=
  match C.lookup s.code.client address with
  | some word => (⟨address, word⟩, s)
  | none =>
      let word := loadWord s.code.memory address
      (⟨address, word⟩,
        { s with code := { s.code with client := C.insert s.code.client address word } })

/-- The counters of an executed instruction. -/
def count (isa : InstructionSet ρ) (inst : DecodedInstruction) (s : CoralNpuTop ρ C) :
    CoralNpuTop ρ C :=
  { s with
    counterOpcode := Function.update s.counterOpcode (isa.opcode inst)
      (s.counterOpcode (isa.opcode inst) + 1)
    numInstructions := s.numInstructions + 1 }

/-- The halt the callbacks request for a call, on what the instruction left. -/
def eventRequest (isa : InstructionSet ρ) (inst : DecodedInstruction) (breakpoints : List Address)
    (c : CoreState ρ) : Option CoreEvent → Option HaltReason
  | none => none
  | some .ebreak =>
      match isa.semihosting inst c with
      | some (_, exits) => if exits then some .semihostHaltRequest else none
      | none =>
          if breakpoints.contains inst.address then some .softwareBreakpoint else some .haltAbort
  | some .mpause => some .userRequest
  | some (.trap exceptionCode) => if exceptionCode ∈ haltingTraps then some .userRequest else none

/-- The halt an instruction requests. -/
def requestOf (isa : InstructionSet ρ) (inst : DecodedInstruction) (s : CoralNpuTop ρ C) :
    Option HaltReason :=
  let (c, event) := isa.execute inst (stalled isa (isa.stalls inst s.core) s.core)
  eventRequest isa inst s.breakpoints c event

/-- The instruction at an address fetched, executed and counted. -/
def executeAt (isa : InstructionSet ρ) (address : Address) (s : CoralNpuTop ρ C) :
    CoralNpuTop ρ C :=
  let (inst, s) := s.getDecodedInstruction address
  let ready := s.setPc (address + isa.size inst)
  let s := (ready.executeInstruction isa inst).count isa inst
  { s with executed := s.executed ++ [⟨inst, ready.core, s.core, ready.requestOf isa inst⟩] }

/-- `StepPastBreakpoint`. -/
def stepPastBreakpoint (isa : InstructionSet ρ) (s : CoralNpuTop ρ C) : CoralNpuTop ρ C :=
  let pc := s.pcAddress
  -- the status shows an error if there is no breakpoint; it is not looked at
  let s := { s with code := (writeOriginalInstruction C.invalidate pc s.code).2 }
  let s := s.executeAt isa pc
  { s with code := (writeBreakpointInstruction C.invalidate pc s.code).2 }

/-! ### What executing does to the top -/

/-- The core after the callbacks for a call. -/
def eventCore (isa : InstructionSet ρ) (inst : DecodedInstruction) (c : CoreState ρ) :
    Option CoreEvent → CoreState ρ
  | some .ebreak => ((isa.semihosting inst c).map Prod.fst).getD c
  | _ => c

/-- The core after an instruction. -/
def coreAfter (isa : InstructionSet ρ) (inst : DecodedInstruction) (c : CoreState ρ) :
    CoreState ρ :=
  let (c, event) := isa.execute inst (stalled isa (isa.stalls inst c) c)
  tick isa (eventCore isa inst c event)

/-- The top with a halt requested, or not. -/
def requested (request : Option HaltReason) (s : CoralNpuTop ρ C) : CoralNpuTop ρ C :=
  { s with
    haltReason := request.getD s.haltReason
    halted := s.halted || request.isSome
    needToStepOver := s.needToStepOver || request == some .softwareBreakpoint }

/-- The reasons an instruction can give. -/
theorem eventRequest_eq_some {isa : InstructionSet ρ} {inst : DecodedInstruction}
    {breakpoints : List Address} {c : CoreState ρ} {event : Option CoreEvent}
    {reason : HaltReason} (h : eventRequest isa inst breakpoints c event = some reason) :
    reason ≠ .none ∧ reason ≠ .actionPoint := by
  unfold eventRequest at h
  split at h
  · cases h
  · split at h
    · split at h
      · cases h
        exact ⟨nofun, nofun⟩
      · cases h
    · split at h <;>
      · cases h
        exact ⟨nofun, nofun⟩
  · cases h
    exact ⟨nofun, nofun⟩
  · split at h
    · cases h
      exact ⟨nofun, nofun⟩
    · cases h

@[simp] theorem setCore_core (s : CoralNpuTop ρ C) : s.setCore s.core = s := rfl

theorem requested_none (s : CoralNpuTop ρ C) : s.requested none = s := by
  simp [requested]

theorem requestHalt_of_ne (reason : HaltReason) (h : reason ≠ .softwareBreakpoint)
    (h' : reason ≠ .actionPoint) (s : CoralNpuTop ρ C) :
    s.requestHalt reason = s.requested (some reason) := by
  simp [requestHalt, requested, h, h']

theorem performActions_requestHalt (s : CoralNpuTop ρ C) :
    (s.requestHalt .actionPoint).performActions = s.requested (some .softwareBreakpoint) := by
  simp [requestHalt, performActions, requested]

theorem onEbreak_eq (isa : InstructionSet ρ) (inst : DecodedInstruction) (s : CoralNpuTop ρ C) :
    s.onEbreak isa inst = (s.setCore (eventCore isa inst s.core (some .ebreak))).requested
      (eventRequest isa inst s.breakpoints s.core (some .ebreak)) := by
  cases h : isa.semihosting inst s.core with
  | none =>
      simp only [onEbreak, eventCore, eventRequest, h, Option.map_none, Option.getD_none,
        setCore_core]
      by_cases hactive : s.isActionPointActive inst.address = true
      · have hmem : s.breakpoints.contains inst.address = true := hactive
        rw [if_pos hactive, if_pos hmem, performActions_requestHalt]
      · have hmem : ¬ s.breakpoints.contains inst.address = true := hactive
        rw [if_neg hactive, if_neg hmem, requestHalt_of_ne .haltAbort nofun nofun]
  | some result =>
      obtain ⟨c, exits⟩ := result
      simp only [onEbreak, eventCore, eventRequest, h, Option.map_some, Option.getD_some]
      cases exits with
      | false => exact (requested_none _).symm
      | true => exact requestHalt_of_ne .semihostHaltRequest nofun nofun _

/-- The callbacks change the core and request a halt, and do nothing else. -/
theorem onEvent_eq (isa : InstructionSet ρ) (inst : DecodedInstruction) (s : CoralNpuTop ρ C)
    (event : Option CoreEvent) :
    s.onEvent isa inst event = (s.setCore (eventCore isa inst s.core event)).requested
      (eventRequest isa inst s.breakpoints s.core event) := by
  cases event with
  | none => exact (requested_none s).symm
  | some event =>
      cases event with
      | ebreak => exact onEbreak_eq isa inst s
      | mpause => exact requestHalt_of_ne .userRequest nofun nofun s
      | trap exceptionCode =>
          simp only [onEvent, onTrap, eventRequest, eventCore, setCore_core]
          split
          · exact requestHalt_of_ne .userRequest nofun nofun s
          · exact (requested_none s).symm

theorem executeInstruction_eq (isa : InstructionSet ρ) (inst : DecodedInstruction)
    (s : CoralNpuTop ρ C) :
    s.executeInstruction isa inst =
      (s.setCore (coreAfter isa inst s.core)).requested (s.requestOf isa inst) := by
  simp only [executeInstruction, onEvent_eq]
  rfl

/-- The top with the instruction at an address fetched and the pc operand behind it. -/
def ready (isa : InstructionSet ρ) (address : Address) (s : CoralNpuTop ρ C) : CoralNpuTop ρ C :=
  let (inst, s) := s.getDecodedInstruction address
  s.setPc (address + isa.size inst)

/-- What is recorded of an instruction executed. -/
def entryAt (isa : InstructionSet ρ) (address : Address) (s : CoralNpuTop ρ C) : Executed ρ :=
  let inst := (s.getDecodedInstruction address).1
  let c := coreAfter isa inst (s.ready isa address).core
  ⟨inst, (s.ready isa address).core, { c with numInstructions := c.numInstructions + 1 },
    (s.ready isa address).requestOf isa inst⟩

/-- **All that executing an instruction does to the top.** -/
theorem executeAt_eq (isa : InstructionSet ρ) (address : Address) (s : CoralNpuTop ρ C) :
    s.executeAt isa address =
      { (((s.ready isa address).setCore (s.entryAt isa address).after).requested
          (s.entryAt isa address).request) with
        counterOpcode := Function.update s.counterOpcode
          (isa.opcode (s.entryAt isa address).instruction)
          (s.counterOpcode (isa.opcode (s.entryAt isa address).instruction) + 1)
        executed := s.executed ++ [s.entryAt isa address] } := by
  simp only [executeAt, executeInstruction_eq]
  rw [entryAt, ready, getDecodedInstruction]
  cases C.lookup s.code.client address <;> rfl

section ExecuteAt

variable (isa : InstructionSet ρ) (address : Address) (s : CoralNpuTop ρ C)

@[simp] theorem breakpoints_executeAt : (s.executeAt isa address).breakpoints = s.breakpoints := by
  rw [executeAt_eq, ready, getDecodedInstruction]
  cases C.lookup s.code.client address <;> rfl

@[simp] theorem instructionMap_executeAt :
    (s.executeAt isa address).code.instructionMap = s.code.instructionMap := by
  rw [executeAt_eq, ready, getDecodedInstruction]
  cases C.lookup s.code.client address <;> rfl

@[simp] theorem runStatus_executeAt : (s.executeAt isa address).runStatus = s.runStatus := by
  rw [executeAt_eq, ready, getDecodedInstruction]
  cases C.lookup s.code.client address <;> rfl

@[simp] theorem halted_executeAt :
    (s.executeAt isa address).halted = (s.halted || (s.entryAt isa address).request.isSome) := by
  rw [executeAt_eq, ready, getDecodedInstruction]
  cases C.lookup s.code.client address <;> rfl

@[simp] theorem haltReason_executeAt :
    (s.executeAt isa address).haltReason =
      (s.entryAt isa address).request.getD s.haltReason := by
  rw [executeAt_eq, ready, getDecodedInstruction]
  cases C.lookup s.code.client address <;> rfl

@[simp] theorem needToStepOver_executeAt :
    (s.executeAt isa address).needToStepOver =
      (s.needToStepOver || (s.entryAt isa address).request == some .softwareBreakpoint) := by
  rw [executeAt_eq, ready, getDecodedInstruction]
  cases C.lookup s.code.client address <;> rfl

@[simp] theorem executed_executeAt :
    (s.executeAt isa address).executed = s.executed ++ [s.entryAt isa address] := by
  rw [executeAt_eq]

@[simp] theorem core_executeAt :
    (s.executeAt isa address).core = (s.entryAt isa address).after := by
  rw [executeAt_eq]
  rfl

theorem pc_executeAt : (s.executeAt isa address).pc = (s.entryAt isa address).after.pc := by
  have hcore := core_executeAt isa address s
  rw [core] at hcore
  rw [← hcore]

theorem memory_executeAt :
    (s.executeAt isa address).code.memory = (s.entryAt isa address).after.memory := by
  have hcore := core_executeAt isa address s
  rw [core] at hcore
  rw [← hcore]

@[simp] theorem address_entryAt : (s.entryAt isa address).instruction.address = address := by
  rw [entryAt, getDecodedInstruction]
  cases C.lookup s.code.client address <;> rfl

theorem memory_before_entryAt : (s.entryAt isa address).before.memory = s.code.memory := by
  rw [entryAt, ready, getDecodedInstruction]
  cases C.lookup s.code.client address <;> rfl

theorem request_entryAt {reason : HaltReason}
    (h : (s.entryAt isa address).request = some reason) :
    reason ≠ .none ∧ reason ≠ .actionPoint := eventRequest_eq_some h

end ExecuteAt

/-! ### Stepping and running -/

/-- The variables of the loops: `pc` is not set before the first iteration. -/
structure Loop (ρ : Type) (C : DecodeCache) where
  top : CoralNpuTop ρ C
  pc : Address
  nextPc : Address
  count : ℕ

/-- The body of the loop of `Step`. -/
def stepBody (isa : InstructionSet ρ) (l : Loop ρ C) : Loop ρ C :=
  let pc := l.nextPc
  let s := l.top.executeAt isa pc
  let l : Loop ρ C := ⟨s, pc, s.pcAddress, l.count + 1⟩
  if s.halted ∧ s.haltReason = .actionPoint then
    -- another action point: step over it and go on
    { l with
      top := { s.stepPastBreakpoint isa with
        halted := false
        haltReason := .none
        needToStepOver := false } }
  else l

/-- The body of the loop of `Run`. -/
def runBody (isa : InstructionSet ρ) (l : Loop ρ C) : Loop ρ C :=
  let pc := l.nextPc
  let s := l.top.executeAt isa pc
  let l : Loop ρ C := ⟨s, pc, s.pcAddress, l.count + 1⟩
  if s.halted ∧ s.haltReason = .actionPoint then
    { l with top := { s.stepPastBreakpoint isa with halted := false, haltReason := .none } }
  else l

/-- At most `n` iterations of a loop that ends when the top is halted. -/
def iterate (body : Loop ρ C → Loop ρ C) : ℕ → Loop ρ C → Loop ρ C
  | 0, l => l
  | n + 1, l => if l.top.halted then l else iterate body n (body l)

/-- The pc register behind a loop. -/
def finishPc (l : Loop ρ C) : CoralNpuTop ρ C :=
  if l.top.haltReason = .softwareBreakpoint then l.top.setPc l.pc else l.top.setPc l.nextPc

/-- The part of `Step` in front of the loop; `garbage` is the value of the variable `pc`. -/
def stepStart (isa : InstructionSet ρ) (garbage : Address) (s : CoralNpuTop ρ C) : Loop ρ C :=
  let s := { s with runStatus := .singleStep, halted := false }
  if s.needToStepOver then
    let s := ({ s with needToStepOver := false }).stepPastBreakpoint isa
    ⟨s, garbage, s.pcAddress, 1⟩
  else ⟨s, garbage, s.pcAddress, 0⟩

/-- The part of `Step` behind the loop. -/
def stepFinish (l : Loop ρ C) : CoralNpuTop ρ C :=
  let s := finishPc l
  let s := if s.halted then s else { s with haltReason := .none }
  { s with runStatus := .halted }

/-- `Step` of a top that is halted. -/
def stepHalted (isa : InstructionSet ρ) (garbage : Address) (num : ℕ) (s : CoralNpuTop ρ C) :
    ℕ × CoralNpuTop ρ C :=
  let l := stepStart isa garbage s
  let l := iterate (stepBody isa) (num - l.count) l
  (l.count, stepFinish l)

/-- `Step`, which gives the number of instructions executed. -/
def step (isa : InstructionSet ρ) (garbage : Address) (num : ℤ) (s : CoralNpuTop ρ C) :
    Except TopStatus (ℕ × CoralNpuTop ρ C) :=
  if num ≤ 0 then .error (.invalidArgument "Step count must be > 0".toList)
  else if s.runStatus ≠ .halted then
    .error (.failedPrecondition "CoralNPUTop::Step: Core must be halted".toList)
  else .ok (s.stepHalted isa garbage num.toNat)

/-- The part of `Run` in front of the loop. -/
def runStart (isa : InstructionSet ρ) (garbage : Address) (s : CoralNpuTop ρ C) : Loop ρ C :=
  let s :=
    if s.needToStepOver then ({ s with needToStepOver := false }).stepPastBreakpoint isa else s
  let s := { s with runStatus := .running, halted := false }
  ⟨s, garbage, s.pcAddress, 0⟩

/-- The thread of `Run` after at most `fuel` iterations. -/
def runLoop (isa : InstructionSet ρ) (garbage : Address) (fuel : ℕ) (s : CoralNpuTop ρ C) :
    Loop ρ C := iterate (runBody isa) fuel (runStart isa garbage s)

/-- `Run` until it halts within `fuel` iterations; `none` when it is still running then. -/
def run (isa : InstructionSet ρ) (garbage : Address) (fuel : ℕ) (s : CoralNpuTop ρ C) :
    Except TopStatus (Option (CoralNpuTop ρ C)) :=
  if s.runStatus = .running then
    .error (.failedPrecondition "CoralNPUTop::Run: core is already running".toList)
  else
    let l := s.runLoop isa garbage fuel
    .ok (if l.top.halted then some { finishPc l with runStatus := .halted } else none)

/-! ### The debugger's commands -/

/-- `SetSwBreakpoint`. -/
def setSwBreakpoint (address : Address) (s : CoralNpuTop ρ C) : TopStatus × CoralNpuTop ρ C :=
  if s.runStatus ≠ .halted then
    (.failedPrecondition "SetSwBreakpoint: Core must be halted".toList, s)
  else if s.breakpoints.contains address then (.alreadyExists, s)
  else (.ok, { s with
    code := (writeBreakpointInstruction C.invalidate address s.code).2
    breakpoints := address :: s.breakpoints })

/-- `ClearSwBreakpoint`. -/
def clearSwBreakpoint (address : Address) (s : CoralNpuTop ρ C) : TopStatus × CoralNpuTop ρ C :=
  if s.runStatus ≠ .halted then
    (.failedPrecondition "ClearSwBreakpoing: Core must be halted".toList, s)
  else if s.breakpoints.contains address then
    (.ok, { s with
      code := (writeOriginalInstruction C.invalidate address s.code).2
      breakpoints := s.breakpoints.erase address })
  else (.notFound, s)

/-- `ClearAllSwBreakpoints`. -/
def clearAllSwBreakpoints (s : CoralNpuTop ρ C) : TopStatus × CoralNpuTop ρ C :=
  if s.runStatus ≠ .halted then
    (.failedPrecondition "ClearAllSwBreakpoints: Core must be halted".toList, s)
  else (.ok, { s with
    code := s.breakpoints.foldl
      (fun code address => (writeOriginalInstruction C.invalidate address code).2) s.code
    breakpoints := [] })

/-- `GetDisassembly`, up to the text of the instruction. -/
def getDisassembly (address : Address) (s : CoralNpuTop ρ C) :
    Except TopStatus (DecodedInstruction × CoralNpuTop ρ C) :=
  if s.runStatus ≠ .halted then
    .error (.failedPrecondition "GetDissasembly: Core must be halted".toList)
  else if s.isActionPointActive address then
    let s := { s with code := (writeOriginalInstruction C.invalidate address s.code).2 }
    let (inst, s) := s.getDecodedInstruction address
    .ok (inst, { s with code := (writeBreakpointInstruction C.invalidate address s.code).2 })
  else .ok (s.getDecodedInstruction address)

/-- What disassembling changes: the decode cache, and a breakpoint is taken away and planted
again. -/
theorem getDisassembly_eq_ok {address : Address} {s s' : CoralNpuTop ρ C}
    {inst : DecodedInstruction} (h : s.getDisassembly address = .ok (inst, s')) :
    ∃ client, s' = { s with
      code :=
        if s.isActionPointActive address then
          (writeBreakpointInstruction C.invalidate address
            { (writeOriginalInstruction C.invalidate address s.code).2 with client := client }).2
        else { s.code with client := client } } := by
  rw [getDisassembly] at h
  split at h
  · cases h
  · split at h
    · rename_i hactive
      rw [hactive]
      simp only [getDecodedInstruction] at h
      split at h <;>
      · cases h
        exact ⟨_, rfl⟩
    · rename_i hactive
      rw [Bool.not_eq_true] at hactive
      rw [hactive]
      rw [getDecodedInstruction] at h
      split at h <;>
      · cases h
        exact ⟨_, rfl⟩

/-- `WriteRegister` of the pc. -/
def writePc (value : BitVec 64) (s : CoralNpuTop ρ C) : TopStatus × CoralNpuTop ρ C :=
  if s.runStatus ≠ .halted then
    (.failedPrecondition "WriteRegister: Core must be halted".toList, s)
  else
    let s := if s.haltReason = .softwareBreakpoint then { s with haltReason := .none } else s
    (.ok, s.setPc value)

end CoralNpuTop

/-- The commands of a debugger. -/
inductive TopCommand where
  | setSwBreakpoint (address : Address)
  | clearSwBreakpoint (address : Address)
  | clearAllSwBreakpoints
  | getDisassembly (address : Address)
  | step (num : ℤ)
  | run
  | writePc (value : BitVec 64)

namespace CoralNpuTop

variable {ρ : Type} {C : DecodeCache}

/-- One command, run to its end; `none` when `Run` is still running after `fuel` iterations.  A
command that fails changes nothing. -/
def perform (isa : InstructionSet ρ) (garbage : Address) (fuel : ℕ) (s : CoralNpuTop ρ C) :
    TopCommand → Option (CoralNpuTop ρ C)
  | .setSwBreakpoint address => some (s.setSwBreakpoint address).2
  | .clearSwBreakpoint address => some (s.clearSwBreakpoint address).2
  | .clearAllSwBreakpoints => some s.clearAllSwBreakpoints.2
  | .getDisassembly address =>
      match s.getDisassembly address with
      | .ok (_, s') => some s'
      | .error _ => some s
  | .step num =>
      match s.step isa garbage num with
      | .ok (_, s') => some s'
      | .error _ => some s
  | .run =>
      match s.run isa garbage fuel with
      | .ok result => result
      | .error _ => some s
  | .writePc value => some (s.writePc value).2

end CoralNpuTop

end CoralNpu
