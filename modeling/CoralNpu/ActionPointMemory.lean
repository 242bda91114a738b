/-
**The memory interface of the action points.**

A breakpoint is an `ebreak` planted in the program's memory.  The interface remembers the word it
replaced, once for each address: the entry made when a breakpoint is first set at an address is used
for every later one.

A history is a sequence of the two calls and of memory writes by anyone else.  Beside the interface
it carries, for the proofs only, the word in memory when a breakpoint was first set at an address,
and the word a breakpoint that is planted now covers.  Setting a breakpoint again where its `ebreak`
is still in place plants nothing new.

Main definitions:

* `CoralNpu.ActionPointMemory` — the interface, with `CoralNpu.writeOriginalInstruction` and
  `CoralNpu.writeBreakpointInstruction`;
* `CoralNpu.BreakpointHistory` — a history, one event after another;
* `CoralNpu.RestoresCovered` — clearing restores what the breakpoint covers;
* `CoralNpu.CoversFirst` — the word covered is the one remembered.

Main results:

* `CoralNpu.BreakpointHistory.run_remembers` — the word remembered is the first one, in every
  history;
* `CoralNpu.restoresCovered_iff` — **clearing restores what it covers exactly when that is the first
  word**.
-/

import Mathlib.Logic.Function.Basic
import CoralNpu.AsciiText
import CoralNpu.CodeImage
import CoralNpu.WordMemory

set_option relaxedAutoImplicit false
set_option autoImplicit false

namespace CoralNpu

open AsciiText WordMemory
open CodeImage (Word)

/-! ### The interface -/

/-- An address. -/
abbrev Address := BitVec 64

/-- A memory of bytes. -/
abbrev Memory := Address → BitVec 8

/-- `InstructionInfo`. -/
structure InstructionInfo where
  size : ℕ
  ogInstructionWord : Word
  deriving DecidableEq

/-- The interface: the memory it writes to, the words it remembers, and the state `κ` of whoever
asks to be told when the word at an address changes. -/
structure ActionPointMemory (κ : Type) where
  memory : Memory
  instructionMap : Address → Option InstructionInfo
  client : κ

/-- The status of a call. -/
inductive ActionPointStatus where
  | ok
  | notFound (message : Text)
  | invalidArgument (message : Text)
  deriving DecidableEq

/-- `kEBreak32`. -/
def ebreak32 : Word := 0x00100073

/-- `GetInstructionSize`. -/
def getInstructionSize (_instructionWord : Word) : ℕ := 4

/-- The message of a call that finds nothing remembered. -/
def noInstructionMessage (address : Address) : Text :=
  "No instruction information exist for address: ".toList ++ hex address.toNat

/-- The message of a call that finds an instruction without a size. -/
def invalidSizeMessage (size : ℕ) (address : Address) : Text :=
  "Invalid instruction size: ".toList ++ decimal size ++ " at ".toList ++
    hex address.toNat

section Interface

variable {κ : Type} (invalidate : Address → κ → κ)

/-- The memory with a word written, and the client told. -/
def ActionPointMemory.store (address : Address) (word : Word) (s : ActionPointMemory κ) :
    ActionPointMemory κ :=
  { s with memory := storeWord s.memory address word, client := invalidate address s.client }

/-- `WriteOriginalInstruction`. -/
def writeOriginalInstruction (address : Address) (s : ActionPointMemory κ) :
    ActionPointStatus × ActionPointMemory κ :=
  match s.instructionMap address with
  | none => (.notFound (noInstructionMessage address), s)
  | some info => (.ok, s.store invalidate address info.ogInstructionWord)

/-- The entry for an address, made from the word in memory when there is none. -/
def rememberInstruction (address : Address) (s : ActionPointMemory κ) :
    ActionPointStatus × ActionPointMemory κ :=
  match s.instructionMap address with
  | some _ => (.ok, s)
  | none =>
      let instructionWord := loadWord s.memory address
      let size := getInstructionSize instructionWord
      if size = 0 then (.invalidArgument (invalidSizeMessage size address), s)
      else (.ok, { s with
        instructionMap := Function.update s.instructionMap address (some ⟨size, instructionWord⟩) })

/-- `WriteBreakpointInstruction`. -/
def writeBreakpointInstruction (address : Address) (s : ActionPointMemory κ) :
    ActionPointStatus × ActionPointMemory κ :=
  match rememberInstruction address s with
  | (.ok, s) => (.ok, s.store invalidate address ebreak32)
  | (status, s) => (status, s)

/-- The word remembered for an address. -/
def ActionPointMemory.remembered (s : ActionPointMemory κ) (address : Address) : Option Word :=
  (s.instructionMap address).map InstructionInfo.ogInstructionWord

/-- Every word has a size, so remembering never fails. -/
theorem rememberInstruction_eq (address : Address) (s : ActionPointMemory κ) :
    rememberInstruction address s = (.ok, (rememberInstruction address s).2) := by
  rw [rememberInstruction]
  cases s.instructionMap address <;> rfl

theorem writeBreakpointInstruction_eq (address : Address) (s : ActionPointMemory κ) :
    writeBreakpointInstruction invalidate address s =
      (.ok, ((rememberInstruction address s).2).store invalidate address ebreak32) := by
  rw [writeBreakpointInstruction, rememberInstruction_eq]

@[simp] theorem memory_writeBreakpointInstruction (address : Address) (s : ActionPointMemory κ) :
    (writeBreakpointInstruction invalidate address s).2.memory =
      storeWord s.memory address ebreak32 := by
  rw [writeBreakpointInstruction_eq, rememberInstruction]
  split <;> rfl

@[simp] theorem client_writeBreakpointInstruction (address : Address) (s : ActionPointMemory κ) :
    (writeBreakpointInstruction invalidate address s).2.client = invalidate address s.client := by
  rw [writeBreakpointInstruction_eq, rememberInstruction]
  split <;> rfl

/-- A set remembers the word in memory, unless one is remembered already. -/
theorem remembered_writeBreakpointInstruction (address : Address) (s : ActionPointMemory κ) :
    (writeBreakpointInstruction invalidate address s).2.remembered =
      Function.update s.remembered address
        (some ((s.remembered address).getD (loadWord s.memory address))) := by
  funext b
  rw [writeBreakpointInstruction_eq, rememberInstruction]
  cases h : s.instructionMap address with
  | none =>
      by_cases hb : b = address
      · subst hb
        simp [ActionPointMemory.remembered, ActionPointMemory.store, getInstructionSize, h]
      · simp [ActionPointMemory.remembered, ActionPointMemory.store, getInstructionSize, hb]
  | some info =>
      by_cases hb : b = address
      · subst hb
        simp [ActionPointMemory.remembered, ActionPointMemory.store, h]
      · simp [ActionPointMemory.remembered, ActionPointMemory.store, hb]

/-- A clear writes the word remembered, when there is one. -/
theorem memory_writeOriginalInstruction (address : Address) (s : ActionPointMemory κ) :
    (writeOriginalInstruction invalidate address s).2.memory =
      match s.remembered address with
      | none => s.memory
      | some word => storeWord s.memory address word := by
  rw [writeOriginalInstruction, ActionPointMemory.remembered]
  cases s.instructionMap address <;> rfl

@[simp] theorem remembered_writeOriginalInstruction (address : Address)
    (s : ActionPointMemory κ) :
    (writeOriginalInstruction invalidate address s).2.remembered = s.remembered := by
  rw [writeOriginalInstruction]
  cases s.instructionMap address <;> rfl

end Interface

/-! ### Histories -/

/-- What happens to the memory.  A wider write is several writes of bytes. -/
inductive BreakpointEvent where
  | writeBreakpoint (address : Address)
  | writeOriginal (address : Address)
  | store (address : Address) (byte : BitVec 8)
  deriving DecidableEq

/-- The interface after some events, with what the proofs keep of them. -/
structure BreakpointHistory (κ : Type) where
  state : ActionPointMemory κ
  /-- the word in memory when a breakpoint was first set -/
  firstSet : Address → Option Word
  /-- the word in memory when the breakpoint planted now was set -/
  covered : Address → Option Word

namespace BreakpointHistory

variable {κ : Type} (invalidate : Address → κ → κ)

/-- A new interface on a memory. -/
def start (memory : Memory) (client : κ) : BreakpointHistory κ :=
  ⟨⟨memory, fun _ => none, client⟩, fun _ => none, fun _ => none⟩

/-- The word a breakpoint covers when it is set: a breakpoint still in place stays as it is. -/
def coverNow (h : BreakpointHistory κ) (address : Address) : Word :=
  match h.covered address with
  | some word =>
      if loadWord h.state.memory address = ebreak32 then word
      else loadWord h.state.memory address
  | none => loadWord h.state.memory address

/-- One event. -/
def step (h : BreakpointHistory κ) : BreakpointEvent → BreakpointHistory κ
  | .writeBreakpoint address =>
      { state := (writeBreakpointInstruction invalidate address h.state).2
        firstSet := Function.update h.firstSet address
          (some ((h.firstSet address).getD (loadWord h.state.memory address)))
        covered := Function.update h.covered address (some (h.coverNow address)) }
  | .writeOriginal address =>
      { h with
        state := (writeOriginalInstruction invalidate address h.state).2
        covered := Function.update h.covered address none }
  | .store address byte =>
      { h with state := { h.state with memory := Function.update h.state.memory address byte } }

/-- Several events. -/
def run (h : BreakpointHistory κ) (events : List BreakpointEvent) : BreakpointHistory κ :=
  events.foldl (step invalidate) h

/-- The interface remembers the first word of every address, and a breakpoint is planted only where
one has been set. -/
structure Remembers (h : BreakpointHistory κ) : Prop where
  remembered_eq : h.state.remembered = h.firstSet
  firstSet_of_covered : ∀ a, h.firstSet a = none → h.covered a = none

theorem remembers_start (memory : Memory) (client : κ) : (start memory client).Remembers :=
  ⟨rfl, fun _ _ => rfl⟩

theorem Remembers.step {h : BreakpointHistory κ} (hr : h.Remembers) (event : BreakpointEvent) :
    (h.step invalidate event).Remembers := by
  cases event with
  | writeBreakpoint address =>
      refine ⟨?_, fun a hnone => ?_⟩
      · rw [BreakpointHistory.step, remembered_writeBreakpointInstruction, hr.remembered_eq]
      · by_cases ha : a = address
        · subst ha
          simp [BreakpointHistory.step] at hnone
        · simp only [BreakpointHistory.step, Function.update_of_ne ha] at hnone ⊢
          exact hr.firstSet_of_covered a hnone
  | writeOriginal address =>
      refine ⟨?_, fun a hnone => ?_⟩
      · rw [BreakpointHistory.step, remembered_writeOriginalInstruction, hr.remembered_eq]
      · by_cases ha : a = address
        · subst ha
          simp [BreakpointHistory.step]
        · simp only [BreakpointHistory.step, Function.update_of_ne ha]
          exact hr.firstSet_of_covered a hnone
  | store address byte => exact ⟨hr.remembered_eq, hr.firstSet_of_covered⟩

/-- **The word remembered is the first one**, whatever happens in between. -/
theorem run_remembers {h : BreakpointHistory κ} (hr : h.Remembers)
    (events : List BreakpointEvent) : (h.run invalidate events).Remembers := by
  induction events generalizing h with
  | nil => exact hr
  | cons event events ih => exact ih (hr.step invalidate event)

end BreakpointHistory

/-! ### Clearing -/

section Clearing

variable {κ : Type} (invalidate : Address → κ → κ)

/-- **Clearing restores what it covers**: the word in memory when the breakpoint was last set, or
nothing at all when no breakpoint is planted. -/
def RestoresCovered (h : BreakpointHistory κ) (address : Address) : Prop :=
  let memory := (writeOriginalInstruction invalidate address h.state).2.memory
  match h.covered address with
  | some word => loadWord memory address = word
  | none => memory = h.state.memory

/-- The word covered, or in memory when nothing is planted, is the one a breakpoint was first set
on. -/
def CoversFirst (h : BreakpointHistory κ) (address : Address) : Prop :=
  ∀ first, h.firstSet address = some first →
    first = (h.covered address).getD (loadWord h.state.memory address)

theorem restoresCovered_iff_of_remembers {h : BreakpointHistory κ} (hr : h.Remembers)
    (address : Address) : RestoresCovered invalidate h address ↔ CoversFirst h address := by
  have hremembered : h.state.remembered address = h.firstSet address := by rw [hr.remembered_eq]
  simp only [RestoresCovered, CoversFirst, memory_writeOriginalInstruction, hremembered]
  cases hfirst : h.firstSet address with
  | none => simp [hr.firstSet_of_covered address hfirst]
  | some first =>
      cases hcovered : h.covered address with
      | some word => simp [loadWord_storeWord (by decide : 2 ≤ 64)]
      | none =>
          simp only [Option.some.injEq, Option.getD_none, forall_eq']
          constructor
          · intro hmemory
            have hload := congrArg (fun m => loadWord m address) hmemory
            rwa [loadWord_storeWord (by decide)] at hload
          · rintro rfl
            exact storeWord_loadWord (by decide) _ _

/-- **In every history, clearing restores what it covers exactly when that is the first word.** -/
theorem restoresCovered_iff (memory : Memory) (client : κ) (events : List BreakpointEvent)
    (address : Address) :
    let h := (BreakpointHistory.start memory client).run invalidate events
    RestoresCovered invalidate h address ↔ CoversFirst h address :=
  restoresCovered_iff_of_remembers invalidate
    (BreakpointHistory.run_remembers invalidate (BreakpointHistory.remembers_start memory client)
      events) address

end Clearing

/-- Set, clear, rewrite, set: the clear that follows writes the word before the rewriting. -/
theorem not_restoresCovered_rewritten :
    ¬ ∀ (memory : Memory) (events : List BreakpointEvent) (address : Address),
      RestoresCovered (fun _ => id)
        ((BreakpointHistory.start memory ()).run (fun _ => id) events) address := by
  intro h
  have hword := h (fun _ => 0) [.writeBreakpoint 0, .writeOriginal 0, .store 0 0x13,
    .writeBreakpoint 0] 0
  rw [restoresCovered_iff_of_remembers _
    (BreakpointHistory.run_remembers _ (BreakpointHistory.remembers_start _ _) _)] at hword
  exact absurd (hword 0 (by decide)) (by decide)

end CoralNpu
