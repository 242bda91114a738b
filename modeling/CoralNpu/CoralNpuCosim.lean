/-
**The simulator behind the interface to a hardware simulation.**

A hardware simulation calls the functions of the wrapper in any order.  They work on one global
handle, which holds options, a pointer to a simulator, and a flag that says whether the simulator is
ready.  Some of them make the simulator when it is not ready; when that fails, they try again at the
next call.

The top, with its registers, its memory and its decoder, is a parameter.

Main definitions:

* `CoralNpu.MpactHandle`, `CoralNpu.DpiCall.run` — the handle and the functions of the wrapper;
  there is no result when a null pointer is followed;
* `CoralNpu.CosimSession`, `CoralNpu.CosimSession.call` — what the handle stands for: no session,
  one that is being set up, or one with a simulator;
* `CoralNpu.DpiCall.act` — what a call does to the simulator of a session.

Main results:

* `CoralNpu.session_of_calls` — **no calls follow a null pointer**, and their replies are those of a
  session;
* `CoralNpu.acts_of_live` — **a session has one simulator**, which undergoes what its calls do;
* `CoralNpu.defaults_of_calls` — **the default regions decide first**, whatever was configured;
* `CoralNpu.memoryRegions_config_range` — the regions behind a configuration and a range are those
  of the wrapper.
-/

import CoralNpu.AsciiText
import CoralNpu.CodeImage
import CoralNpu.MemoryRegion
import CoralNpu.Traces
import Mathlib.Data.List.Sublists

set_option relaxedAutoImplicit false
set_option autoImplicit false

namespace CoralNpu

open AsciiText CodeImage Traces

variable {σ : Type}

/-! ### The simulator -/

/-- `Architecture`. -/
inductive Architecture where
  | v2
  | m3
  | m4
  deriving DecidableEq

/-- `CoralNPUSimulatorOptions`, as far as the wrapper sets them. -/
structure CoralNPUSimulatorOptions where
  architecture : Architecture
  initialMisaValue : BitVec 32
  itcmStartAddress : BitVec 32
  memoryRegions : List CoralNPUV2MemoryRegion

/-- The options of a new handle. -/
def CoralNPUSimulatorOptions.default : CoralNPUSimulatorOptions :=
  ⟨.v2, 0x40201120, 0x0, defaultMemoryRegions⟩

/-- The top of the simulator.  What may fail is an option, or answers whether it was done. -/
structure CosimTop (σ : Type) where
  create : Architecture → BitVec 32 → σ
  readRegister : Text → σ → Option (BitVec 64)
  writeRegister : Text → BitVec 64 → σ → Bool × σ
  getRegisterDataBuffer : Text → σ → Option (List (BitVec 32))
  writeMemory : BitVec 64 → Bytes → σ → Bool × σ
  loadProgram : Text → σ → Bool × σ
  /-- a step, under the permissions of the memory regions -/
  step : List CoralNPUV2MemoryRegion → ℕ → σ → Option ℤ × σ

/-- `CoralNPUSimulator`: the memory regions of its state, and its top. -/
structure CosimSimulator (σ : Type) where
  memoryRegions : List CoralNPUV2MemoryRegion
  top : σ

namespace CosimSimulator

variable (core : CosimTop σ)

/-- A new simulator. -/
def create (options : CoralNPUSimulatorOptions) : CosimSimulator σ where
  memoryRegions := registerRegions options.memoryRegions
  top := core.create options.architecture options.initialMisaValue

/-- A function of the top. -/
def onTop {α : Type} (f : σ → α × σ) (s : CosimSimulator σ) : α × CosimSimulator σ :=
  let (answer, top) := f s.top
  (answer, { s with top := top })

end CosimSimulator

/-! ### The handle -/

/-- `sim_config_t`. -/
structure SimConfig where
  itcmStartAddress : BitVec 32
  itcmLength : BitVec 32
  initialMisaValue : BitVec 32
  architecture : Architecture

/-- The region of a configuration. -/
def SimConfig.region (c : SimConfig) : CoralNPUV2MemoryRegion :=
  ⟨c.itcmStartAddress, c.itcmLength, .readWriteExecute⟩

/-- The options with a configuration, if there is one. -/
def CoralNPUSimulatorOptions.configured (options : CoralNPUSimulatorOptions) :
    Option SimConfig → CoralNPUSimulatorOptions
  | none => options
  | some c =>
      { architecture := c.architecture
        itcmStartAddress := c.itcmStartAddress
        memoryRegions := options.memoryRegions ++ [c.region]
        initialMisaValue := c.initialMisaValue }

/-- `MpactHandle`. -/
structure MpactHandle (σ : Type) where
  options : CoralNPUSimulatorOptions
  simulator : Option (CosimSimulator σ)
  isInitialized : Bool

/-- What a function returns: its code or its answer, and what it leaves behind its pointers, if
anything. -/
inductive DpiReply where
  | code (result : ℤ)
  | halted (result : Bool)
  | register (result : ℤ) (value : Option (BitVec 32))
  | vectorRegister (result : ℤ) (value : Option (List (BitVec 32)))
  | architecture (result : ℤ) (value : Option Architecture)
  deriving DecidableEq

namespace MpactHandle

variable (core : CosimTop σ)

/-- A new handle. -/
def new : MpactHandle σ := ⟨.default, none, false⟩

/-- `MpactHandle::Init`. -/
def init (config : Option SimConfig) (h : MpactHandle σ) : Bool × MpactHandle σ :=
  if h.isInitialized then (false, h)
  else
    let options := h.options.configured config
    let (set, s) := (CosimSimulator.create core options).onTop
      (core.writeRegister "pc".toList (options.itcmStartAddress.setWidth 64))
    (set, ⟨options, some s, set⟩)

/-- The simulator pointer followed. -/
def withSimulator {α : Type} (f : CosimSimulator σ → α × CosimSimulator σ) (h : MpactHandle σ) :
    Option (α × MpactHandle σ) :=
  h.simulator.map fun s =>
    let (answer, s) := f s
    (answer, { h with simulator := some s })

/-- `MpactHandle::architecture`. -/
def architecture (h : MpactHandle σ) : Architecture :=
  match h.options.architecture with
  | .m3 => .m3
  | _ => .v2

end MpactHandle

/-! ### What is done to a simulator -/

section Simulator

variable (core : CosimTop σ)

/-- `MpactHandle::get_pc`. -/
def getPc (s : CosimSimulator σ) : BitVec 32 :=
  match core.readRegister "pc".toList s.top with
  | some pc => pc.setWidth 32
  | none => 0

/-- The instruction written to the pc, and a step. -/
def stepInstruction (instWord : Word) (s : CosimSimulator σ) : DpiReply × CosimSimulator σ :=
  let (written, s) := s.onTop (core.writeMemory ((getPc core s).setWidth 64) (encode [instWord]))
  if written = false then (.code 1, s)
  else
    let (stepRes, s) := s.onTop (core.step s.memoryRegions 1)
    match stepRes with
    | none => (.code 2, s)
    | some count => if count ≠ 1 then (.code 3, s) else (.code 0, s)

/-- The value of a register. -/
def getRegister (name : Text) (s : CosimSimulator σ) : DpiReply × CosimSimulator σ :=
  if name = "pc".toList then (.register 0 (some (getPc core s)), s)
  else
    match core.readRegister name s.top with
    | some value => (.register 0 (some (value.setWidth 32)), s)
    | none => (.register (-4) (some 0), s)

/-- The value of a vector register. -/
def getVectorRegister (name : Text) (s : CosimSimulator σ) : DpiReply × CosimSimulator σ :=
  match core.getRegisterDataBuffer name s.top with
  | some vectorData => (.vectorRegister 0 (some vectorData), s)
  | none => (.vectorRegister (-4) none, s)

/-- A register written. -/
def setRegister (name : Text) (value : BitVec 32) (s : CosimSimulator σ) :
    DpiReply × CosimSimulator σ :=
  let (written, s) := s.onTop (core.writeRegister name (value.setWidth 64))
  (.code (if written then 0 else -4), s)

/-- A program loaded. -/
def loadElf (elfFile : Text) (s : CosimSimulator σ) : DpiReply × CosimSimulator σ :=
  let (loaded, s) := s.onTop (core.loadProgram elfFile)
  (.code (if loaded then 0 else -1), s)

/-- A region added. -/
def addLoadStoreRange (startAddress length : BitVec 32) (s : CosimSimulator σ) :
    DpiReply × CosimSimulator σ :=
  (.code 0, { s with memoryRegions := mpactAddLoadStoreRange s.memoryRegions startAddress length })

end Simulator

/-! ### The functions of the wrapper -/

/-- `g_mpact_handle`. -/
abbrev GlobalHandle (σ : Type) := Option (MpactHandle σ)

/-- A function of the wrapper; there is no result when it follows a null pointer. -/
abbrev DpiFunction (σ : Type) := GlobalHandle σ → Option (DpiReply × GlobalHandle σ)

namespace Dpi

section Wrapper

variable (core : CosimTop σ)

/-- `mpact_init`. -/
def mpactInit : DpiFunction σ
  | some h => some (.code (-1), some h)
  | none => some (.code 0, some .new)

/-- `mpact_config`. -/
def mpactConfig (config : Option SimConfig) : DpiFunction σ
  | none => some (.code (-1), none)
  | some h =>
      if h.isInitialized then some (.code (-1), some h)
      else
        let (done, h) := h.init core config
        some (.code (if done then 0 else -1), some h)

/-- A function on the simulator of the handle. -/
def onSimulator (f : CosimSimulator σ → DpiReply × CosimSimulator σ) (h : MpactHandle σ) :
    Option (DpiReply × GlobalHandle σ) :=
  (h.withSimulator f).map fun (reply, h) => (reply, some h)

/-- `mpact_add_load_store_range`. -/
def mpactAddLoadStoreRange (startAddress length : BitVec 32) : DpiFunction σ
  | none => some (.code (-1), none)
  | some h =>
      if h.isInitialized = false then some (.code (-2), some h)
      else onSimulator (addLoadStoreRange startAddress length) h

/-- `mpact_load_program`. -/
def mpactLoadProgram (elfFile : Option Text) : DpiFunction σ
  | none => some (.code (-1), none)
  | some h =>
      if h.isInitialized = false then some (.code (-1), some h)
      else
        match elfFile with
        | none => some (.code (-1), some h)
        | some elfFile => onSimulator (loadElf core elfFile) h

/-- A function that makes the simulator when it is not ready. -/
def lazily (absent failed : DpiReply) (f : CosimSimulator σ → DpiReply × CosimSimulator σ) :
    DpiFunction σ
  | none => some (absent, none)
  | some h =>
      if h.isInitialized = false then
        let (done, h) := h.init core none
        if done = false then some (failed, some h) else onSimulator f h
      else onSimulator f h

/-- `mpact_step`. -/
def mpactStep (instruction : Word) : DpiFunction σ :=
  lazily core (.code (-1)) (.code (-1)) (stepInstruction core instruction)

/-- `mpact_is_halted`, which answers the same whether or not the simulator could be made. -/
def mpactIsHalted : DpiFunction σ
  | none => some (.halted false, none)
  | some h =>
      if h.isInitialized = false then some (.halted false, some (h.init core none).2)
      else some (.halted false, some h)

/-- `mpact_get_vector_register`, with a pointer for the value or not. -/
def mpactGetVectorRegister (name : Option Text) (value : Bool) : DpiFunction σ := fun handle =>
  if value = false then some (.vectorRegister (-1) none, handle)
  else
    match name with
    | none => some (.vectorRegister (-3) none, handle)
    | some name =>
        lazily core (.vectorRegister (-2) none) (.vectorRegister (-1) none)
          (getVectorRegister core name) handle

/-- `mpact_get_register`, with a pointer for the value or not. -/
def mpactGetRegister (name : Option Text) (value : Bool) : DpiFunction σ := fun handle =>
  if value = false then some (.register (-1) none, handle)
  else
    match name with
    | none => some (.register (-3) none, handle)
    | some name =>
        lazily core (.register (-2) (some 0)) (.register (-1) (some 0))
          (getRegister core name) handle

/-- `mpact_set_register`. -/
def mpactSetRegister (name : Option Text) (value : BitVec 32) : DpiFunction σ := fun handle =>
  match name with
  | none => some (.code (-3), handle)
  | some name => lazily core (.code (-2)) (.code (-1)) (setRegister core name value) handle

/-- `mpact_get_architecture`, with a pointer for the architecture or not. -/
def mpactGetArchitecture (architecture : Bool) : DpiFunction σ
  | none => some (.architecture (-1) none, none)
  | some h =>
      if architecture = false then some (.architecture (-1) none, some h)
      else some (.architecture 0 (some h.architecture), some h)

/-- `mpact_fini`. -/
def mpactFini : DpiFunction σ
  | none => some (.code (-1), none)
  | some _ => some (.code 0, none)

/-- `mpact_reset`. -/
def mpactReset : DpiFunction σ
  | none => mpactInit none
  | some h => (mpactFini (some h)).bind fun (_, handle) => mpactInit handle

end Wrapper

end Dpi

/-- The calls. -/
inductive DpiCall where
  | init
  | config (config : Option SimConfig)
  | addLoadStoreRange (startAddress length : BitVec 32)
  | loadProgram (elfFile : Option Text)
  | reset
  | step (instruction : Word)
  | isHalted
  | getVectorRegister (name : Option Text) (value : Bool)
  | getRegister (name : Option Text) (value : Bool)
  | setRegister (name : Option Text) (value : BitVec 32)
  | getArchitecture (architecture : Bool)
  | fini

section Calls

variable (core : CosimTop σ)

/-- A call. -/
def DpiCall.run : DpiCall → DpiFunction σ
  | init => Dpi.mpactInit
  | config c => Dpi.mpactConfig core c
  | addLoadStoreRange startAddress length => Dpi.mpactAddLoadStoreRange startAddress length
  | loadProgram elfFile => Dpi.mpactLoadProgram core elfFile
  | reset => Dpi.mpactReset
  | step instruction => Dpi.mpactStep core instruction
  | isHalted => Dpi.mpactIsHalted core
  | getVectorRegister name value => Dpi.mpactGetVectorRegister core name value
  | getRegister name value => Dpi.mpactGetRegister core name value
  | setRegister name value => Dpi.mpactSetRegister core name value
  | getArchitecture architecture => Dpi.mpactGetArchitecture architecture
  | fini => Dpi.mpactFini

/-- Calls one after the other, with their replies. -/
def runCalls : List DpiCall → GlobalHandle σ → Option (List (DpiCall × DpiReply) × GlobalHandle σ)
  | [], handle => some ([], handle)
  | call :: calls, handle => do
      let (reply, handle) ← call.run core handle
      let (events, handle) ← runCalls calls handle
      return ((call, reply) :: events, handle)

end Calls

/-! ### Sessions -/

/-- What the handle stands for: nothing, a session that is being set up, or one with a simulator. -/
inductive CosimSession (σ : Type) where
  | absent
  | configuring (options : CoralNPUSimulatorOptions)
  | live (options : CoralNPUSimulatorOptions) (s : CosimSimulator σ)

section Session

variable (core : CosimTop σ)

/-- The architecture that is answered. -/
def CoralNPUSimulatorOptions.reported (options : CoralNPUSimulatorOptions) : Architecture :=
  if options.architecture = .m3 then .m3 else .v2

/-- A try to make the simulator of a session. -/
def CosimSession.attempt (config : Option SimConfig) (options : CoralNPUSimulatorOptions) :
    CosimSession σ :=
  let options := options.configured config
  let (set, top) := core.writeRegister "pc".toList (options.itcmStartAddress.setWidth 64)
    (core.create options.architecture options.initialMisaValue)
  if set then .live options ⟨options.memoryRegions, top⟩ else .configuring options

namespace DpiCall

/-- The call ends a session. -/
def Leaves : DpiCall → Prop
  | reset | fini => True
  | _ => False

instance (call : DpiCall) : Decidable call.Leaves := by
  cases call <;> first | exact isTrue trivial | exact isFalse id

/-- The reply to a call whose arguments are refused. -/
def refused : DpiCall → Option DpiReply
  | getVectorRegister name value =>
      if value = false then some (.vectorRegister (-1) none)
      else if name = none then some (.vectorRegister (-3) none) else none
  | getRegister name value =>
      if value = false then some (.register (-1) none)
      else if name = none then some (.register (-3) none) else none
  | setRegister none _ => some (.code (-3))
  | _ => none

/-- The reply to a call when there is no session. -/
def absentReply : DpiCall → DpiReply
  | isHalted => .halted false
  | getVectorRegister _ _ => .vectorRegister (-2) none
  | getRegister _ _ => .register (-2) (some 0)
  | setRegister _ _ => .code (-2)
  | getArchitecture _ => .architecture (-1) none
  | _ => .code (-1)

/-- The reply to a call when the simulator could not be made for it. -/
def failedReply : DpiCall → DpiReply
  | isHalted => .halted false
  | getVectorRegister _ _ => .vectorRegister (-1) none
  | getRegister _ _ => .register (-1) (some 0)
  | _ => .code (-1)

/-- What a call does to the simulator of a session that goes on. -/
def act (options : CoralNPUSimulatorOptions) :
    DpiCall → CosimSimulator σ → DpiReply × CosimSimulator σ
  | addLoadStoreRange startAddress length, s => CoralNpu.addLoadStoreRange startAddress length s
  | loadProgram (some elfFile), s => loadElf core elfFile s
  | step instruction, s => stepInstruction core instruction s
  | isHalted, s => (.halted false, s)
  | getVectorRegister (some name) true, s => CoralNpu.getVectorRegister core name s
  | getRegister (some name) true, s => CoralNpu.getRegister core name s
  | setRegister (some name) value, s => CoralNpu.setRegister core name value s
  | getArchitecture architecture, s =>
      (if architecture then .architecture 0 (some options.reported) else .architecture (-1) none, s)
  | call, s => (call.refused.getD (.code (-1)), s)

end DpiCall

namespace CosimSession

/-- A call that makes the simulator when there is none. -/
def makes (call : DpiCall) (options : CoralNPUSimulatorOptions) : DpiReply × CosimSession σ :=
  match call.refused with
  | some reply => (reply, .configuring options)
  | none =>
      match attempt core none options with
      | live options s => ((call.act core options s).1, .live options (call.act core options s).2)
      | session => (call.failedReply, session)

/-- A call to a session. -/
def call : DpiCall → CosimSession σ → DpiReply × CosimSession σ
  | .init, absent | .reset, _ => (.code 0, .configuring .default)
  | .fini, configuring _ | .fini, live _ _ => (.code 0, .absent)
  | c, absent => (c.refused.getD c.absentReply, .absent)
  | .config config, configuring options =>
      match attempt core config options with
      | live options s => (.code 0, .live options s)
      | session => (.code (-1), session)
  | .addLoadStoreRange _ _, configuring options => (.code (-2), .configuring options)
  | .init, configuring options | .loadProgram _, configuring options =>
    (.code (-1), .configuring options)
  | .getArchitecture architecture, configuring options =>
      (if architecture then .architecture 0 (some options.reported) else .architecture (-1) none,
        .configuring options)
  | c, configuring options => makes core c options
  | c, live options s => ((c.act core options s).1, .live options (c.act core options s).2)

end CosimSession

/-! ### The handle stands for a session -/

/-- The handle stands for a session.  When it is ready there is a simulator. -/
inductive StandsFor : GlobalHandle σ → CosimSession σ → Prop
  | absent : StandsFor none .absent
  | configuring (options : CoralNPUSimulatorOptions) (simulator : Option (CosimSimulator σ)) :
      StandsFor (some ⟨options, simulator, false⟩) (.configuring options)
  | live (options : CoralNPUSimulatorOptions) (s : CosimSimulator σ) :
      StandsFor (some ⟨options, some s, true⟩) (.live options s)

/-- `Init` is a try, and says whether there is a simulator after it. -/
theorem init_cases (config : Option SimConfig) (options : CoralNPUSimulatorOptions)
    (simulator : Option (CosimSimulator σ)) :
    (∃ options' s, CosimSession.attempt core config options = .live options' s ∧
        MpactHandle.init core config ⟨options, simulator, false⟩ =
          (true, ⟨options', some s, true⟩)) ∨
      ∃ options' simulator', CosimSession.attempt core config options = .configuring options' ∧
        MpactHandle.init core config ⟨options, simulator, false⟩ =
          (false, ⟨options', simulator', false⟩) := by
  rw [CosimSession.attempt, MpactHandle.init, if_neg Bool.false_ne_true]
  simp only [CosimSimulator.create, CosimSimulator.onTop, registerRegions_eq]
  cases (core.writeRegister "pc".toList ((options.configured config).itcmStartAddress.setWidth 64)
    (core.create (options.configured config).architecture
      (options.configured config).initialMisaValue)).1 with
  | true => exact .inl ⟨_, _, rfl, rfl⟩
  | false => exact .inr ⟨_, _, rfl, rfl⟩

/-- A function that makes the simulator, when it is not ready. -/
theorem lazily_configuring (absent failed : DpiReply)
    (f : CosimSimulator σ → DpiReply × CosimSimulator σ) (options : CoralNPUSimulatorOptions)
    (simulator : Option (CosimSimulator σ)) :
    ∃ handle', Dpi.lazily core absent failed f (some ⟨options, simulator, false⟩) =
        some ((match CosimSession.attempt core none options with
          | .live _ s => (f s).1
          | _ => failed), handle') ∧
      StandsFor handle' (match CosimSession.attempt core none options with
        | .live options s => .live options (f s).2
        | session => session) := by
  rw [Dpi.lazily, if_pos rfl]
  rcases init_cases core none options simulator with
    ⟨options', s, hattempt, hinit⟩ | ⟨options', simulator', hattempt, hinit⟩
  · rw [hattempt, hinit]
    exact ⟨_, rfl, .live options' (f s).2⟩
  · rw [hattempt, hinit]
    exact ⟨_, rfl, .configuring options' simulator'⟩

/-- A call that makes the simulator, when it is not ready. -/
theorem makes_standsFor (call : DpiCall) (hrefused : call.refused = none)
    {f : CosimSimulator σ → DpiReply × CosimSimulator σ}
    (hact : ∀ options s, f s = call.act core options s) (absent : DpiReply)
    (options : CoralNPUSimulatorOptions) (simulator : Option (CosimSimulator σ)) :
    ∃ handle', Dpi.lazily core absent call.failedReply f (some ⟨options, simulator, false⟩) =
        some ((CosimSession.makes core call options).1, handle') ∧
      StandsFor handle' (CosimSession.makes core call options).2 := by
  obtain ⟨handle', hlazily, hstands⟩ :=
    lazily_configuring core absent call.failedReply f options simulator
  refine ⟨handle', ?_, ?_⟩
  · rw [hlazily, CosimSession.makes, hrefused]
    cases CosimSession.attempt core none options with
    | absent | configuring options' => rfl
    | live options' s =>
        dsimp only
        rw [hact options']
  · rw [CosimSession.makes, hrefused]
    cases hattempt : CosimSession.attempt core none options with
    | absent | configuring options' =>
        rw [hattempt] at hstands
        exact hstands
    | live options' s =>
        rw [hattempt] at hstands
        dsimp only at hstands ⊢
        rwa [hact options'] at hstands

theorem run_absent (call : DpiCall) :
    ∃ handle', call.run core none = some ((CosimSession.call core call .absent).1, handle') ∧
      StandsFor handle' (CosimSession.call core call .absent).2 := by
  cases call with
  | init | reset => exact ⟨_, rfl, .configuring _ none⟩
  | getVectorRegister name value | getRegister name value =>
      cases value with
      | false => exact ⟨_, rfl, .absent⟩
      | true => cases name <;> exact ⟨_, rfl, .absent⟩
  | setRegister name value => cases name <;> exact ⟨_, rfl, .absent⟩
  | config | addLoadStoreRange | loadProgram | step | isHalted | getArchitecture | fini =>
      exact ⟨_, rfl, .absent⟩

/-- The architecture of a handle is the one that is reported of its options. -/
theorem mpactGetArchitecture_reported (h : MpactHandle σ) :
    Dpi.mpactGetArchitecture true (some h) =
      some (.architecture 0 (some h.options.reported), some h) := by
  obtain ⟨⟨architecture, misa, start, regions⟩, simulator, ready⟩ := h
  cases architecture <;> rfl

theorem run_live (call : DpiCall) (options : CoralNPUSimulatorOptions) (s : CosimSimulator σ) :
    ∃ handle', call.run core (some ⟨options, some s, true⟩) =
        some ((CosimSession.call core call (.live options s)).1, handle') ∧
      StandsFor handle' (CosimSession.call core call (.live options s)).2 := by
  cases call with
  | reset => exact ⟨_, rfl, .configuring _ none⟩
  | fini => exact ⟨_, rfl, .absent⟩
  | getVectorRegister name value | getRegister name value =>
      cases value <;> cases name <;> exact ⟨_, rfl, .live _ _⟩
  | setRegister name value => cases name <;> exact ⟨_, rfl, .live _ _⟩
  | loadProgram elfFile => cases elfFile <;> exact ⟨_, rfl, .live _ _⟩
  | getArchitecture architecture =>
      refine ⟨_, ?_, .live _ _⟩
      cases architecture with
      | false => rfl
      | true => exact mpactGetArchitecture_reported _
  | init | config | addLoadStoreRange | step | isHalted => exact ⟨_, rfl, .live _ _⟩

theorem run_configuring (call : DpiCall) (options : CoralNPUSimulatorOptions)
    (simulator : Option (CosimSimulator σ)) :
    ∃ handle', call.run core (some ⟨options, simulator, false⟩) =
        some ((CosimSession.call core call (.configuring options)).1, handle') ∧
      StandsFor handle' (CosimSession.call core call (.configuring options)).2 := by
  cases call with
  | reset => exact ⟨_, rfl, .configuring _ none⟩
  | fini => exact ⟨_, rfl, .absent⟩
  | config config =>
      rw [DpiCall.run, Dpi.mpactConfig, if_neg Bool.false_ne_true, CosimSession.call]
      rcases init_cases core config options simulator with
        ⟨options', s, hattempt, hinit⟩ | ⟨options', simulator', hattempt, hinit⟩
      · rw [hattempt, hinit]
        exact ⟨_, rfl, .live options' s⟩
      · rw [hattempt, hinit]
        exact ⟨_, rfl, .configuring options' simulator'⟩
  | step instruction =>
      exact makes_standsFor core (.step instruction) rfl (fun _ _ => rfl)
        (.code (-1)) options simulator
  | isHalted =>
      have hmakes : CosimSession.call core .isHalted (.configuring options) =
          CosimSession.makes core .isHalted options := rfl
      rw [DpiCall.run, Dpi.mpactIsHalted, if_pos rfl, hmakes, CosimSession.makes]
      rcases init_cases core none options simulator with
        ⟨options', s, hattempt, hinit⟩ | ⟨options', simulator', hattempt, hinit⟩
      · rw [hattempt, hinit]
        exact ⟨_, rfl, .live options' s⟩
      · rw [hattempt, hinit]
        exact ⟨_, rfl, .configuring options' simulator'⟩
  | getVectorRegister name value =>
      cases value with
      | false => exact ⟨_, rfl, .configuring _ _⟩
      | true =>
          cases name with
          | none => exact ⟨_, rfl, .configuring _ _⟩
          | some name =>
              exact makes_standsFor core (.getVectorRegister (some name) true) rfl (fun _ _ => rfl)
                (.vectorRegister (-2) none) options simulator
  | getRegister name value =>
      cases value with
      | false => exact ⟨_, rfl, .configuring _ _⟩
      | true =>
          cases name with
          | none => exact ⟨_, rfl, .configuring _ _⟩
          | some name =>
              exact makes_standsFor core (.getRegister (some name) true) rfl (fun _ _ => rfl)
                (.register (-2) (some 0)) options simulator
  | setRegister name value =>
      cases name with
      | none => exact ⟨_, rfl, .configuring _ _⟩
      | some name =>
          exact makes_standsFor core (.setRegister (some name) value) rfl (fun _ _ => rfl)
            (.code (-2)) options simulator
  | getArchitecture architecture =>
      refine ⟨_, ?_, .configuring options simulator⟩
      cases architecture with
      | false => rfl
      | true => exact mpactGetArchitecture_reported _
  | init | addLoadStoreRange | loadProgram => exact ⟨_, rfl, .configuring _ _⟩

/-- **A call on a handle that stands for a session is one of the session.** -/
theorem run_standsFor {handle : GlobalHandle σ} {session : CosimSession σ}
    (h : StandsFor handle session) (call : DpiCall) :
    ∃ handle', call.run core handle = some ((CosimSession.call core call session).1, handle') ∧
      StandsFor handle' (CosimSession.call core call session).2 := by
  cases h with
  | absent => exact run_absent core call
  | configuring options simulator => exact run_configuring core call options simulator
  | live options s => exact run_live core call options s

theorem runCalls_standsFor {handle : GlobalHandle σ} {session : CosimSession σ}
    (h : StandsFor handle session) (calls : List DpiCall) :
    ∃ handle', runCalls core calls handle =
      some ((run (CosimSession.call core) calls session).1, handle') ∧
      StandsFor handle' (run (CosimSession.call core) calls session).2 := by
  induction calls generalizing handle session with
  | nil => exact ⟨handle, rfl, h⟩
  | cons call calls ih =>
      obtain ⟨handle', hrun, hstands⟩ := run_standsFor core h call
      obtain ⟨handle'', hcalls, hend⟩ := ih hstands
      refine ⟨handle'', ?_, hend⟩
      rw [runCalls, hrun]
      simp only [Option.bind_eq_bind, Option.bind_some, hcalls]
      rfl

/-- **No calls follow a null pointer**, in whatever order, and the replies are those of a
session. -/
theorem session_of_calls (calls : List DpiCall) :
    ∃ events handle session, runCalls core calls none = some (events, handle) ∧
      events.map Prod.fst = calls ∧
      Trace (machine (CosimSession.call core)) .absent events session ∧
        StandsFor handle session := by
  obtain ⟨handle, hrun, hstands⟩ := runCalls_standsFor core .absent calls
  exact ⟨_, handle, _, hrun, map_fst_run _ _ _, trace_run _ _ _, hstands⟩

/-! ### Live sessions -/

/-- A call that does not end a session does to its simulator what it does. -/
theorem call_live {call : DpiCall} (hstays : ¬ call.Leaves) (options : CoralNPUSimulatorOptions)
    (s : CosimSimulator σ) :
    CosimSession.call core call (.live options s) =
      ((call.act core options s).1, .live options (call.act core options s).2) := by
  cases call with
  | reset | fini => exact absurd trivial hstays
  | init | config | addLoadStoreRange | loadProgram | step | isHalted | getVectorRegister |
    getRegister | setRegister | getArchitecture => rfl

/-- **A session has one simulator**: until it ends, the simulator undergoes what the calls do to it,
one after the other, under the same options. -/
theorem acts_of_live (options : CoralNPUSimulatorOptions) (s : CosimSimulator σ)
    {calls : List DpiCall} (hstay : ∀ call ∈ calls, ¬ call.Leaves) :
    runCalls core calls (some ⟨options, some s, true⟩) =
      some ((run (DpiCall.act core options) calls s).1,
        some ⟨options, some (run (DpiCall.act core options) calls s).2, true⟩) := by
  induction calls generalizing s with
  | nil => rfl
  | cons call calls ih =>
      obtain ⟨handle', hrun, hstands⟩ := run_live core call options s
      rw [call_live core (hstay call List.mem_cons_self)] at hrun hstands
      cases hstands
      rw [runCalls, hrun]
      simp only [Option.bind_eq_bind, Option.bind_some,
        ih _ fun call' hmem => hstay call' (List.mem_cons_of_mem _ hmem)]
      rfl

/-- A top whose one register is the pc. -/
def pcTop : CosimTop (BitVec 64) where
  create _ _ := 0
  readRegister name pc := if name = "pc".toList then some pc else none
  writeRegister name value pc := if name = "pc".toList then (true, value) else (false, pc)
  getRegisterDataBuffer _ _ := none
  writeMemory _ _ pc := (true, pc)
  loadProgram _ pc := (false, pc)
  step _ count pc := (some count, pc + 4)

/-- Two steps with a refused configuration between them. -/
theorem acts_of_live_pcTop :
    ∃ events, runCalls pcTop [.step 0x13, .config none, .step 0x13]
      (some ⟨.default, some ⟨[], 0x100⟩, true⟩) =
      some (events, some ⟨.default, some ⟨[], 0x108⟩, true⟩) :=
  ⟨_, acts_of_live pcTop .default ⟨[], 0x100⟩ (by
    intro call hcall
    simp only [List.mem_cons, List.not_mem_nil, or_false] at hcall
    rcases hcall with rfl | rfl | rfl <;> exact id)⟩

/-! ### Regions -/

/-- The configuration that a call brings. -/
def DpiCall.configuration : DpiCall → Option SimConfig
  | config c => c
  | _ => none

/-- The region that a call adds. -/
def DpiCall.range : DpiCall → Option CoralNPUV2MemoryRegion
  | addLoadStoreRange startAddress length => some ⟨startAddress, length, .readWrite⟩
  | _ => none

/-- A configuration and a range register what `mpactInit` and `mpactAddLoadStoreRange` say. -/
theorem memoryRegions_config_range (c : SimConfig) (startAddress length : BitVec 32)
    (hset : (core.writeRegister "pc".toList (c.itcmStartAddress.setWidth 64)
      (core.create c.architecture c.initialMisaValue)).1 = true) :
    ∃ events options s,
      runCalls core [.init, .config (some c), .addLoadStoreRange startAddress length] none =
        some (events, some ⟨options, some s, true⟩) ∧
      s.memoryRegions = mpactAddLoadStoreRange (mpactInit c.itcmStartAddress c.itcmLength)
        startAddress length := by
  obtain ⟨top, hwrite⟩ : ∃ top, core.writeRegister "pc".toList
      (c.itcmStartAddress.setWidth 64) (core.create c.architecture c.initialMisaValue) =
        (true, top) := ⟨_, Prod.ext hset rfl⟩
  have hinit : MpactHandle.new.init core (some c) =
      (true, ⟨CoralNPUSimulatorOptions.default.configured (some c),
        some ⟨mpactInit c.itcmStartAddress c.itcmLength, top⟩, true⟩) := by
    simp only [MpactHandle.init, MpactHandle.new, Bool.false_eq_true, if_false,
      CosimSimulator.onTop, CosimSimulator.create, CoralNPUSimulatorOptions.configured, hwrite]
    rfl
  have hconfig : Dpi.mpactConfig core (some c) (some .new) =
      some (.code 0, some (MpactHandle.new.init core (some c)).2) := by
    simp only [Dpi.mpactConfig, hinit]
    rfl
  refine ⟨[(.init, .code 0), (.config (some c), .code 0),
    (.addLoadStoreRange startAddress length, .code 0)],
    CoralNPUSimulatorOptions.default.configured (some c), ⟨_, top⟩, ?_, rfl⟩
  simp only [runCalls, DpiCall.run, Dpi.mpactInit, Option.bind_eq_bind, Option.bind_some, hconfig,
    hinit]
  rfl

/-- The regions of options: the default ones, and those of configurations that were asked for. -/
def IsConfigured (calls : List DpiCall) (options : CoralNPUSimulatorOptions) : Prop :=
  ∃ configs : List SimConfig, configs.Sublist (calls.filterMap DpiCall.configuration) ∧
    options.memoryRegions = defaultMemoryRegions ++ configs.map SimConfig.region

/-- The regions of a simulator: those of its options, and ranges that were asked for. -/
def IsRegistered (calls : List DpiCall) (options : CoralNPUSimulatorOptions)
    (s : CosimSimulator σ) : Prop :=
  ∃ ranges : List CoralNPUV2MemoryRegion, ranges.Sublist (calls.filterMap DpiCall.range) ∧
    s.memoryRegions = options.memoryRegions ++ ranges

/-- What is known of a session after calls. -/
def Known (calls : List DpiCall) : CosimSession σ → Prop
  | .absent => True
  | .configuring options => IsConfigured calls options
  | .live options s => IsConfigured calls options ∧ IsRegistered calls options s

theorem isConfigured_default (calls : List DpiCall) : IsConfigured calls .default :=
  ⟨[], List.nil_sublist _, (List.append_nil _).symm⟩

theorem IsConfigured.concat {calls : List DpiCall} {options : CoralNPUSimulatorOptions}
    (h : IsConfigured calls options) (call : DpiCall) : IsConfigured (calls ++ [call]) options := by
  obtain ⟨configs, hsub, heq⟩ := h
  refine ⟨configs, hsub.trans ?_, heq⟩
  rw [List.filterMap_append]
  exact List.sublist_append_left _ _

/-- A configuration more. -/
theorem IsConfigured.configured {calls : List DpiCall} {options : CoralNPUSimulatorOptions}
    (h : IsConfigured calls options) (config : Option SimConfig) :
    IsConfigured (calls ++ [.config config]) (options.configured config) := by
  cases config with
  | none => exact h.concat _
  | some c =>
      obtain ⟨configs, hsub, heq⟩ := h
      refine ⟨configs ++ [c], ?_, ?_⟩
      · rw [List.filterMap_append]
        exact hsub.append (List.Sublist.refl _)
      · rw [CoralNPUSimulatorOptions.configured]
        dsimp only
        rw [heq, List.map_append, List.append_assoc]
        rfl

theorem isRegistered_new (calls : List DpiCall) (options : CoralNPUSimulatorOptions) (top : σ) :
    IsRegistered calls options ⟨options.memoryRegions, top⟩ :=
  ⟨[], List.nil_sublist _, (List.append_nil _).symm⟩

/-- A step keeps the regions. -/
theorem memoryRegions_stepInstruction (instruction : Word) (s : CosimSimulator σ) :
    (stepInstruction core instruction s).2.memoryRegions = s.memoryRegions := by
  unfold stepInstruction
  dsimp only
  split
  · rfl
  · split
    · rfl
    · split <;> rfl

/-- What a call does to the regions is to add its range, if it has one. -/
theorem memoryRegions_act (options : CoralNPUSimulatorOptions) (call : DpiCall)
    (s : CosimSimulator σ) :
    (call.act core options s).2.memoryRegions = s.memoryRegions ++ call.range.toList := by
  cases call with
  | addLoadStoreRange startAddress length => rfl
  | init | config | reset | isHalted | getArchitecture | fini => exact (List.append_nil _).symm
  | step instruction =>
    exact (memoryRegions_stepInstruction core instruction s).trans (List.append_nil _).symm
  | loadProgram elfFile => cases elfFile <;> exact (List.append_nil _).symm
  | setRegister name value => cases name <;> exact (List.append_nil _).symm
  | getVectorRegister name value =>
      refine Eq.trans ?_ (List.append_nil _).symm
      cases name with
      | none => rfl
      | some name =>
          cases value with
          | false => rfl
          | true =>
              rw [DpiCall.act, CoralNpu.getVectorRegister]
              cases core.getRegisterDataBuffer name s.top <;> rfl
  | getRegister name value =>
      refine Eq.trans ?_ (List.append_nil _).symm
      cases name with
      | none => rfl
      | some name =>
          cases value with
          | false => rfl
          | true =>
              rw [DpiCall.act, CoralNpu.getRegister]
              by_cases hpc : name = "pc".toList
              · rw [if_pos hpc]
              · rw [if_neg hpc]
                cases core.readRegister name s.top <;> rfl

/-- A call registers the range it adds, or nothing. -/
theorem IsRegistered.act {calls : List DpiCall} {options : CoralNPUSimulatorOptions}
    {s : CosimSimulator σ} (h : IsRegistered calls options s) (call : DpiCall) :
    IsRegistered (calls ++ [call]) options (call.act core options s).2 := by
  obtain ⟨ranges, hsub, heq⟩ := h
  refine ⟨ranges ++ call.range.toList, ?_, ?_⟩
  · rw [List.filterMap_append]
    refine hsub.append ?_
    cases call <;> exact List.Sublist.refl _
  · rw [memoryRegions_act, heq, List.append_assoc]

/-- What is known of the session after a try to make its simulator. -/
theorem known_attempt {calls : List DpiCall} {options : CoralNPUSimulatorOptions}
    {config : Option SimConfig} (h : IsConfigured calls (options.configured config)) :
    Known calls (CosimSession.attempt core config options) := by
  rw [CosimSession.attempt]
  dsimp only
  split
  · exact ⟨h, isRegistered_new calls _ _⟩
  · exact h

/-- What is known of a session that goes on. -/
theorem known_act {calls : List DpiCall} {options : CoralNPUSimulatorOptions} {s : CosimSimulator σ}
    (h : Known calls (.live options s)) (call : DpiCall) :
    Known (calls ++ [call]) (.live options (call.act core options s).2) :=
  ⟨h.1.concat call, h.2.act core call⟩

theorem known_makes {calls : List DpiCall} {options : CoralNPUSimulatorOptions}
    (h : IsConfigured calls options) (call : DpiCall) :
    Known (calls ++ [call]) (CosimSession.makes core call options).2 := by
  rw [CosimSession.makes]
  cases call.refused with
  | some reply => exact h.concat call
  | none =>
      have hattempt : Known calls (CosimSession.attempt core none options) := known_attempt core h
      revert hattempt
      cases CosimSession.attempt core none options with
      | absent => exact fun _ => trivial
      | configuring options' => exact fun hknown => IsConfigured.concat hknown call
      | live options' s => exact fun hknown => known_act core hknown call

/-- **A call hands on what is known of the session.** -/
theorem known_call {calls : List DpiCall} {session : CosimSession σ} (h : Known calls session)
    (call : DpiCall) :
    Known (calls ++ [call]) (CosimSession.call core call session).2 := by
  cases session with
  | absent =>
      cases call with
      | init | reset => exact isConfigured_default _
      | config | addLoadStoreRange | loadProgram | step | isHalted | getVectorRegister |
        getRegister | setRegister | getArchitecture | fini => trivial
  | configuring options =>
      cases call with
      | reset => exact isConfigured_default _
      | fini => trivial
      | config c =>
          have hattempt : Known (calls ++ [.config c]) (CosimSession.attempt core c options) :=
            known_attempt core (IsConfigured.configured h c)
          rw [CosimSession.call]
          revert hattempt
          cases CosimSession.attempt core c options with
          | absent | configuring options' | live options' s => exact id
      | init | loadProgram | addLoadStoreRange | getArchitecture => exact IsConfigured.concat h _
      | step | isHalted | getVectorRegister | getRegister | setRegister =>
        exact known_makes core h _
  | live options s =>
      cases call with
      | reset => exact isConfigured_default _
      | fini => trivial
      | init | config | addLoadStoreRange | loadProgram | step | isHalted | getVectorRegister |
        getRegister | setRegister | getArchitecture => exact known_act core h _

theorem known_of_calls (calls : List DpiCall) :
    Known calls (run (CosimSession.call core) calls .absent).2 := by
  have hknown : Known ((run (CosimSession.call core) calls .absent).1.map Prod.fst)
      (run (CosimSession.call core) calls .absent).2 := by
    refine (trace_run (CosimSession.call core) calls .absent).history
      (I := fun events session => Known (events.map Prod.fst) session) ?_ trivial
    intro past session event session' h hstep
    rw [List.map_append]
    have hcall := known_call core h event.1
    rwa [show CosimSession.call core event.1 session = (event.2, session') from hstep] at hcall
  rwa [map_fst_run] at hknown

/-- **The default regions decide first**, whatever calls made the simulator: behind them stand the
regions of configurations, and behind those the ranges, each in the order in which they were asked
for. -/
theorem defaults_of_calls {calls : List DpiCall} {events : List (DpiCall × DpiReply)}
    {options : CoralNPUSimulatorOptions} {s : CosimSimulator σ}
    (hrun : runCalls core calls none = some (events, some ⟨options, some s, true⟩)) :
    (∃ (configs : List SimConfig) (ranges : List CoralNPUV2MemoryRegion),
      configs.Sublist (calls.filterMap DpiCall.configuration) ∧
        ranges.Sublist (calls.filterMap DpiCall.range) ∧
          s.memoryRegions = defaultMemoryRegions ++ configs.map SimConfig.region ++ ranges) ∧
      ∀ address size permissions,
      (∃ region ∈ defaultMemoryRegions, region.contains address size = true) →
        hasPermission s.memoryRegions address size permissions =
          hasPermission defaultMemoryRegions address size permissions := by
  obtain ⟨handle, hcalls, hstands⟩ := runCalls_standsFor core .absent calls
  rw [hrun] at hcalls
  cases hcalls
  have hknown := known_of_calls core calls
  generalize (run (CosimSession.call core) calls .absent).2 = session at hstands hknown
  cases hstands
  obtain ⟨⟨configs, hconfigs, hoptions⟩, ranges, hranges, hregions⟩ := hknown
  rw [hoptions] at hregions
  refine ⟨⟨configs, ranges, hconfigs, hranges, hregions⟩, ?_⟩
  intro address size permissions hmatch
  rw [hregions, List.append_assoc, hasPermission_eq_decision, hasPermission_eq_decision]
  exact FirstMatch.decision_append_of_matched _ hmatch

/-- The instruction memory of a configuration that lies in the default one cannot be written. -/
theorem defaults_of_calls_pcTop :
    ∃ events options s,
      runCalls pcTop [.init, .config (some ⟨0x0, 0x2000, 0x40201120, .v2⟩)] none =
        some (events, some ⟨options, some s, true⟩) ∧ hasPermission s.memoryRegions 0x100 4 .write =
          false := by
  obtain ⟨events, options, s, hrun⟩ : ∃ events options s,
      runCalls pcTop [.init, .config (some ⟨0x0, 0x2000, 0x40201120, .v2⟩)] none =
        some (events, some ⟨options, some s, true⟩) := ⟨_, _, _, rfl⟩
  refine ⟨events, options, s, hrun, ?_⟩
  have hinside : ∃ region ∈ defaultMemoryRegions, region.contains 0x100 4 = true := by decide
  rw [(defaults_of_calls pcTop hrun).2 _ _ _ hinside]
  decide

end Session

end CoralNpu
