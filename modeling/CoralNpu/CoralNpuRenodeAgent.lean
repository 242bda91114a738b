/-
**The agent between Renode and its cores.**

Renode holds its cores by numbers.  The agent counts the cores it constructs, in 32 bits, gives each
the next number, and looks the number up in every other call; a core that was destroyed is missing
from then on.  The core itself stays a parameter, here with everything the agent asks of it.

The constructor that takes over memory of Renode is left out: cores made by it may share that
memory.

Main definitions:

* `CoralNpu.RenodeCore` — what the agent asks of a core;
* `CoralNpu.RenodeRequest`, `CoralNpu.RenodeRequest.perform` — the calls that name a core, and what
  they do with it;
* `CoralNpu.RenodeSessions`, `CoralNpu.RenodeSessions.call` — the agent with its counter, and a call
  of it;
* `CoralNpu.RenodeSession`, `CoralNpu.SessionStep` — the life of one core.

Main results:

* `CoralNpu.RenodeSessions.call_projects` — what a call is to a core that it names or does not name;
* `CoralNpu.session_of_trace` — **to every core the calls of any run are those of its own life**;
* `CoralNpu.missing_of_destroyed` — **a number that was destroyed is dead for good**.
-/

import CoralNpu.CoralNpuRenodeStep
import CoralNpu.CoralNpuTopMemory
import CoralNpu.Traces

set_option relaxedAutoImplicit false
set_option autoImplicit false

namespace CoralNpu

open AsciiText Traces CoralNpuTop

-- the state of a core
variable {σ : Type}

/-! ### What is asked of a core -/

/-- `RenodeCpuRegister`. -/
structure RenodeCpuRegister where
  index : ℤ
  width : ℤ
  isGeneral : Bool
  isReadOnly : Bool
  deriving DecidableEq

/-- `RenodeDebugInterface`, with all that the agent uses.  The program loader works on a core
through this interface, and is part of it here. -/
structure RenodeCore (σ : Type) extends RenodeDebugInterface σ where
  halt : σ → Except TopStatus Unit × σ
  readRegister : BitVec 32 → σ → Except TopStatus (BitVec 64) × σ
  writeRegister : BitVec 32 → BitVec 64 → σ → Except TopStatus Unit × σ
  writePc : BitVec 64 → σ → Except TopStatus Unit × σ
  readMemory : BitVec 64 → BitVec 64 → σ → Except TopStatus (List (BitVec 8)) × σ
  writeMemory : BitVec 64 → List (BitVec 8) → σ → Except TopStatus (BitVec 64) × σ
  loadProgram : Text → σ → Except TopStatus (BitVec 64) × σ
  loadImage : Text → BitVec 64 → σ → Except TopStatus Unit × σ
  getRenodeRegisterInfoSize : σ → ℤ
  getRenodeRegisterInfo : ℤ → ℤ → σ → Except TopStatus (Text × RenodeCpuRegister)

/-- The value of `ExecutionResult`. -/
def ExecutionResult.code : ExecutionResult → ℤ
  | ok => 0
  | interrupted => 1
  | waitingForInterrupt => 2
  | stoppedAtBreakpoint => 3
  | stoppedAtWatchpoint => 4
  | externalMmuFault => 5
  | aborted => -1

/-- The status that `Halt` writes for a halt reason; other reasons write none. -/
def LastHaltReason.haltStatus : LastHaltReason → Option ExecutionResult
  | top .semihostHaltRequest => some .aborted
  | top .softwareBreakpoint => some .stoppedAtBreakpoint
  | top .userRequest => some .interrupted
  | top .none => some .ok
  | top .haltAbort => some .aborted
  | top .actionPoint | top .simulatorError | hardwareBreakpoint => none

/-! ### Calls and replies -/

/-- The calls that name a core.  A flag says whether there is a place for what the call writes. -/
inductive RenodeRequest where
  | destruct
  | reset
  | getRegInfoSize
  | getRegInfo (index : ℤ) (hasInfo : Bool)
  | readRegister (regId : BitVec 32) (hasValue : Bool)
  | writeRegister (regId : BitVec 32) (value : BitVec 64)
  | readMemory (address length : BitVec 64)
  | writeMemory (address : BitVec 64) (buffer : List (BitVec 8))
  | loadExecutable (fileName : Text)
  | loadImage (fileName : Text) (address : BitVec 64)
  | step (numToStep : BitVec 64) (hasStatus : Bool)
  | halt (hasStatus : Bool)
  deriving DecidableEq

/-- What a call returns, and what it writes. -/
structure RenodeReply where
  result : ℤ
  status : Option ℤ
  value : Option (BitVec 64)
  bytes : List (BitVec 8)
  info : Option (Text × RenodeCpuRegister)
  deriving DecidableEq

namespace RenodeReply

/-- A call that only returns. -/
def code (result : ℤ) : RenodeReply := ⟨result, none, none, [], none⟩

/-- A call that returns and writes the status, when there is a place for it. -/
def reported (result : ℤ) (hasStatus : Bool) (status : Option ℤ) : RenodeReply :=
  { code result with status := if hasStatus then status else none }

end RenodeReply

namespace RenodeRequest

/-- What a call returns when the core is missing. -/
def missing : RenodeRequest → RenodeReply
  | readMemory _ _ | writeMemory _ _ => .code 0
  | loadExecutable _ => .reported 0 true (some (-1))
  | step _ hasStatus => .reported 0 hasStatus (some ExecutionResult.aborted.code)
  | _ => .code (-1)

/-- `LoadExecutable` of a core. -/
def loadExecutableCore (core : RenodeCore σ) (fileName : Text) (s : σ) : RenodeReply × σ :=
  match core.loadProgram fileName s with
  | (.error _, s) => (.reported 0 true (some (-1)), s)
  | (.ok entry, s) =>
      match core.writePc entry s with
      | (.error _, s) => (.reported 0 true (some (-1)), s)
      | (.ok _, s) => (.reported entry.toNat true (some 0), s)

/-- `Halt` of a core. -/
def haltCore (core : RenodeCore σ) (hasStatus : Bool) (s : σ) : RenodeReply × σ :=
  match core.halt s with
  | (.error _, s) => (.reported (-1) hasStatus (some ExecutionResult.aborted.code), s)
  | (.ok _, s) =>
      match core.getLastHaltReason s with
      | .error _ => (.reported (-1) hasStatus (some ExecutionResult.aborted.code), s)
      | .ok reason => (.reported 0 hasStatus (reason.haltStatus.map ExecutionResult.code), s)

/-- What a call does with its core; a core that is gone leaves no state. -/
def perform (core : RenodeCore σ) (maxNameLength : ℤ) : RenodeRequest → σ → RenodeReply × Option σ
  | destruct, _ => (.code 0, none)
  | reset, s => (.code 0, some s)
  | getRegInfoSize, s => (.code (core.getRenodeRegisterInfoSize s), some s)
  | getRegInfo index hasInfo, s =>
      if hasInfo then
        match core.getRenodeRegisterInfo index maxNameLength s with
        | .error _ => (.code (-1), some s)
        | .ok info => ({ RenodeReply.code 0 with info := some info }, some s)
      else (.code (-1), some s)
  | readRegister regId hasValue, s =>
      if hasValue then
        match core.readRegister regId s with
        | (.error _, s) => (.code (-1), some s)
        | (.ok value, s) => ({ RenodeReply.code 0 with value := some value }, some s)
      else (.code (-1), some s)
  | writeRegister regId value, s =>
      match core.writeRegister regId value s with
      | (.error _, s) => (.code (-1), some s)
      | (.ok _, s) => (.code 0, some s)
  | readMemory address length, s =>
      match core.readMemory address length s with
      | (.error _, s) => (.code 0, some s)
      | (.ok bytes, s) => ({ RenodeReply.code bytes.length with bytes := bytes }, some s)
  | writeMemory address buffer, s =>
      match core.writeMemory address buffer s with
      | (.error _, s) => (.code 0, some s)
      | (.ok written, s) => (.code written.toNat, some s)
  | loadExecutable fileName, s =>
      let (reply, s) := loadExecutableCore core fileName s
      (reply, some s)
  | loadImage fileName address, s =>
      match core.loadImage fileName address s with
      | (.error _, s) => (.code (-1), some s)
      | (.ok _, s) => (.code 0, some s)
  | step numToStep hasStatus, s =>
      let (report, s) := stepCore core.toRenodeDebugInterface numToStep s
      (.reported report.count.toNat hasStatus (some report.status.code), some s)
  | halt hasStatus, s =>
      let (reply, s) := haltCore core hasStatus s
      (reply, some s)

end RenodeRequest

/-- A call of the agent. -/
inductive RenodeCall where
  | construct (maxNameLength : ℤ)
  | on (id : BitVec 32) (request : RenodeRequest)
  deriving DecidableEq

/-! ### The agent -/

/-- `RenodeAgent`, with its counter and the lengths of names. -/
structure RenodeSessions (σ : Type) extends RenodeAgent σ where
  count : BitVec 32
  nameLengthMap : BitVec 32 → Option ℤ

/-- `CreateCoralNPUSim`; a null pointer is `none`. -/
abbrev CreateCoralNpuSim (σ : Type) := Text → Option σ

/-- `emplace`: a key that is there keeps its value. -/
def emplace {α : Type} (map : BitVec 32 → Option α) (key : BitVec 32) (value : α) :
    BitVec 32 → Option α :=
  if (map key).isSome then map else Function.update map key (some value)

/-- The name of the core with a number. -/
def renodeName (id : BitVec 32) : Text := "renode".toList ++ decimal id.toNat

namespace RenodeSessions

/-- A new agent. -/
def new : RenodeSessions σ := ⟨⟨fun _ => none⟩, 0, fun _ => none⟩

/-- `Construct`. -/
def construct (create : CreateCoralNpuSim σ) (maxNameLength : ℤ) (a : RenodeSessions σ) :
    RenodeReply × RenodeSessions σ :=
  match create (renodeName a.count) with
  | none => (.code (-1), a)
  | some dbg =>
      (.code a.count.toInt,
        { coreDbgInstances := emplace a.coreDbgInstances a.count dbg
          nameLengthMap := emplace a.nameLengthMap a.count maxNameLength
          count := a.count + 1 })

/-- The agent with another state of a core, or without it. -/
def setCore (a : RenodeSessions σ) (id : BitVec 32) (s : Option σ) : RenodeSessions σ :=
  { a with coreDbgInstances := Function.update a.coreDbgInstances id s }

/-- A call.  The length of names, looked up with `at`, is there for every core. -/
def call (core : RenodeCore σ) (create : CreateCoralNpuSim σ) :
    RenodeCall → RenodeSessions σ → RenodeReply × RenodeSessions σ
  | .construct maxNameLength, a => a.construct create maxNameLength
  | .on id request, a =>
      match a.coreDbgInstances id with
      | none => (request.missing, a)
      | some s =>
          let (reply, s') := request.perform core ((a.nameLengthMap id).getD 0) s
          (reply, a.setCore id s')

end RenodeSessions

/-! ### The life of a core -/

/-- A core that is not there yet, one that is, and one that is no more. -/
inductive RenodeSession (σ : Type) where
  | unborn
  | live (maxNameLength : ℤ) (core : σ)
  | dead

/-- What happens to a core: it is constructed, or a call names it. -/
inductive SessionEvent where
  | construct (maxNameLength : ℤ)
  | request (request : RenodeRequest) (reply : RenodeReply)
  deriving DecidableEq

/-- The life of a core.  It is constructed once, under its own name; calls before that, and after it
was destroyed, are turned down and change nothing. -/
inductive SessionStep (core : RenodeCore σ) (create : CreateCoralNpuSim σ) (id : BitVec 32) :
    RenodeSession σ → SessionEvent → RenodeSession σ → Prop
  | construct {maxNameLength : ℤ} {s : σ} (h : create (renodeName id) = some s) :
      SessionStep core create id .unborn (.construct maxNameLength) (.live maxNameLength s)
  | early (request : RenodeRequest) :
      SessionStep core create id .unborn (.request request request.missing) .unborn
  | performed {maxNameLength : ℤ} {s s' : σ} {request : RenodeRequest} {reply : RenodeReply}
      (h : request.perform core maxNameLength s = (reply, some s')) :
      SessionStep core create id (.live maxNameLength s) (.request request reply)
        (.live maxNameLength s')
  | destroyed {maxNameLength : ℤ} {s : σ} {request : RenodeRequest} {reply : RenodeReply}
      (h : request.perform core maxNameLength s = (reply, none)) :
      SessionStep core create id (.live maxNameLength s) (.request request reply) .dead
  | late (request : RenodeRequest) :
      SessionStep core create id .dead (.request request request.missing) .dead

/-- What a call with its reply is to the core with a number. -/
def concerns (id : BitVec 32) : RenodeCall × RenodeReply → Option SessionEvent
  | (.construct maxNameLength, reply) =>
      if reply.result = id.toInt ∧ reply.result ≠ -1 then some (.construct maxNameLength) else none
  | (.on id' request, reply) => if id' = id then some (.request request reply) else none

/-- The number that a call constructs. -/
def constructed : RenodeCall × RenodeReply → Option ℤ
  | (.construct _, reply) => if reply.result ≠ -1 then some reply.result else none
  | (.on _ _, _) => none

/-- The number of constructions. -/
def constructions (events : List (RenodeCall × RenodeReply)) : ℕ :=
  events.countP fun e => (constructed e).isSome

namespace RenodeSessions

/-- The life of a core, as the agent keeps it. -/
def session (a : RenodeSessions σ) (id : BitVec 32) : RenodeSession σ :=
  if a.count.toNat ≤ id.toNat then .unborn
  else
    match a.coreDbgInstances id with
    | none => .dead
    | some s => .live ((a.nameLengthMap id).getD 0) s

/-- The numbers given are those below the counter. -/
structure Counted (a : RenodeSessions σ) : Prop where
  instances : ∀ id, a.count.toNat ≤ id.toNat → a.coreDbgInstances id = none
  names : ∀ id, a.count.toNat ≤ id.toNat → a.nameLengthMap id = none

theorem counted_new : (new : RenodeSessions σ).Counted := ⟨fun _ _ => rfl, fun _ _ => rfl⟩

/-! ### One call -/

section Call

variable {core : RenodeCore σ} {create : CreateCoralNpuSim σ} {a a' : RenodeSessions σ}
    {id : BitVec 32}

theorem session_of_le (h : a.count.toNat ≤ id.toNat) : a.session id = .unborn := if_pos h

theorem session_of_none (h : ¬ a.count.toNat ≤ id.toNat) (hnone : a.coreDbgInstances id = none) :
    a.session id = .dead := by
  rw [session, if_neg h, hnone]

theorem session_of_some (h : ¬ a.count.toNat ≤ id.toNat) {s : σ}
    (hsome : a.coreDbgInstances id = some s) :
    a.session id = .live ((a.nameLengthMap id).getD 0) s := by
  rw [session, if_neg h, hsome]

/-- A number that is not given has no core. -/
theorem Counted.lt_count (h : a.Counted) {s : σ} (hsome : a.coreDbgInstances id = some s) :
    ¬ a.count.toNat ≤ id.toNat := by
  intro hle
  rw [h.instances id hle] at hsome
  cases hsome

theorem emplace_of_none {α : Type} {map : BitVec 32 → Option α} {key : BitVec 32}
    (h : map key = none) (value : α) :
    emplace map key value = Function.update map key (some value) := by
  rw [emplace, h]
  rfl

/-- The agent with one more core. -/
def added (a : RenodeSessions σ) (s : σ) (maxNameLength : ℤ) : RenodeSessions σ where
  coreDbgInstances := Function.update a.coreDbgInstances a.count (some s)
  nameLengthMap := Function.update a.nameLengthMap a.count (some maxNameLength)
  count := a.count + 1

/-- **A construction**: it fails and changes nothing, or the core gets the next number. -/
theorem construct_cases (create : CreateCoralNpuSim σ) (h : a.Counted)
    (hcount : a.count.toNat < 2 ^ 32 - 1) (maxNameLength : ℤ) :
    (create (renodeName a.count) = none ∧ a.construct create maxNameLength = (.code (-1), a)) ∨
      ∃ s, create (renodeName a.count) = some s ∧
        a.construct create maxNameLength = (.code a.count.toInt, a.added s maxNameLength) ∧
        a.count.toInt ≠ -1 ∧ (a.count + 1).toNat = a.count.toNat + 1 := by
  cases hcreate : create (renodeName a.count) with
  | none => exact .inl ⟨rfl, by rw [construct, hcreate]⟩
  | some s =>
      refine .inr ⟨s, rfl, ?_, ?_, ?_⟩
      · simp only [construct, hcreate, emplace_of_none (h.instances _ (Nat.le_refl _)),
          emplace_of_none (h.names _ (Nat.le_refl _)), added]
      · rw [BitVec.toInt_eq_toNat_cond]
        split <;> omega
      · rw [BitVec.toNat_add]
        exact Nat.mod_eq_of_lt (show a.count.toNat + 1 < 2 ^ 32 by omega)

/-- The numbers given stay those below the counter. -/
theorem Counted.added (h : a.Counted) (hcount : (a.count + 1).toNat = a.count.toNat + 1) (s : σ)
    (maxNameLength : ℤ) : (a.added s maxNameLength).Counted := by
  have hne {id : BitVec 32} (hle : (a.count + 1).toNat ≤ id.toNat) :
      id ≠ a.count ∧ a.count.toNat ≤ id.toNat := by
    rw [hcount] at hle
    refine ⟨?_, by omega⟩
    rintro rfl
    omega
  refine ⟨fun id hle => ?_, fun id hle => ?_⟩
  · rw [RenodeSessions.added]
    exact (Function.update_of_ne (hne hle).1 _ _).trans (h.instances id (hne hle).2)
  · rw [RenodeSessions.added]
    exact (Function.update_of_ne (hne hle).1 _ _).trans (h.names id (hne hle).2)

/-- The new core has the next number. -/
theorem session_added_self (hcount : (a.count + 1).toNat = a.count.toNat + 1) (s : σ)
    (maxNameLength : ℤ) : (a.added s maxNameLength).session a.count = .live maxNameLength s := by
  have hlt : ¬ (a.added s maxNameLength).count.toNat ≤ a.count.toNat := by
    rw [show (a.added s maxNameLength).count = a.count + 1 from rfl, hcount]
    omega
  have hname : (a.added s maxNameLength).nameLengthMap a.count = some maxNameLength :=
    Function.update_self _ _ _
  rw [session_of_some hlt (Function.update_self _ _ _), hname, Option.getD_some]

theorem session_added_of_ne (hcount : (a.count + 1).toNat = a.count.toNat + 1) (s : σ)
    (maxNameLength : ℤ) (hid : id ≠ a.count) :
    (a.added s maxNameLength).session id = a.session id := by
  have hne : id.toNat ≠ a.count.toNat := fun heq => hid (BitVec.eq_of_toNat_eq heq)
  simp only [session, RenodeSessions.added, hcount, Function.update_of_ne hid]
  congr 1
  exact propext (by omega)

/-- **A call to a core that is there** leaves all others alone. -/
theorem call_on_some {id' : BitVec 32} {s : σ} (hsome : a.coreDbgInstances id' = some s)
    (request : RenodeRequest) :
    a.call core create (.on id' request) =
      ((request.perform core ((a.nameLengthMap id').getD 0) s).1,
        a.setCore id' (request.perform core ((a.nameLengthMap id').getD 0) s).2) := by
  rw [call, hsome]

theorem call_on_none {id' : BitVec 32} (hnone : a.coreDbgInstances id' = none)
    (request : RenodeRequest) :
    a.call core create (.on id' request) = (request.missing, a) := by
  rw [call, hnone]

@[simp] theorem setCore_self (id : BitVec 32) (s : Option σ) :
    (a.setCore id s).coreDbgInstances id = s := Function.update_self _ _ _

theorem setCore_of_ne {id' : BitVec 32} (hne : id ≠ id') (s : Option σ) :
    (a.setCore id' s).coreDbgInstances id = a.coreDbgInstances id := Function.update_of_ne hne _ _

@[simp] theorem count_setCore (id : BitVec 32) (s : Option σ) :
    (a.setCore id s).count = a.count := rfl

@[simp] theorem nameLengthMap_setCore (id : BitVec 32) (s : Option σ) :
    (a.setCore id s).nameLengthMap = a.nameLengthMap := rfl

theorem Counted.setCore (h : a.Counted) {id' : BitVec 32} {s : σ}
    (hsome : a.coreDbgInstances id' = some s) (s' : Option σ) : (a.setCore id' s').Counted := by
  refine ⟨fun id hle => ?_, h.names⟩
  have hne : id ≠ id' := by
    rintro rfl
    exact h.lt_count hsome hle
  rw [setCore_of_ne hne]
  exact h.instances id hle

theorem session_setCore_of_ne {id' : BitVec 32} (hne : id ≠ id') (s' : Option σ) :
    (a.setCore id' s').session id = a.session id := by
  rw [session, session, setCore_of_ne hne, count_setCore, nameLengthMap_setCore]

/-- A call that is turned down is an event of a core that is not there. -/
theorem step_missing (hnone : a.coreDbgInstances id = none) (request : RenodeRequest) :
    SessionStep core create id (a.session id) (.request request request.missing)
      (a.session id) := by
  by_cases hle : a.count.toNat ≤ id.toNat
  · rw [session_of_le hle]
    exact .early request
  · rw [session_of_none hle hnone]
    exact .late request

/-- A call that is performed is an event of the core. -/
theorem step_performed (h : a.Counted) {s : σ} (hsome : a.coreDbgInstances id = some s)
    (request : RenodeRequest) :
    SessionStep core create id (a.session id)
      (.request request (request.perform core ((a.nameLengthMap id).getD 0) s).1)
      ((a.setCore id (request.perform core ((a.nameLengthMap id).getD 0) s).2).session id) := by
  have hlt := h.lt_count hsome
  rw [session_of_some hlt hsome]
  cases hperform : request.perform core ((a.nameLengthMap id).getD 0) s with
  | mk reply s' =>
      cases s' with
      | none =>
          rw [session_of_none (a := a.setCore id none) hlt (setCore_self id none)]
          exact .destroyed hperform
      | some s' =>
          rw [session_of_some (a := a.setCore id (some s')) hlt (setCore_self id (some s'))]
          exact .performed hperform

end Call

/-- The counter does not come round in the calls to come. -/
def Within (a : RenodeSessions σ) (events : List (RenodeCall × RenodeReply)) : Prop :=
  a.Counted ∧ a.count.toNat + constructions events < 2 ^ 32 - 1

theorem constructions_cons_some {e : RenodeCall × RenodeReply} {n : ℤ}
    (h : CoralNpu.constructed e = some n) (events : List (RenodeCall × RenodeReply)) :
    constructions (e :: events) = constructions events + 1 :=
  List.countP_cons_of_pos (by rw [h]; rfl)

theorem constructions_cons_none {e : RenodeCall × RenodeReply} (h : CoralNpu.constructed e = none)
    (events : List (RenodeCall × RenodeReply)) :
    constructions (e :: events) = constructions events :=
  List.countP_cons_of_neg (by rw [h]; decide)

/-- What the construction of a core is to one: its birth, or nothing. -/
theorem construct_projects (core : RenodeCore σ) (create : CreateCoralNpuSim σ) (id : BitVec 32)
    (maxNameLength : ℤ) {a a' : RenodeSessions σ} {reply : RenodeReply}
    {events : List (RenodeCall × RenodeReply)}
    (h : Within a ((.construct maxNameLength, reply) :: events))
    (hcall : a.call core create (.construct maxNameLength) = (reply, a')) :
    Within a' events ∧
      match concerns id (.construct maxNameLength, reply) with
      | none => a'.session id = a.session id
      | some e => SessionStep core create id (a.session id) e (a'.session id) := by
  obtain ⟨hcounted, hwithin⟩ := h
  rcases construct_cases create hcounted (by omega) maxNameLength with
    ⟨-, hfailed⟩ | ⟨s, hcreate, hdone, hresult, hcount⟩
  · -- nothing is constructed
    rw [call, hfailed] at hcall
    cases hcall
    refine ⟨⟨hcounted, ?_⟩, ?_⟩
    · rwa [constructions_cons_none rfl] at hwithin
    · have hnone : concerns id (.construct maxNameLength, .code (-1)) = none :=
        if_neg fun hboth => hboth.2 rfl
      rw [hnone]
  · rw [call, hdone] at hcall
    cases hcall
    have hconstructed : CoralNpu.constructed (.construct maxNameLength, .code a.count.toInt) =
        some a.count.toInt := if_pos hresult
    rw [constructions_cons_some hconstructed] at hwithin
    refine ⟨⟨hcounted.added hcount s maxNameLength, ?_⟩, ?_⟩
    · rw [show (a.added s maxNameLength).count = a.count + 1 from rfl, hcount]
      omega
    by_cases hid : id = a.count
    · subst hid
      have hown : concerns a.count (.construct maxNameLength, .code a.count.toInt) =
          some (.construct maxNameLength) := if_pos ⟨rfl, hresult⟩
      rw [hown]
      change SessionStep core create a.count
        (a.session a.count) _ ((a.added s maxNameLength).session a.count)
      rw [session_added_self hcount, session_of_le (Nat.le_refl _)]
      exact .construct hcreate
    · have hother : concerns id (.construct maxNameLength, .code a.count.toInt) = none :=
        if_neg fun hboth => hid (BitVec.toInt_inj.1 hboth.1.symm)
      rw [hother]
      exact session_added_of_ne hcount s maxNameLength hid

/-- What a request is to a core: an event of it when it names it, and nothing otherwise. -/
theorem request_projects (core : RenodeCore σ) (create : CreateCoralNpuSim σ) (id id' : BitVec 32)
    (request : RenodeRequest) {a a' : RenodeSessions σ} {reply : RenodeReply} (hcounted : a.Counted)
    (hcall : a.call core create (.on id' request) = (reply, a')) :
    a'.Counted ∧ a'.count = a.count ∧
      match concerns id (.on id' request, reply) with
      | none => a'.session id = a.session id
      | some e => SessionStep core create id (a.session id) e (a'.session id) := by
  have hconcerns (reply : RenodeReply) : concerns id (.on id' request, reply) =
      if id' = id then some (.request request reply) else none := rfl
  rw [hconcerns]
  cases hinstance : a.coreDbgInstances id' with
  | none =>
      rw [call_on_none hinstance] at hcall
      cases hcall
      refine ⟨hcounted, rfl, ?_⟩
      by_cases hid : id' = id
      · subst hid
        rw [if_pos rfl]
        exact step_missing hinstance request
      · rw [if_neg hid]
  | some s =>
      rw [call_on_some hinstance] at hcall
      cases hcall
      refine ⟨hcounted.setCore hinstance _, rfl, ?_⟩
      by_cases hid : id' = id
      · subst hid
        rw [if_pos rfl]
        exact step_performed hcounted hinstance request
      · rw [if_neg hid]
        exact session_setCore_of_ne (fun heq => hid heq.symm) _

/-- **What a call is to a core**: an event of its life, or nothing. -/
theorem call_projects (core : RenodeCore σ) (create : CreateCoralNpuSim σ) (id : BitVec 32) :
    Trace.Projects (machine (call core create)) (SessionStep core create id)
      (fun a => a.session id) (concerns id) Within := by
  rintro a ⟨c, reply⟩ a' events hwithin hcall
  change a.call core create c = (reply, a') at hcall
  have hprojects : Within a' events ∧
      match concerns id (c, reply) with
      | none => a'.session id = a.session id
      | some e => SessionStep core create id (a.session id) e (a'.session id) := by
    cases c with
    | construct maxNameLength => exact construct_projects core create id maxNameLength hwithin hcall
    | on id' request =>
        obtain ⟨hcounted, hcount, hview⟩ :=
          request_projects core create id id' request hwithin.1 hcall
        refine ⟨⟨hcounted, ?_⟩, hview⟩
        have hbound := hwithin.2
        rwa [constructions_cons_none rfl, ← hcount] at hbound
  refine ⟨hprojects.1, ?_⟩
  have hview := hprojects.2
  cases hconcerns : concerns id (c, reply) with
  | none | some e =>
      rw [hconcerns] at hview
      exact hview

end RenodeSessions

/-! ### Runs -/

theorem within_new {events : List (RenodeCall × RenodeReply)}
    (hfew : constructions events < 2 ^ 32 - 1) :
    RenodeSessions.Within (RenodeSessions.new (σ := σ)) events :=
  ⟨RenodeSessions.counted_new, by
    rw [show (RenodeSessions.new (σ := σ)).count.toNat = 0 from rfl]; omega⟩

/-- **To every core, the calls of a run are those of its own life.**  What the calls in between ask
of other cores does not show, neither in what it answers nor in what it becomes. -/
theorem session_of_trace (core : RenodeCore σ) (create : CreateCoralNpuSim σ)
    {events : List (RenodeCall × RenodeReply)} {a : RenodeSessions σ}
    (h : Trace (machine (RenodeSessions.call core create)) .new events a)
    (hfew : constructions events < 2 ^ 32 - 1) (id : BitVec 32) :
    Trace (SessionStep core create id) .unborn (events.filterMap (concerns id)) (a.session id) :=
  h.project (RenodeSessions.call_projects core create id) (within_new hfew)

/-- A top without registers, as a core of sixteen bytes. -/
def plainCore : RenodeCore (CoralNpuTop Unit noCache) :=
  { plainRenode with
    halt := fun s => (.ok (), if s.runStatus = .halted then s else s.requestHalt .userRequest)
    readRegister := fun _ s => (.error .notFound, s)
    writeRegister := fun _ _ s => (.error .notFound, s)
    writePc := fun value s => (.ok (), s.setPc value)
    readMemory := fun address length s => (s.readMemory 0xf address length, s)
    writeMemory := fun address buffer s => s.writeMemory 0xf address buffer
    loadProgram := fun _ s => (.error .notFound, s)
    loadImage := fun _ _ s => (.error .notFound, s)
    getRenodeRegisterInfoSize := fun _ => 0
    getRenodeRegisterInfo := fun _ _ _ => .error .notFound }

/-- The events of calls to cores of sixteen bytes, and the agent behind them. -/
def playedPlain (calls : List RenodeCall) :
    List (RenodeCall × RenodeReply) × RenodeSessions (CoralNpuTop Unit noCache) :=
  run (RenodeSessions.call plainCore fun _ => some (start () (fun _ => 0) 0)) calls .new

/-- Two cores, of which only one is written to. -/
theorem session_of_trace_two :
    let played := playedPlain [.construct 8, .construct 8, .on 0 (.writeMemory 4 [1, 2]),
      .on 1 (.readMemory 4 2), .on 0 (.readMemory 4 2)]
    Trace (SessionStep plainCore (fun _ => some (start () (fun _ => 0) 0)) 1) .unborn
      (played.1.filterMap (concerns 1)) (played.2.session 1) :=
  session_of_trace plainCore _ (trace_run _ _ _) (by decide) 1

/-- A core that was destroyed stays so, and turns every call down. -/
theorem trace_dead {core : RenodeCore σ} {create : CreateCoralNpuSim σ} {id : BitVec 32}
    {events : List SessionEvent} {t : RenodeSession σ}
    (h : Trace (SessionStep core create id) .dead events t) :
    ∀ e ∈ events, ∃ request, e = .request request request.missing := by
  generalize hdead : RenodeSession.dead = start at h
  induction h with
  | nil s => exact fun e he => absurd he List.not_mem_nil
  | cons hstep _ ih =>
      subst hdead
      cases hstep with
      | late request =>
          intro e he
          rcases List.mem_cons.1 he with rfl | he
          · exact ⟨request, rfl⟩
          · exact ih rfl e he

/-- **A number that was destroyed is dead for good**: every later call that names it is turned down,
and no construction gives it again. -/
theorem missing_of_destroyed (core : RenodeCore σ) (create : CreateCoralNpuSim σ)
    {front back : List (RenodeCall × RenodeReply)} {a : RenodeSessions σ} {id : BitVec 32}
    (h : Trace (machine (RenodeSessions.call core create)) .new
      (front ++ (.on id .destruct, .code 0) :: back) a)
    (hfew : constructions (front ++ (.on id .destruct, .code 0) :: back) < 2 ^ 32 - 1) :
    (∀ request reply, (.on id request, reply) ∈ back → reply = request.missing) ∧
      ∀ maxNameLength reply, (.construct maxNameLength, reply) ∈ back →
        reply.result = -1 ∨ reply.result ≠ id.toInt := by
  have hlife := h.project (RenodeSessions.call_projects core create id) (within_new hfew)
  have hown : concerns id (.on id .destruct, .code 0) = some (.request .destruct (.code 0)) :=
    if_pos rfl
  rw [List.filterMap_append, List.filterMap_cons_some hown] at hlife
  obtain ⟨t, -, hrest⟩ := hlife.of_append
  cases hrest with
  | cons hstep hback =>
      cases hstep with
      | performed hperform =>
          rw [RenodeRequest.perform] at hperform
          cases hperform
      | destroyed hperform =>
          have hlate := trace_dead hback
          refine ⟨fun request reply hmem => ?_, fun maxNameLength reply hmem => ?_⟩
          · obtain ⟨request', heq⟩ := hlate _ (List.mem_filterMap.2 ⟨_, hmem, if_pos rfl⟩)
            cases heq
            rfl
          · by_contra hboth
            rw [not_or, not_not] at hboth
            obtain ⟨request', heq⟩ := hlate _ (List.mem_filterMap.2 ⟨_, hmem, if_pos hboth.symm⟩)
            cases heq

/-- A core that is gone is not stepped. -/
theorem missing_of_destroyed_two :
    let back : List RenodeCall := [.construct 8, .on 0 (.step 1 true)]
    ∀ request reply,
      (.on 0 request, reply) ∈ (playedPlain (.construct 8 :: .on 0 .destruct :: back)).1.drop 2 →
        reply = request.missing := by
  intro back
  have hplayed : (playedPlain (.construct 8 :: .on 0 .destruct :: back)).1 =
      [(.construct 8, .code 0)] ++ (.on 0 .destruct, .code 0) ::
        (playedPlain (.construct 8 :: .on 0 .destruct :: back)).1.drop 2 := rfl
  have htrace :
      Trace (machine (RenodeSessions.call plainCore fun _ => some (start () (fun _ => 0) 0))) .new
      (playedPlain (.construct 8 :: .on 0 .destruct :: back)).1
      (playedPlain (.construct 8 :: .on 0 .destruct :: back)).2 := trace_run _ _ _
  rw [hplayed] at htrace
  exact (missing_of_destroyed plainCore _ htrace (by decide)).1

end CoralNpu
