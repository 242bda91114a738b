/-
**The transfer engine as software sees it.**

Software reaches the engine through loads and stores only.  This module follows the wrapper over
whole runs of them, from power on, and compares it with an engine that says what the registers are
for: it remembers the two words software stores, knows whether a transfer is done, and moves the
memory of a whole chain of descriptors at once.

Main definitions:

* `CoralNpu.BusEvent`, `CoralNpu.BusStep` — an access with what it reads, and an access of the
  wrapper;
* `CoralNpu.DmaEngine`, `CoralNpu.EngineStep` — the engine, and an access of it;
* `CoralNpu.DmaMemoryWrapper.Realizes` — the wrapper stands for the engine;
* `CoralNpu.BusEvent.starts`, `CoralNpu.lastStored` — what the accesses so far amount to.

Main results:

* `CoralNpu.transferChain_chain` — the loop of the engine works off the chain;
* `CoralNpu.busStep_realizes` — an access of the wrapper is one of the engine;
* `CoralNpu.engine_of_busTrace` — **so is every run**, and the registers read as the accesses before
  say: done once a transfer was started, and never busy.
-/

import CoralNpu.DmaMemory
import CoralNpu.Traces

set_option relaxedAutoImplicit false
set_option autoImplicit false

namespace CoralNpu

open FlatMemory Traces WordMemory

/-! ### Accesses -/

/-- An access of the bus, with what it reads. -/
inductive BusEvent where
  | load (address : Address) (db answer : ByteSpan)
  | store (address : Address) (db : ByteSpan)
  | loadElements {elSize : ℕ} (es : List (ElementAccess elSize)) (answer : List ByteSpan)
  | storeElements {elSize : ℕ} (es : List (ElementAccess elSize))

/-- An access of the wrapper.  A store that starts the engine is over when the engine is. -/
inductive BusStep (parent : ParentMemory) : DmaMemoryWrapper → BusEvent → DmaMemoryWrapper → Prop
  | load (s : DmaMemoryWrapper) (address : Address) (db : ByteSpan) :
      BusStep parent s (.load address db (s.load parent address db)) s
  | store {s s' : DmaMemoryWrapper} {address : Address} {db : ByteSpan} {fuel : ℕ}
      (h : DmaMemoryWrapper.store parent fuel s address db = some s') :
      BusStep parent s (.store address db) s'
  | loadElements (s : DmaMemoryWrapper) {elSize : ℕ} (es : List (ElementAccess elSize)) :
      BusStep parent s (.loadElements es (s.loadElements parent es)) s
  | storeElements (s : DmaMemoryWrapper) {elSize : ℕ} (es : List (ElementAccess elSize)) :
      BusStep parent s (.storeElements es) (s.storeElements parent es)

/-- The wrapper at power on. -/
def DmaMemoryWrapper.powerOn (memory : Memory) : DmaMemoryWrapper := ⟨memory, 0, 0, 0, 0, 0⟩

/-! ### The engine -/

/-- The engine: the words of the two registers that software stores, whether a transfer is done, and
the descriptor worked off last. -/
structure DmaEngine where
  memory : Memory
  control : BitVec 32
  descriptor : BitVec 32
  done : Bool
  current : BitVec 32

/-- The engine at power on. -/
def DmaEngine.off (memory : Memory) : DmaEngine := ⟨memory, 0, 0, false, 0⟩

/-- Working off one descriptor; the event is its address. -/
def descriptorStep (d : BitVec 32 × Memory) (e : BitVec 32) (d' : BitVec 32 × Memory) : Prop :=
  e = d.1 ∧ executeDescriptor d = some d'

/-- The address of a register. -/
def registerAddress (offset : BitVec 32) : Address := (kDmaBase + offset).setWidth 64

/-- The word of the control register starts a transfer. -/
def startsTransfer (control : BitVec 32) : Bool :=
  control &&& (kDmaCtrlEnable ||| kDmaCtrlStart) = kDmaCtrlEnable ||| kDmaCtrlStart

namespace DmaEngine

/-- What a load of a register reads: a load of one word reads the register, any other nothing. -/
def readRegister (t : DmaEngine) (address : Address) (db : ByteSpan) : ByteSpan :=
  if db.length ≠ 4 then db
  else if address = registerAddress kDmaCtrlOffset then ofUInt32 t.control
  else if address = registerAddress kDmaStatusOffset then
    ofUInt32 (if t.done then kDmaStatusDone else 0)
  else if address = registerAddress kDmaDescAddrOffset then ofUInt32 t.descriptor
  else if address = registerAddress kDmaCurDescOffset then ofUInt32 t.current
  else ofUInt32 0

/-- The accesses of the active elements, in order. -/
def storeElements {elSize : ℕ} (memory : Memory) (es : List (ElementAccess elSize)) : Memory :=
  es.foldl (fun memory e => if e.mask then write memory e.address e.data else memory) memory

end DmaEngine

/-- An access of the engine. -/
inductive EngineStep : DmaEngine → BusEvent → DmaEngine → Prop
  | loadRegister (t : DmaEngine) {address : Address} (db : ByteSpan)
    (h : isDmaAddress address = true) :
      EngineStep t (.load address db (t.readRegister address db)) t
  | loadMemory (t : DmaEngine) {address : Address} (db : ByteSpan)
    (h : isDmaAddress address = false) :
      EngineStep t (.load address db (read t.memory address db.length)) t
  | storeMemory (t : DmaEngine) {address : Address} (db : ByteSpan)
    (h : isDmaAddress address = false) :
      EngineStep t (.store address db) { t with memory := write t.memory address db }
  | ignored (t : DmaEngine) {address : Address} {db : ByteSpan} (h : isDmaAddress address = true)
      (hignored : db.length ≠ 4 ∨ (address ≠ registerAddress kDmaCtrlOffset ∧
        address ≠ registerAddress kDmaDescAddrOffset)) :
      EngineStep t (.store address db) t
  | setDescriptor (t : DmaEngine) {db : ByteSpan} (hword : db.length = 4) :
      EngineStep t (.store (registerAddress kDmaDescAddrOffset) db)
        { t with descriptor := getUInt32 db 0 }
  | setControl (t : DmaEngine) {db : ByteSpan} (hword : db.length = 4)
      (hidle : startsTransfer (getUInt32 db 0) = false) :
      EngineStep t (.store (registerAddress kDmaCtrlOffset) db) { t with control := getUInt32 db 0 }
  | transfer (t : DmaEngine) {db : ByteSpan} {chain : List (BitVec 32)} {memory : Memory}
      (hword : db.length = 4) (hstarts : startsTransfer (getUInt32 db 0) = true)
      (hchain : Trace descriptorStep (t.descriptor, t.memory) chain (0, memory)) :
      EngineStep t (.store (registerAddress kDmaCtrlOffset) db)
        { t with control := getUInt32 db 0, memory := memory, done := true,
                 current := chain.getLastD t.current }
  | loadElements (t : DmaEngine) {elSize : ℕ} (es : List (ElementAccess elSize)) :
      EngineStep t (.loadElements es
        (es.map fun e => if e.mask then read t.memory e.address elSize else e.data)) t
  | storeElements (t : DmaEngine) {elSize : ℕ} (es : List (ElementAccess elSize)) :
      EngineStep t (.storeElements es) { t with memory := DmaEngine.storeElements t.memory es }

/-! ### The registers -/

theorem toNat_registerAddress {offset : BitVec 32} (hoffset : offset.toNat < 0x14) :
    (registerAddress offset).toNat = 0x40050000 + offset.toNat := by
  have hbase : kDmaBase.toNat = 0x40050000 := rfl
  rw [registerAddress, BitVec.toNat_setWidth, BitVec.toNat_add, hbase]
  omega

theorem isDmaAddress_iff (address : Address) :
    isDmaAddress address = true ↔ 0x40050000 ≤ address.toNat ∧ address.toNat < 0x40050014 := by
  simp only [isDmaAddress, decide_eq_true_eq, ge_iff_le, BitVec.le_def, BitVec.lt_def]
  exact Iff.rfl

theorem isDmaAddress_registerAddress {offset : BitVec 32} (hoffset : offset.toNat < 0x14) :
    isDmaAddress (registerAddress offset) = true := by
  rw [isDmaAddress_iff, toNat_registerAddress hoffset]
  omega

/-- An address of the registers, by its offset. -/
theorem offset_eq_iff {address : Address} (h : isDmaAddress address = true) {offset : BitVec 32}
    (hoffset : offset.toNat < 0x14) :
    (address - kDmaBase.setWidth 64).setWidth 32 = offset ↔ address = registerAddress offset := by
  obtain ⟨hlow, hhigh⟩ := (isDmaAddress_iff address).1 h
  have hbase : (kDmaBase.setWidth 64).toNat = 0x40050000 := rfl
  have hdistance : ((address - kDmaBase.setWidth 64).setWidth 32).toNat =
      address.toNat - 0x40050000 := by
    rw [BitVec.toNat_setWidth, BitVec.toNat_sub, hbase]
    omega
  rw [← BitVec.toNat_inj, ← BitVec.toNat_inj, hdistance, toNat_registerAddress hoffset]
  omega

/-- The wrapper stands for the engine.  The status has the bit of a finished transfer and no
other. -/
structure DmaMemoryWrapper.Realizes (s : DmaMemoryWrapper) (t : DmaEngine) : Prop where
  memory : s.memory = t.memory
  control : s.dmaCtrl = t.control
  status : s.dmaStatus = if t.done then kDmaStatusDone else 0
  descriptor : s.dmaDescAddr = t.descriptor
  current : s.dmaCurDesc = t.current
  remain : s.dmaXferRemain = 0

/-- A load of a register reads what the engine's does. -/
theorem handleDmaRead_eq {s : DmaMemoryWrapper} {t : DmaEngine} (h : s.Realizes t)
    {address : Address} (hdma : isDmaAddress address = true) (db : ByteSpan) :
    s.handleDmaRead address db = t.readRegister address db := by
  rw [DmaMemoryWrapper.handleDmaRead, DmaEngine.readRegister, ite_not]
  by_cases hword : db.length = 4
  · simp only [if_pos hword, DmaMemoryWrapper.register,
      offset_eq_iff hdma (show kDmaCtrlOffset.toNat < 0x14 by decide),
      offset_eq_iff hdma (show kDmaStatusOffset.toNat < 0x14 by decide),
      offset_eq_iff hdma (show kDmaDescAddrOffset.toNat < 0x14 by decide),
      offset_eq_iff hdma (show kDmaCurDescOffset.toNat < 0x14 by decide), h.control, h.status,
      h.descriptor, h.current, h.remain, ite_self]
    split
    · rfl
    · split
      · rfl
      · split
        · rfl
        · split <;> rfl
  · rw [if_neg hword, if_neg hword]

/-! ### A transfer -/

section Transfer

variable (parent : ParentMemory)

/-- **The loop works off the chain**, and leaves the registers but the current descriptor alone. -/
theorem transferChain_chain {fuel : ℕ} {descAddr : BitVec 32} {s s' : DmaMemoryWrapper}
    (h : DmaMemoryWrapper.transferChain parent fuel descAddr s = some s') :
    ∃ chain, Trace descriptorStep (descAddr, s.memory) chain (0, s'.memory) ∧
      s' = { s with memory := s'.memory, dmaCurDesc := chain.getLastD s.dmaCurDesc } := by
  induction fuel generalizing descAddr s with
  | zero =>
      rw [DmaMemoryWrapper.transferChain] at h
      split at h
      · cases h
      · rename_i hzero
        cases h
        rw [not_not.1 hzero]
        exact ⟨[], .nil _, rfl⟩
  | succ fuel ih =>
      rw [DmaMemoryWrapper.transferChain] at h
      split at h
      · rename_i hne
        obtain ⟨chain, htrace, hs'⟩ := ih h
        refine ⟨descAddr :: chain,
          .cons ⟨rfl, DmaMemoryWrapper.executeDescriptor_eq parent hne s⟩ htrace, ?_⟩
        rw [List.getLastD_cons]
        exact hs'
      · rename_i hzero
        cases h
        rw [not_not.1 hzero]
        exact ⟨[], .nil _, rfl⟩

/-- Raising one bit of two and lowering the other, twice, leaves the second. -/
theorem status_finish (status : BitVec 32) (h : status = 0 ∨ status = kDmaStatusDone) :
    (((status ||| kDmaStatusBusy) &&& ~~~kDmaStatusDone) &&& ~~~kDmaStatusBusy) ||| kDmaStatusDone =
      kDmaStatusDone := by
  rcases h with rfl | rfl <;> rfl

theorem DmaMemoryWrapper.Realizes.status_cases {s : DmaMemoryWrapper} {t : DmaEngine}
    (h : s.Realizes t) : s.dmaStatus = 0 ∨ s.dmaStatus = kDmaStatusDone := by
  rw [h.status]
  split
  · exact .inr rfl
  · exact .inl rfl

/-- A start runs the engine to its end, which is one step of it. -/
theorem runDma_realizes {s s' : DmaMemoryWrapper} {t : DmaEngine} (h : s.Realizes t) {fuel : ℕ}
    {db : ByteSpan} (hword : db.length = 4) (hstarts : startsTransfer (getUInt32 db 0) = true)
    (hrun : DmaMemoryWrapper.runDma parent fuel { s with dmaCtrl := getUInt32 db 0 } = some s') :
    ∃ t', EngineStep t (.store (registerAddress kDmaCtrlOffset) db) t' ∧ s'.Realizes t' := by
  rw [DmaMemoryWrapper.runDma, Option.map_eq_some_iff] at hrun
  obtain ⟨r, hr, rfl⟩ := hrun
  obtain ⟨chain, htrace, hfields⟩ := transferChain_chain parent hr
  have hdone : r.dmaStatus = (s.dmaStatus ||| kDmaStatusBusy) &&& ~~~kDmaStatusDone :=
    congrArg DmaMemoryWrapper.dmaStatus hfields
  have htrace' : Trace descriptorStep (t.descriptor, t.memory) chain (0, r.memory) := by
    rw [← h.descriptor, ← h.memory]
    exact htrace
  refine ⟨_, .transfer t hword hstarts htrace', ?_, ?_, ?_, ?_, ?_, ?_⟩
  · rfl
  · exact congrArg DmaMemoryWrapper.dmaCtrl hfields
  · rw [DmaMemoryWrapper.finish, hdone]
    exact status_finish _ h.status_cases
  · exact (congrArg DmaMemoryWrapper.dmaDescAddr hfields).trans h.descriptor
  · refine (congrArg DmaMemoryWrapper.dmaCurDesc hfields).trans ?_
    rw [← h.current]
    rfl
  · exact (congrArg DmaMemoryWrapper.dmaXferRemain hfields).trans h.remain

/-- **A store that reaches a register is one of the engine.** -/
theorem handleDmaWrite_realizes {s s' : DmaMemoryWrapper} {t : DmaEngine}
    (h : s.Realizes t) {fuel : ℕ} {address : Address} {db : ByteSpan}
    (hdma : isDmaAddress address = true)
    (hstore : DmaMemoryWrapper.handleDmaWrite parent fuel s address db = some s') :
    ∃ t', EngineStep t (.store address db) t' ∧ s'.Realizes t' := by
  rw [DmaMemoryWrapper.handleDmaWrite] at hstore
  simp only [offset_eq_iff hdma (show kDmaCtrlOffset.toNat < 0x14 by decide),
    offset_eq_iff hdma (show kDmaDescAddrOffset.toNat < 0x14 by decide)] at hstore
  by_cases hword : db.length = 4
  · rw [if_pos hword] at hstore
    by_cases hctrl : address = registerAddress kDmaCtrlOffset
    · subst hctrl
      rw [if_pos rfl] at hstore
      split at hstore
      · rename_i hstarts
        exact runDma_realizes parent h hword (decide_eq_true hstarts) hstore
      · rename_i hidle
        cases hstore
        exact ⟨_, .setControl t hword (decide_eq_false hidle),
          ⟨h.memory, rfl, h.status, h.descriptor, h.current, h.remain⟩⟩
    · rw [if_neg hctrl] at hstore
      by_cases hdesc : address = registerAddress kDmaDescAddrOffset
      · subst hdesc
        rw [if_pos rfl] at hstore
        cases hstore
        exact ⟨_, .setDescriptor t hword, ⟨h.memory, h.control, h.status, rfl, h.current, h.remain⟩⟩
      · rw [if_neg hdesc] at hstore
        cases hstore
        exact ⟨t, .ignored t hdma (.inr ⟨hctrl, hdesc⟩), h⟩
  · rw [if_neg hword] at hstore
    cases hstore
    exact ⟨t, .ignored t hdma (.inl hword), h⟩

/-- **An access of the wrapper is one of the engine**, and reads the same. -/
theorem busStep_realizes {s s' : DmaMemoryWrapper} {t : DmaEngine} {e : BusEvent} (h : s.Realizes t)
    (hstep : BusStep parent s e s') : ∃ t', EngineStep t e t' ∧ s'.Realizes t' := by
  cases hstep with
  | load address db =>
      refine ⟨t, ?_, h⟩
      cases hdma : isDmaAddress address with
      | true =>
          rw [DmaMemoryWrapper.load, if_pos hdma, handleDmaRead_eq h hdma]
          exact .loadRegister t db hdma
      | false =>
          rw [DmaMemoryWrapper.load, if_neg (by rw [hdma]; decide), parent.load_eq, h.memory]
          exact .loadMemory t db hdma
  | @store _ address db fuel hstore =>
      rw [DmaMemoryWrapper.store] at hstore
      cases hdma : isDmaAddress address with
      | true =>
          rw [if_pos hdma] at hstore
          exact handleDmaWrite_realizes parent h hdma hstore
      | false =>
          rw [if_neg (by rw [hdma]; decide)] at hstore
          cases hstore
          refine ⟨_, .storeMemory t db hdma,
            ⟨?_, h.control, h.status, h.descriptor, h.current, h.remain⟩⟩
          rw [parent.store_eq, h.memory]
  | loadElements es =>
      refine ⟨t, ?_, h⟩
      rw [DmaMemoryWrapper.loadElements, parent.loadElements_eq]
      simp only [parent.load_eq, h.memory]
      exact .loadElements t es
  | storeElements es =>
      refine ⟨_, .storeElements t es, ⟨?_, h.control, h.status, h.descriptor, h.current, h.remain⟩⟩
      rw [DmaMemoryWrapper.storeElements, parent.storeElements_eq]
      simp only [parent.store_eq, h.memory]
      rfl

end Transfer

/-! ### The accesses so far -/

/-- The word that an access stores at an address, when it is a scalar store of one word. -/
def BusEvent.storedWord (address : Address) : BusEvent → Option (BitVec 32)
  | .store a db => if a = address ∧ db.length = 4 then some (getUInt32 db 0) else none
  | _ => none

/-- The word that was stored last at an address. -/
def lastStored (address : Address) (events : List BusEvent) : BitVec 32 :=
  events.foldl (fun word e => (e.storedWord address).getD word) 0

/-- The access starts a transfer. -/
def BusEvent.starts (e : BusEvent) : Bool :=
  (e.storedWord (registerAddress kDmaCtrlOffset)).any startsTransfer

/-- The engine remembers the accesses: the words stored last, and whether one started a transfer. -/
structure DmaEngine.Remembers (t : DmaEngine) (events : List BusEvent) : Prop where
  control : t.control = lastStored (registerAddress kDmaCtrlOffset) events
  descriptor : t.descriptor = lastStored (registerAddress kDmaDescAddrOffset) events
  done : t.done = events.any BusEvent.starts

theorem lastStored_concat (address : Address) (events : List BusEvent) (e : BusEvent) :
    lastStored address (events ++ [e]) =
      (e.storedWord address).getD (lastStored address events) := by
  rw [lastStored, List.foldl_append]
  rfl

theorem any_starts_concat (events : List BusEvent) (e : BusEvent) :
    (events ++ [e]).any BusEvent.starts = (events.any BusEvent.starts || e.starts) := by
  simp

/-- An access that stores no word in the two registers changes nothing of what is remembered. -/
theorem DmaEngine.Remembers.concat {t t' : DmaEngine} {events : List BusEvent}
    (h : t.Remembers events) {e : BusEvent}
    (hcontrol : t'.control = (e.storedWord (registerAddress kDmaCtrlOffset)).getD t.control)
    (hdescriptor : t'.descriptor =
      (e.storedWord (registerAddress kDmaDescAddrOffset)).getD t.descriptor)
    (hdone : t'.done = (t.done || e.starts)) : t'.Remembers (events ++ [e]) := by
  refine ⟨?_, ?_, ?_⟩
  · rw [lastStored_concat, hcontrol, h.control]
  · rw [lastStored_concat, hdescriptor, h.descriptor]
  · rw [any_starts_concat, hdone, h.done]

theorem storedWord_of_eq {address : Address} {db : ByteSpan} (hword : db.length = 4) :
    (BusEvent.store address db).storedWord address = some (getUInt32 db 0) := if_pos ⟨rfl, hword⟩

theorem storedWord_of_ne {address address' : Address} (db : ByteSpan) (h : address' ≠ address) :
    (BusEvent.store address' db).storedWord address = none := if_neg fun hboth => h hboth.1

theorem storedWord_of_memory {address : Address} (db : ByteSpan) (h : isDmaAddress address = false)
    {offset : BitVec 32} (hoffset : offset.toNat < 0x14) :
    (BusEvent.store address db).storedWord (registerAddress offset) = none := by
  refine storedWord_of_ne db fun heq => ?_
  rw [heq, isDmaAddress_registerAddress hoffset] at h
  cases h

theorem storedWord_of_length {address address' : Address} {db : ByteSpan} (h : db.length ≠ 4) :
    (BusEvent.store address' db).storedWord address = none := if_neg fun hboth => h hboth.2

/-- **An access of the engine is remembered.** -/
theorem remembers_engineStep {t t' : DmaEngine} {events : List BusEvent} {e : BusEvent}
    (h : t.Remembers events) (hstep : EngineStep t e t') : t'.Remembers (events ++ [e]) := by
  have hcross : registerAddress kDmaCtrlOffset ≠ registerAddress kDmaDescAddrOffset := by decide
  cases hstep with
  | loadRegister db hdma => exact h.concat rfl rfl (Bool.or_false _).symm
  | loadMemory db hdma => exact h.concat rfl rfl (Bool.or_false _).symm
  | @storeMemory address db hdma =>
      have hctrl := storedWord_of_memory db hdma (show kDmaCtrlOffset.toNat < 0x14 by decide)
      have hdesc := storedWord_of_memory db hdma (show kDmaDescAddrOffset.toNat < 0x14 by decide)
      refine h.concat (by rw [hctrl]; rfl) (by rw [hdesc]; rfl) ?_
      rw [BusEvent.starts, hctrl]
      exact (Bool.or_false _).symm
  | @ignored address db hdma hignored =>
      have hnone : (BusEvent.store address db).storedWord (registerAddress kDmaCtrlOffset) = none ∧
          (BusEvent.store address db).storedWord (registerAddress kDmaDescAddrOffset) = none := by
        rcases hignored with hword | ⟨hctrl, hdesc⟩
        · exact ⟨storedWord_of_length hword, storedWord_of_length hword⟩
        · exact ⟨storedWord_of_ne db hctrl, storedWord_of_ne db hdesc⟩
      refine h.concat (by rw [hnone.1]; rfl) (by rw [hnone.2]; rfl) ?_
      rw [BusEvent.starts, hnone.1]
      exact (Bool.or_false _).symm
  | @setDescriptor db hword =>
      have hctrl := storedWord_of_ne db hcross.symm
      refine h.concat (by rw [hctrl]; rfl) (by rw [storedWord_of_eq hword]; rfl) ?_
      rw [BusEvent.starts, hctrl]
      exact (Bool.or_false _).symm
  | @setControl db hword hidle =>
      refine h.concat (by rw [storedWord_of_eq hword]; rfl)
        (by rw [storedWord_of_ne db hcross]; rfl) ?_
      rw [BusEvent.starts, storedWord_of_eq hword, Option.any_some, hidle]
      exact (Bool.or_false _).symm
  | @transfer db chain memory hword hstarts hchain =>
      refine h.concat (by rw [storedWord_of_eq hword]; rfl)
        (by rw [storedWord_of_ne db hcross]; rfl) ?_
      rw [BusEvent.starts, storedWord_of_eq hword, Option.any_some, hstarts]
      exact (Bool.or_true _).symm
  | loadElements es => exact h.concat rfl rfl (Bool.or_false _).symm
  | storeElements es => exact h.concat rfl rfl (Bool.or_false _).symm

/-! ### Runs -/

theorem realizes_powerOn (memory : Memory) :
    (DmaMemoryWrapper.powerOn memory).Realizes (DmaEngine.off memory) :=
      ⟨rfl, rfl, rfl, rfl, rfl, rfl⟩

/-- The engine remembers the accesses of a run. -/
theorem remembers_of_trace {memory : Memory} {events : List BusEvent} {t : DmaEngine}
    (h : Trace EngineStep (.off memory) events t) : t.Remembers events :=
  h.history (I := fun past t => t.Remembers past) (fun _ _ _ _ => remembers_engineStep)
    ⟨rfl, rfl, rfl⟩

theorem exists_engine (parent : ParentMemory) {memory : Memory} {events : List BusEvent}
    {s : DmaMemoryWrapper} (h : Trace (BusStep parent) (.powerOn memory) events s) :
    ∃ t, Trace EngineStep (.off memory) events t ∧ s.Realizes t :=
  h.simulate (fun _ _ _ _ hst hstep => busStep_realizes parent hst hstep) (realizes_powerOn memory)

/-- **Every run of the wrapper is one of the engine**, whatever the accesses, and what the engine
remembers of them is what the registers hold. -/
theorem engine_of_busTrace (parent : ParentMemory) {memory : Memory} {events : List BusEvent}
    {s : DmaMemoryWrapper} (h : Trace (BusStep parent) (.powerOn memory) events s) :
    ∃ t, Trace EngineStep (.off memory) events t ∧ s.Realizes t ∧ t.Remembers events := by
  obtain ⟨t, htrace, hrealizes⟩ := exists_engine parent h
  exact ⟨t, htrace, hrealizes, remembers_of_trace htrace⟩

/-- A transfer with no descriptor, and a look at the status. -/
theorem engine_of_busTrace_start :
    let events : List BusEvent := [.store (registerAddress kDmaCtrlOffset) (ofUInt32 3),
      .load (registerAddress kDmaStatusOffset) (ofUInt32 0) (ofUInt32 kDmaStatusDone)]
    ∃ s, Trace (BusStep flatDemandMemory) (.powerOn fun _ => 0) events s ∧
      ∃ t, Trace EngineStep (.off fun _ => 0) events t ∧ s.Realizes t ∧ t.Remembers events := by
  intro events
  have htrace : Trace (BusStep flatDemandMemory) (.powerOn fun _ => 0) events
      ⟨fun _ => 0, 3, kDmaStatusDone, 0, 0, 0⟩ :=
    .cons (@BusStep.store _ _ _ _ _ 0 rfl) (.cons (.load _ _ _) (.nil _))
  exact ⟨_, htrace, engine_of_busTrace flatDemandMemory htrace⟩

/-- **What the status says in a run**: done once a transfer was started, never that one is under
way. -/
theorem statusLoad_of_busTrace (parent : ParentMemory) {memory : Memory}
    {front back : List BusEvent} {db answer : ByteSpan} {s : DmaMemoryWrapper}
    (hword : db.length = 4) (h : Trace (BusStep parent) (.powerOn memory)
      (front ++ .load (registerAddress kDmaStatusOffset) db answer :: back) s) :
    answer = ofUInt32 (if front.any BusEvent.starts then kDmaStatusDone else 0) := by
  obtain ⟨s', hfront, hrest⟩ := h.of_append
  obtain ⟨t, htrace, hrealizes⟩ := exists_engine parent hfront
  have hremembers := remembers_of_trace htrace
  cases hrest with
  | cons hload _ =>
      cases hload
      have hdma := isDmaAddress_registerAddress (show kDmaStatusOffset.toNat < 0x14 by decide)
      rw [DmaMemoryWrapper.load, if_pos hdma, handleDmaRead_eq hrealizes hdma,
        DmaEngine.readRegister, if_neg (not_not.2 hword), if_neg (by decide), if_pos rfl,
        hremembers.done]

/-- Done, once started with no descriptor. -/
theorem statusLoad_of_busTrace_start :
    ∃ s, Trace (BusStep flatDemandMemory) (.powerOn fun _ => 0)
      ([.store (registerAddress kDmaCtrlOffset) (ofUInt32 3)] ++
        [.load (registerAddress kDmaStatusOffset) (ofUInt32 0) (ofUInt32 kDmaStatusDone)]) s ∧
      ofUInt32 kDmaStatusDone = ofUInt32 (if [BusEvent.store (registerAddress kDmaCtrlOffset)
        (ofUInt32 3)].any BusEvent.starts then kDmaStatusDone else 0) := by
  have htrace : Trace (BusStep flatDemandMemory) (.powerOn fun _ => 0)
      ([.store (registerAddress kDmaCtrlOffset) (ofUInt32 3)] ++
        [.load (registerAddress kDmaStatusOffset) (ofUInt32 0) (ofUInt32 kDmaStatusDone)])
      ⟨fun _ => 0, 3, kDmaStatusDone, 0, 0, 0⟩ :=
    .cons (@BusStep.store _ _ _ _ _ 0 rfl) (.cons (.load _ _ _) (.nil _))
  exact ⟨_, htrace, statusLoad_of_busTrace flatDemandMemory rfl htrace⟩

end CoralNpu
