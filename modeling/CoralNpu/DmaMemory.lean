/-
**The memory of the hardware simulation and its transfer engine.**

The simulator puts a wrapper around its memory.  Five words of the address space are the registers
of an engine that copies ranges of the memory; all other accesses go to the memory itself.  A write
to the control register that starts the engine runs it to its end: it follows a chain of descriptors
in the memory, from the one the descriptor register names to a zero link.

The scalar accesses look for the registers, the accesses of lists of elements do not.

Main definitions:

* `CoralNpu.ParentMemory` — the memory of the simulator library, with what its documentation says of
  it;
* `CoralNpu.DmaMemoryWrapper`, `CoralNpu.runDma` — the wrapper and its engine;
* `CoralNpu.executeDescriptor` — one descriptor, as a step of a machine;
* `CoralNpu.RunDmaCorrect`, `CoralNpu.TreatsAlike` — the engine's task, and the accesses of elements
  as scalar ones.

Main results:

* `CoralNpu.DmaMemoryWrapper.transferChain_spec` — the engine's loop follows the chain of
  descriptors;
* `CoralNpu.runDma_correct_iff` — **the engine completes unless the chain comes back to where it
  was**;
* `CoralNpu.treatsAlike_iff` — **elements are accessed alike exactly outside the registers**.
-/

import CoralNpu.ActionPointMemory
import CoralNpu.FiniteRun
import CoralNpu.FlatMemory
import Mathlib.Data.Finite.Prod

set_option relaxedAutoImplicit false
set_option autoImplicit false

namespace CoralNpu

open FlatMemory FiniteRun WordMemory

/-! ### Buffers -/

/-- A buffer of bytes. -/
abbrev ByteSpan := List (BitVec 8)

/-- `db->Get<uint32_t>(k)`. -/
def getUInt32 (db : ByteSpan) (k : ℕ) : BitVec 32 :=
  db.getD (4 * k + 3) 0 ++ db.getD (4 * k + 2) 0 ++ db.getD (4 * k + 1) 0 ++ db.getD (4 * k) 0

/-- The bytes of a buffer of one word. -/
def ofUInt32 (val : BitVec 32) : ByteSpan := (List.range 4).map fun i => val.extractLsb' (8 * i) 8

/-- One element of the access of a list of elements: its address, its mask bit and its part of the
buffer. -/
structure ElementAccess (elSize : ℕ) where
  address : Address
  mask : Bool
  data : ByteSpan
  length_data : data.length = elSize

/-- The memory behind the wrapper: a flat memory, whose accesses of elements are scalar accesses of
the active ones, in order. -/
structure ParentMemory where
  load : Memory → Address → ℕ → ByteSpan
  store : Memory → Address → ByteSpan → Memory
  loadElements : {elSize : ℕ} → Memory → List (ElementAccess elSize) → List ByteSpan
  storeElements : {elSize : ℕ} → Memory → List (ElementAccess elSize) → Memory
  load_eq : ∀ memory address size, load memory address size = read memory address size
  store_eq : ∀ memory address db, store memory address db = write memory address db
  loadElements_eq : ∀ {elSize : ℕ} (memory : Memory) (es : List (ElementAccess elSize)),
    loadElements memory es = es.map fun e => if e.mask then load memory e.address elSize else e.data
  storeElements_eq : ∀ {elSize : ℕ} (memory : Memory) (es : List (ElementAccess elSize)),
    storeElements memory es =
      es.foldl (fun memory e => if e.mask then store memory e.address e.data else memory) memory

/-- The flat memory itself. -/
def flatDemandMemory : ParentMemory where
  load := read
  store := write
  loadElements {elSize} memory es :=
    es.map fun e => if e.mask then read memory e.address elSize else e.data
  storeElements memory es :=
    es.foldl (fun memory e => if e.mask then write memory e.address e.data else memory) memory
  load_eq _ _ _ := rfl
  store_eq _ _ _ := rfl
  loadElements_eq _ _ := rfl
  storeElements_eq _ _ := rfl

/-! ### The wrapper -/

/-- `kDmaBase`. -/
def kDmaBase : BitVec 32 := 0x40050000

/-- `kDmaRegsSize`: five registers. -/
def kDmaRegsSize : BitVec 32 := 0x14

/-- `kDmaCtrlOffset`. -/
def kDmaCtrlOffset : BitVec 32 := 0x00

/-- `kDmaStatusOffset`. -/
def kDmaStatusOffset : BitVec 32 := 0x04

/-- `kDmaDescAddrOffset`. -/
def kDmaDescAddrOffset : BitVec 32 := 0x08

/-- `kDmaCurDescOffset`. -/
def kDmaCurDescOffset : BitVec 32 := 0x0c

/-- `kDmaXferRemainOffset`. -/
def kDmaXferRemainOffset : BitVec 32 := 0x10

/-- `kDmaCtrlEnable`. -/
def kDmaCtrlEnable : BitVec 32 := 0x1

/-- `kDmaCtrlStart`. -/
def kDmaCtrlStart : BitVec 32 := 0x2

/-- `kDmaStatusBusy`. -/
def kDmaStatusBusy : BitVec 32 := 0x1

/-- `kDmaStatusDone`. -/
def kDmaStatusDone : BitVec 32 := 0x2

/-- `DmaMemoryWrapper`, with the contents of the memory behind it. -/
structure DmaMemoryWrapper where
  memory : Memory
  dmaCtrl : BitVec 32
  dmaStatus : BitVec 32
  dmaDescAddr : BitVec 32
  dmaCurDesc : BitVec 32
  dmaXferRemain : BitVec 32

/-- `IsDmaAddress`. -/
def isDmaAddress (addr : Address) : Bool :=
  addr ≥ kDmaBase.setWidth 64 ∧ addr < (kDmaBase + kDmaRegsSize).setWidth 64

namespace DmaMemoryWrapper

/-- The register at an offset; other offsets read as zero. -/
def register (s : DmaMemoryWrapper) (offset : BitVec 32) : BitVec 32 :=
  if offset = kDmaCtrlOffset then s.dmaCtrl
  else if offset = kDmaStatusOffset then s.dmaStatus
  else if offset = kDmaDescAddrOffset then s.dmaDescAddr
  else if offset = kDmaCurDescOffset then s.dmaCurDesc
  else if offset = kDmaXferRemainOffset then s.dmaXferRemain
  else 0

/-- `HandleDmaRead`: the buffer after it. -/
def handleDmaRead (s : DmaMemoryWrapper) (address : Address) (db : ByteSpan) : ByteSpan :=
  let offset := (address - kDmaBase.setWidth 64).setWidth 32
  let val := s.register offset
  if db.length = 4 then ofUInt32 val else db

section Parent

variable (parent : ParentMemory)

/-- The body of the loop of `RunDma`: the next link, and the state behind it. -/
def transfer (descAddr : BitVec 32) (s : DmaMemoryWrapper) : BitVec 32 × DmaMemoryWrapper :=
  let desc := parent.load s.memory (descAddr.setWidth 64) 32
  let srcAddr := getUInt32 desc 0
  let dstAddr := getUInt32 desc 1
  let lenFlags := getUInt32 desc 2
  let nextDesc := getUInt32 desc 3
  let xferLen := lenFlags &&& 0x00FFFFFF
  let memory :=
    if xferLen > 0 then
      parent.store s.memory (dstAddr.setWidth 64)
        (parent.load s.memory (srcAddr.setWidth 64) xferLen.toNat)
    else s.memory
  (nextDesc, { s with dmaCurDesc := descAddr, memory := memory })

/-- The loop of `RunDma`; `none` where the fuel does not suffice. -/
def transferChain : ℕ → BitVec 32 → DmaMemoryWrapper → Option DmaMemoryWrapper
  | 0, descAddr, s => if descAddr ≠ 0 then none else some s
  | fuel + 1, descAddr, s =>
      if descAddr ≠ 0 then
        transferChain fuel (transfer parent descAddr s).1 (transfer parent descAddr s).2
      else some s

/-- The state in which the loop starts. -/
def start (s : DmaMemoryWrapper) : DmaMemoryWrapper :=
  { s with dmaStatus := (s.dmaStatus ||| kDmaStatusBusy) &&& ~~~kDmaStatusDone }

/-- The state behind the loop. -/
def finish (s : DmaMemoryWrapper) : DmaMemoryWrapper :=
  { s with dmaStatus := (s.dmaStatus &&& ~~~kDmaStatusBusy) ||| kDmaStatusDone }

/-- `RunDma`. -/
def runDma (fuel : ℕ) (s : DmaMemoryWrapper) : Option DmaMemoryWrapper :=
  (transferChain parent fuel s.dmaDescAddr s.start).map finish

/-- `HandleDmaWrite`. -/
def handleDmaWrite (fuel : ℕ) (s : DmaMemoryWrapper) (address : Address) (db : ByteSpan) :
    Option DmaMemoryWrapper :=
  let offset := (address - kDmaBase.setWidth 64).setWidth 32
  if db.length = 4 then
    let val := getUInt32 db 0
    if offset = kDmaCtrlOffset then
      let s := { s with dmaCtrl := val }
      if s.dmaCtrl &&& (kDmaCtrlEnable ||| kDmaCtrlStart) = kDmaCtrlEnable ||| kDmaCtrlStart then
        runDma parent fuel s
      else some s
    else if offset = kDmaDescAddrOffset then some { s with dmaDescAddr := val }
    else some s
  else some s

/-- The scalar `Load`: the buffer after it. -/
def load (s : DmaMemoryWrapper) (address : Address) (db : ByteSpan) : ByteSpan :=
  if isDmaAddress address then s.handleDmaRead address db
  else parent.load s.memory address db.length

/-- The scalar `Store`. -/
def store (fuel : ℕ) (s : DmaMemoryWrapper) (address : Address) (db : ByteSpan) :
    Option DmaMemoryWrapper :=
  if isDmaAddress address then handleDmaWrite parent fuel s address db
  else some { s with memory := parent.store s.memory address db }

variable {elSize : ℕ}

/-- The `Load` of a list of elements: the parts of the buffer after it. -/
def loadElements (s : DmaMemoryWrapper) (es : List (ElementAccess elSize)) : List ByteSpan :=
  parent.loadElements s.memory es

/-- The `Store` of a list of elements. -/
def storeElements (s : DmaMemoryWrapper) (es : List (ElementAccess elSize)) : DmaMemoryWrapper :=
  { s with memory := parent.storeElements s.memory es }

end Parent

end DmaMemoryWrapper

/-! ### The chain of descriptors -/

/-- One descriptor, read as memory stands: the next link, and the memory with the source copied to
the destination.  There is no descriptor at zero. -/
def executeDescriptor : BitVec 32 × Memory → Option (BitVec 32 × Memory)
  | (descAddr, memory) =>
      let a : Address := descAddr.setWidth 64
      if descAddr = 0 then none
      else
        let len := ((loadWord memory (a + 8#64)).extractLsb' 0 24).toNat
        some (loadWord memory (a + 12#64),
          write memory ((loadWord memory (a + 4#64)).setWidth 64)
            (read memory ((loadWord memory a).setWidth 64) len))

/-- **The engine's task**: to complete, with the status that says so, and with the memory that the
descriptors of the chain make. -/
def RunDmaCorrect (parent : ParentMemory) (s : DmaMemoryWrapper) : Prop :=
  ∃ fuel s', DmaMemoryWrapper.runDma parent fuel s = some s' ∧
    s'.dmaStatus &&& kDmaStatusBusy = 0 ∧ s'.dmaStatus &&& kDmaStatusDone = kDmaStatusDone ∧
    FiniteRun.Completes executeDescriptor (s.dmaDescAddr, s.memory) (0, s'.memory)

theorem executeDescriptor_zero (memory : Memory) : executeDescriptor (0, memory) = none := rfl

/-- A word of a range that was read. -/
theorem getUInt32_read (memory : Memory) (a : Address) {n k : ℕ} (h : 4 * k + 4 ≤ n) :
    getUInt32 (read memory a n) k = loadWord memory (a + BitVec.ofNat 64 (4 * k)) := by
  have hbyte : ∀ i, i < n → (read memory a n).getD i 0 = memory (a + BitVec.ofNat 64 i) := by
    intro i hi
    rw [List.getD_eq_getElem _ _ (by rw [length_read]; exact hi), getElem_read]
  rw [getUInt32, hbyte _ (by omega), hbyte _ (by omega), hbyte _ (by omega), hbyte _ (by omega),
    loadWord, BitVec.add_assoc, BitVec.add_assoc, BitVec.add_assoc, ← BitVec.ofNat_add,
    ← BitVec.ofNat_add, ← BitVec.ofNat_add]

/-- The low 24 bits of a length word. -/
theorem toNat_low24 (x : BitVec 32) : (x &&& 0x00FFFFFF).toNat = (x.extractLsb' 0 24).toNat := by
  rw [BitVec.toNat_and, BitVec.extractLsb'_toNat, Nat.shiftRight_zero]
  exact Nat.and_two_pow_sub_one_eq_mod x.toNat 24

namespace DmaMemoryWrapper

variable (parent : ParentMemory)

/-- The memory behind a transfer. -/
theorem transfer_memory (descAddr : BitVec 32) (s : DmaMemoryWrapper) :
    (transfer parent descAddr s).2.memory =
      write s.memory ((loadWord s.memory (descAddr.setWidth 64 + 4#64)).setWidth 64)
        (read s.memory ((loadWord s.memory (descAddr.setWidth 64)).setWidth 64)
          ((loadWord s.memory (descAddr.setWidth 64 + 8#64)).extractLsb' 0 24).toNat) := by
  rw [transfer, parent.load_eq, getUInt32_read _ _ (by decide), getUInt32_read _ _ (by decide),
    getUInt32_read _ _ (by decide), getUInt32_read _ _ (by decide), parent.load_eq, parent.store_eq,
    toNat_low24]
  split
  · rw [Nat.mul_zero, BitVec.add_zero]
  · -- nothing to transfer
    rename_i hzero
    rw [gt_iff_lt, BitVec.lt_def, toNat_low24] at hzero
    have hlen : ((loadWord s.memory (descAddr.setWidth 64 + 8#64)).extractLsb' 0 24).toNat = 0 :=
      Nat.eq_zero_of_not_pos hzero
    rw [hlen, read_zero, write_nil]

/-- The link that a transfer follows. -/
theorem transfer_next (descAddr : BitVec 32) (s : DmaMemoryWrapper) :
    (transfer parent descAddr s).1 = loadWord s.memory (descAddr.setWidth 64 + 12#64) := by
  rw [transfer, parent.load_eq, getUInt32_read _ _ (by decide)]

@[simp] theorem transfer_status (descAddr : BitVec 32) (s : DmaMemoryWrapper) :
    (transfer parent descAddr s).2.dmaStatus = s.dmaStatus := rfl

/-- **A transfer executes the descriptor.** -/
theorem executeDescriptor_eq {descAddr : BitVec 32} (h : descAddr ≠ 0) (s : DmaMemoryWrapper) :
    executeDescriptor (descAddr, s.memory) =
      some ((transfer parent descAddr s).1, (transfer parent descAddr s).2.memory) := by
  rw [transfer_memory, transfer_next, executeDescriptor, if_neg h]

/-- The loop leaves the status alone, and ends with the chain. -/
theorem transferChain_spec {fuel : ℕ} {descAddr : BitVec 32} {s s' : DmaMemoryWrapper}
    (h : transferChain parent fuel descAddr s = some s') :
    s'.dmaStatus = s.dmaStatus ∧
      FiniteRun.Completes executeDescriptor (descAddr, s.memory) (0, s'.memory) := by
  induction fuel generalizing descAddr s with
  | zero =>
      rw [transferChain] at h
      split at h
      · cases h
      · rename_i hzero
        cases h
        rw [not_not] at hzero
        subst hzero
        exact ⟨rfl, .stop (executeDescriptor_zero _)⟩
  | succ fuel ih =>
      rw [transferChain] at h
      split at h
      · rename_i hne
        obtain ⟨hstatus, hrest⟩ := ih h
        exact ⟨hstatus, .next (executeDescriptor_eq parent hne s) hrest⟩
      · rename_i hzero
        cases h
        rw [not_not] at hzero
        subst hzero
        exact ⟨rfl, .stop (executeDescriptor_zero _)⟩

/-- The loop ends where the chain does. -/
theorem exists_transferChain {start stop : BitVec 32 × Memory}
    (h : FiniteRun.Completes executeDescriptor start stop) {descAddr : BitVec 32}
    {s : DmaMemoryWrapper} (hs : start = (descAddr, s.memory)) :
    ∃ fuel s', transferChain parent fuel descAddr s = some s' := by
  induction h generalizing descAddr s with
  | stop hstop =>
      refine ⟨0, s, ?_⟩
      rw [transferChain, if_neg]
      intro hne
      rw [hs, executeDescriptor_eq parent hne] at hstop
      cases hstop
  | next hstep _ ih =>
      rw [hs] at hstep
      have hne : descAddr ≠ 0 := by
        intro hzero
        rw [hzero, executeDescriptor_zero] at hstep
        cases hstep
      rw [executeDescriptor_eq parent hne] at hstep
      obtain ⟨fuel, s', hs'⟩ := ih (Option.some.inj hstep).symm
      refine ⟨fuel + 1, s', ?_⟩
      rw [transferChain, if_pos hne]
      exact hs'

end DmaMemoryWrapper

theorem finite_bitVec (w : ℕ) : Finite (BitVec w) :=
  Finite.of_injective BitVec.toFin fun _ _ h => BitVec.toFin_inj.1 h

/-- **When the engine does its task**: when the chain does not come back to a descriptor with the
memory as it was then. -/
theorem runDma_correct_iff (parent : ParentMemory) (s : DmaMemoryWrapper) :
    RunDmaCorrect parent s ↔ ¬ Repeats executeDescriptor (s.dmaDescAddr, s.memory) := by
  have haddress := finite_bitVec 64
  have hbyte := finite_bitVec 8
  have hlink := finite_bitVec 32
  rw [← completes_iff_not_repeats]
  constructor
  · rintro ⟨-, s', -, -, -, hchain⟩
    exact ⟨_, hchain⟩
  · rintro ⟨t, ht⟩
    obtain ⟨fuel, s', hs'⟩ := DmaMemoryWrapper.exists_transferChain parent ht (s := s.start) rfl
    obtain ⟨-, hchain⟩ := DmaMemoryWrapper.transferChain_spec parent hs'
    refine ⟨fuel, s'.finish, ?_, ?_, ?_, hchain⟩
    · rw [DmaMemoryWrapper.runDma, hs', Option.map_some]
    · rw [DmaMemoryWrapper.finish, kDmaStatusBusy, kDmaStatusDone]
      ext i hi
      simp
      grind
    · rw [DmaMemoryWrapper.finish, kDmaStatusBusy, kDmaStatusDone]
      ext i hi
      simp
      grind

/-- A memory whose descriptor at `0x1000` has nothing to transfer and links to itself. -/
def selfLink : Memory := fun a => if a = 0x100d then 0x10 else 0

/-- The engine goes round a descriptor that links to itself. -/
theorem not_runDmaCorrect_selfLink :
    ¬ RunDmaCorrect flatDemandMemory ⟨selfLink, 0, 0, 0x1000, 0, 0⟩ := by
  have hlink : loadWord selfLink (4096#64 + 12#64) = 0x1000 := by decide
  have hlen : ((loadWord selfLink (4096#64 + 8#64)).extractLsb' 0 24).toNat = 0 := by decide
  have hstep : executeDescriptor (0x1000, selfLink) = some (0x1000, selfLink) := by
    rw [executeDescriptor, if_neg (by decide)]
    simp only [BitVec.reduceSetWidth]
    rw [hlink, hlen, read_zero, write_nil]
  rintro ⟨-, s', -, -, -, hchain⟩
  have hrepeats : Repeats executeDescriptor (0x1000, selfLink) :=
    ⟨0, 1, _, Nat.zero_lt_one, rfl, by rw [after, hstep, Option.bind_some, after]⟩
  have haddress := finite_bitVec 64
  have hbyte := finite_bitVec 8
  have hword := finite_bitVec 32
  exact (completes_iff_not_repeats _).1 ⟨_, hchain⟩ hrepeats

/-! ### Accesses of elements -/

namespace ElementAccess

variable {elSize : ℕ}

/-- The address and the mask bit. -/
def access (e : ElementAccess elSize) : Address × Bool := (e.address, e.mask)

end ElementAccess

namespace DmaMemoryWrapper

variable (parent : ParentMemory) {elSize : ℕ}

/-- The scalar loads of the active elements. -/
def scalarLoads (s : DmaMemoryWrapper) (es : List (ElementAccess elSize)) : List ByteSpan :=
  es.map fun e => if e.mask then load parent s e.address e.data else e.data

/-- The scalar stores of the active elements, in order. -/
def scalarStores (fuel : ℕ) :
    List (ElementAccess elSize) → DmaMemoryWrapper → Option DmaMemoryWrapper
  | [], s => some s
  | e :: es, s =>
      if e.mask then (store parent fuel s e.address e.data).bind (scalarStores fuel es)
      else scalarStores fuel es s

end DmaMemoryWrapper

/-- **Accesses of elements like scalar ones**: whatever the state and the buffer, the loads and the
stores of the elements at these addresses, under this mask, are the scalar ones of the active
elements. -/
def TreatsAlike (parent : ParentMemory) (elSize : ℕ) (accesses : List (Address × Bool)) : Prop :=
  ∀ (s : DmaMemoryWrapper) (es : List (ElementAccess elSize)),
    es.map ElementAccess.access = accesses →
      s.loadElements parent es = s.scalarLoads parent es ∧
        ∃ fuel, DmaMemoryWrapper.scalarStores parent fuel es s = some (s.storeElements parent es)

/-- The access does not go to a register of the engine. -/
def AvoidsRegisters (elSize : ℕ) (access : Address × Bool) : Prop :=
  elSize = 0 ∨ access.2 = false ∨ isDmaAddress access.1 = false

namespace DmaMemoryWrapper

variable (parent : ParentMemory) {elSize : ℕ}

/-- Only an access of nothing can go to a register and avoid it. -/
theorem eq_zero_of_avoids {e : ElementAccess elSize} (hmask : e.mask = true)
    (hdma : isDmaAddress e.address = true) (h : AvoidsRegisters elSize e.access) : elSize = 0 := by
  rcases h with h | h | h
  · exact h
  · rw [ElementAccess.access, hmask] at h
    cases h
  · rw [ElementAccess.access, hdma] at h
    cases h

/-- A scalar load that does not go to a register. -/
theorem load_of_avoids (s : DmaMemoryWrapper) {e : ElementAccess elSize} (hmask : e.mask = true)
    (h : AvoidsRegisters elSize e.access) :
    load parent s e.address e.data = parent.load s.memory e.address elSize := by
  rw [load, e.length_data]
  split
  · rename_i hdma
    have hzero := eq_zero_of_avoids hmask hdma h
    subst hzero
    have hnil := List.eq_nil_of_length_eq_zero e.length_data
    rw [handleDmaRead, hnil, if_neg (by decide), parent.load_eq, read_zero]
  · rfl

/-- A scalar store that does not go to a register. -/
theorem store_of_avoids (s : DmaMemoryWrapper) {e : ElementAccess elSize} (hmask : e.mask = true)
    (h : AvoidsRegisters elSize e.access) (fuel : ℕ) :
    store parent fuel s e.address e.data =
      some { s with memory := parent.store s.memory e.address e.data } := by
  rw [store]
  split
  · rename_i hdma
    have hzero := eq_zero_of_avoids hmask hdma h
    subst hzero
    have hnil := List.eq_nil_of_length_eq_zero e.length_data
    rw [handleDmaWrite, hnil, if_neg (by decide), parent.store_eq, write_nil]
  · rfl

/-- The scalar stores of elements that do not go to a register. -/
theorem scalarStores_of_avoids (fuel : ℕ) (es : List (ElementAccess elSize)) (s : DmaMemoryWrapper)
    (h : ∀ e ∈ es, AvoidsRegisters elSize e.access) :
    scalarStores parent fuel es s = some (s.storeElements parent es) := by
  induction es generalizing s with
  | nil => rw [scalarStores, storeElements, parent.storeElements_eq, List.foldl_nil]
  | cons e es ih =>
      have hrest : ∀ e ∈ es, AvoidsRegisters elSize e.access := fun e he => h e (.tail _ he)
      rw [scalarStores, storeElements, parent.storeElements_eq, List.foldl_cons]
      split
      · rename_i hmask
        rw [store_of_avoids parent s hmask (h e List.mem_cons_self), Option.bind_some, ih _ hrest,
          storeElements, parent.storeElements_eq]
      · rw [ih _ hrest, storeElements, parent.storeElements_eq]

end DmaMemoryWrapper

/-- The elements at the addresses of some accesses, with zeros in the buffer. -/
def zeroElements (elSize : ℕ) (accesses : List (Address × Bool)) : List (ElementAccess elSize) :=
  accesses.map fun access => ⟨access.1, access.2, List.replicate elSize 0, List.length_replicate⟩

/-- An active element in a register is not loaded like a scalar. -/
theorem not_treatsAlike_of_mem (parent : ParentMemory) {elSize : ℕ}
    {accesses : List (Address × Bool)} {access : Address × Bool} (hmem : access ∈ accesses)
    (h : ¬ AvoidsRegisters elSize access) : ¬ TreatsAlike parent elSize accesses := by
  intro halike
  rw [AvoidsRegisters, not_or, not_or, Bool.not_eq_false, Bool.not_eq_false] at h
  obtain ⟨hpos, hmask, hdma⟩ := h
  -- the memory is full of ones, the registers and the buffer are zero
  obtain ⟨hload, -⟩ := halike ⟨fun _ => 0xff, 0, 0, 0, 0, 0⟩ (zeroElements elSize accesses)
    (by rw [zeroElements, List.map_map]; exact List.map_id _)
  rw [DmaMemoryWrapper.loadElements, parent.loadElements_eq, DmaMemoryWrapper.scalarLoads,
    List.map_inj_left] at hload
  have helement := hload ⟨access.1, access.2, List.replicate elSize 0, List.length_replicate⟩
    (List.mem_map_of_mem hmem)
  have hregister : DmaMemoryWrapper.handleDmaRead ⟨fun _ => 0xff, 0, 0, 0, 0, 0⟩ access.1
      (List.replicate elSize 0) = List.replicate elSize 0 := by
    rw [DmaMemoryWrapper.handleDmaRead, List.length_replicate]
    split
    · rename_i hfour
      rw [hfour, DmaMemoryWrapper.register]
      simp only [ite_self]
      decide
    · rfl
  rw [if_pos hmask, if_pos hmask, DmaMemoryWrapper.load, if_pos hdma, hregister, parent.load_eq]
    at helement
  have hfirst := congrArg (fun bytes => bytes.getD 0 0) helement
  obtain ⟨n, rfl⟩ := Nat.exists_eq_succ_of_ne_zero hpos
  simp [FlatMemory.read, List.range_succ_eq_map] at hfirst

/-- **When elements are accessed like scalars**: when no active one lies in the registers. -/
theorem treatsAlike_iff (parent : ParentMemory) (elSize : ℕ) (accesses : List (Address × Bool)) :
    TreatsAlike parent elSize accesses ↔ ∀ access ∈ accesses, AvoidsRegisters elSize access := by
  constructor
  · intro halike access hmem
    by_contra h
    exact not_treatsAlike_of_mem parent hmem h halike
  · intro h s es hes
    have havoids : ∀ e ∈ es, AvoidsRegisters elSize e.access := by
      intro e he
      exact h _ (hes ▸ List.mem_map_of_mem he)
    refine ⟨?_, 0, DmaMemoryWrapper.scalarStores_of_avoids parent 0 es s havoids⟩
    rw [DmaMemoryWrapper.loadElements, parent.loadElements_eq, DmaMemoryWrapper.scalarLoads]
    apply List.map_congr_left
    intro e he
    split
    · rename_i hmask
      rw [DmaMemoryWrapper.load_of_avoids parent s hmask (havoids e he)]
    · rfl

/-- The status and the descriptor register, read as two elements. -/
theorem not_treatsAlike_statusRegister :
    ¬ TreatsAlike flatDemandMemory 4 [(0x40050004, true), (0x40050008, true)] :=
  not_treatsAlike_of_mem flatDemandMemory List.mem_cons_self (by rw [AvoidsRegisters]; decide)

end CoralNpu
