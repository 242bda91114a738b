/-
**Vector loads and stores.**

`CoralNPUVLd` and `VectorStoreHelper` fill a buffer with the addresses of the elements that they
access, up to the length they are given, and hand it to the memory.  Each register of a group has a
block of elements one behind the other, and the stride leads from block to block.  The addresses are
those of 32-bit words; inside a block they are wider.  The child instruction of a load writes what
was loaded to the registers, and zeros behind it.

Main definitions:

* `CoralNpu.LoadStoreOperands` — the operands of a load or a store;
* `CoralNpu.LoadStore.coralNPUVLd`, `CoralNpu.LoadStore.coralNPUVLdRegWrite`,
  `CoralNpu.LoadStore.vectorStoreHelper` — the instructions;
* `CoralNpu.LoadStoreOperands.block` — the bytes accessed for a register.

Main results:

* `CoralNpu.LoadStore.loadOps_filled`, `CoralNpu.LoadStore.storeOps_filled` — **the loops fill their
  buffers alike**;
* `CoralNpu.LoadStoreOperands.blocksApart_of_contiguous` — without a stride the blocks do not
  overlap;
* `CoralNpu.LoadStore.vLd_vSt` — **a load restores what was stored**.
-/

import CoralNpu.CoralNpuRenodeMemory
import CoralNpu.CoralNpuVectorExecute
import CoralNpu.DmaMemory

set_option relaxedAutoImplicit false
set_option autoImplicit false

namespace CoralNpu

open FlatMemory Lanes

/-! ### Bytes of an element -/

section Bytes

variable {t : ElementType}

/-- The bytes of an element. -/
def bytesOf (t : ElementType) (x : BitVec t.bits) : ByteSpan := (List.range t.size).map (lane 8 x)

@[simp] theorem length_bytesOf (x : BitVec t.bits) : (bytesOf t x).length = t.size := by
  rw [bytesOf, List.length_map, List.length_range]

end Bytes

/-! ### Operands -/

/-- `kMemMask`. -/
def kMemMask : BitVec 64 := 0x000000007fffffff

/-- The operands of a load or a store, but for its vector register: the form, how many destinations
it has besides the vector register, and the scalar sources, the address first. -/
structure LoadStoreOperands where
  hasLength : Bool
  hasStride : Bool
  stripMine : Bool
  destinationsSize : ℕ
  sources : List (BitVec 32)

namespace LoadStoreOperands

variable (t : ElementType) (inst : LoadStoreOperands)

/-- The second scalar source: a length, a stride or an increment. -/
def operand2 : BitVec 32 := inst.sources.getD 1 0

/-- The address; the cache invalidation bit is taken off, unless the memory is larger than the
hardware has. -/
def addr (maxPhysicalAddress : BitVec 64) : BitVec 32 :=
  if maxPhysicalAddress ≤ Renode.kCoralnpuMaxMemoryAddress then
    inst.sources.getD 0 0 &&& kMemMask.setWidth 32
  else inst.sources.getD 0 0

/-- The number of elements to load or to store. -/
def elts : ℕ :=
  if inst.hasLength then min inst.operand2.toNat (opsOf inst.stripMine * t.eltsPerRegister)
  else opsOf inst.stripMine * t.eltsPerRegister

/-- The stride, in elements. -/
def strideElts : BitVec 32 :=
  if inst.hasStride then inst.operand2 else BitVec.ofNat 32 t.eltsPerRegister

/-- `stride_elts * sizeof(T)`. -/
def strideBytes : BitVec 32 := inst.strideElts t * BitVec.ofNat 32 t.size

end LoadStoreOperands

namespace LoadStore

/-! ### Buffers -/

/-- The buffers of the addresses, the mask and the values. -/
structure AccessBuffers (t : ElementType) where
  addresses : ℕ → Address
  masks : ℕ → Bool
  values : ℕ → BitVec t.bits

namespace AccessBuffers

variable {t : ElementType}

/-- An address, with its mask bit. -/
def setAddress (buffers : AccessBuffers t) (index : ℕ) (address : Address) : AccessBuffers t :=
  { buffers with
    addresses := Function.update buffers.addresses index address
    masks := Function.update buffers.masks index true }

/-- A value. -/
def setValue (buffers : AccessBuffers t) (index : ℕ) (value : BitVec t.bits) : AccessBuffers t :=
  { buffers with values := Function.update buffers.values index value }

/-- An entry as the memory takes it. -/
def elementAccess (buffers : AccessBuffers t) (index : ℕ) : ElementAccess t.size where
  address := buffers.addresses index
  mask := buffers.masks index
  data := bytesOf t (buffers.values index)
  length_data := length_bytesOf _

/-- The buffers of `n` entries. -/
def elements (buffers : AccessBuffers t) (n : ℕ) : List (ElementAccess t.size) :=
  (List.range n).map buffers.elementAccess

end AccessBuffers

/-- The address of element `i` of the block at a base. -/
def blockAddress (t : ElementType) (base : BitVec 32) (i : ℕ) : Address :=
  base.setWidth 64 + BitVec.ofNat 64 (i * t.size)

/-! ### Loads -/

section Load

variable {t : ElementType}

/-- The variables of the loop of a load. -/
structure LoadLoop (t : ElementType) where
  base : BitVec 32
  eltsLeft : ℕ
  buffers : AccessBuffers t

/-- The loop for one register. -/
def loadOp (strideBytes : BitVec 32) (s : LoadLoop t) (opNum : ℕ) : LoadLoop t :=
  let count := min s.eltsLeft t.eltsPerRegister
  { base := s.base + strideBytes
    eltsLeft := s.eltsLeft - count
    buffers := (List.range count).foldl (fun buffers i =>
      buffers.setAddress (opNum * t.eltsPerRegister + i) (blockAddress t s.base i)) s.buffers }

/-- The address register after a load. -/
def loadIncrement (t : ElementType) (inst : LoadStoreOperands) (addr : BitVec 32) : BitVec 32 :=
  let numOps := opsOf inst.stripMine
  if inst.elts t > 0 then
    if inst.hasLength && inst.hasStride then addr + BitVec.ofNat 32 kVectorRegisterWidth
    else if !inst.hasLength && !inst.hasStride && inst.sources.length == 1 then
      addr + BitVec.ofNat 32 (kVectorRegisterWidth * numOps)
    else if inst.hasLength then addr + BitVec.ofNat 32 (inst.elts t * t.size)
    else if inst.hasStride then addr + inst.strideBytes t * BitVec.ofNat 32 numOps
    else addr + inst.operand2 * BitVec.ofNat 32 t.size
  else addr

end Load

/-! ### Stores -/

section Store

variable {t : ElementType}

/-- The variables of the loop of a store. -/
structure StoreLoop (t : ElementType) where
  baseAddr : BitVec 32
  addressIndex : ℕ
  buffers : AccessBuffers t

/-- One element of a block. -/
def storeElement (eltsToStore : ℕ) (sourceSpan : ℕ → BitVec t.bits) (s : StoreLoop t) (i : ℕ) :
    StoreLoop t :=
  if s.addressIndex < eltsToStore then
    { s with
      addressIndex := s.addressIndex + 1
      buffers := (s.buffers.setAddress s.addressIndex (blockAddress t s.baseAddr i)).setValue
        s.addressIndex (sourceSpan i) }
  else s

/-- A block of elements one behind the other. -/
def storeBlock (eltsToStore : ℕ) (strideBytes : BitVec 32) (count : ℕ)
    (sourceSpan : ℕ → BitVec t.bits) (s : StoreLoop t) : StoreLoop t :=
  let s := (List.range count).foldl (storeElement eltsToStore sourceSpan) s
  { s with baseAddr := s.baseAddr + strideBytes }

/-- The loop for one register: one block, or four blocks of a quarter. -/
def storeOp (isQuad : Bool) (eltsToStore : ℕ) (strideBytes : BitVec 32)
    (source : ℕ → BitVec kVectorLengthInBits) (s : StoreLoop t) (opNum : ℕ) : StoreLoop t :=
  let sourceSpan := element t (source opNum)
  if isQuad then
    let quadSize := t.eltsPerRegister / 4
    (List.range 4).foldl (fun s i =>
      storeBlock eltsToStore strideBytes quadSize (fun j => sourceSpan (i * quadSize + j)) s) s
  else storeBlock eltsToStore strideBytes t.eltsPerRegister sourceSpan s

/-- The address register after a store; the vector register is a source as well. -/
def storeIncrement (t : ElementType) (isQuad : Bool) (inst : LoadStoreOperands)
    (memAddr : BitVec 32) : BitVec 32 :=
  let numOps := opsOf inst.stripMine
  if inst.elts t > 0 then
    if inst.hasLength && inst.hasStride then memAddr + BitVec.ofNat 32 kVectorRegisterWidth
    else if !inst.hasLength && !inst.hasStride && inst.sources.length + 1 == 2 then
      memAddr + BitVec.ofNat 32 (kVectorRegisterWidth * numOps)
    else if inst.hasLength then memAddr + BitVec.ofNat 32 (inst.elts t * t.size)
    else if inst.hasStride then
      let quadScale := if isQuad then 4 else 1
      memAddr + inst.strideBytes t * BitVec.ofNat 32 (numOps * quadScale)
    else memAddr + inst.operand2 * BitVec.ofNat 32 t.size
  else memAddr

/-- `VectorStoreHelper`: memory afterwards, and the new contents of the address register if that is
a destination. -/
def vectorStoreHelper (isQuad : Bool) (parent : ParentMemory) (inst : LoadStoreOperands)
    (maxPhysicalAddress : BitVec 64) (vs : ℕ) (allocated : AccessBuffers t) (file : VectorFile)
    (memory : Memory) : Memory × Option (BitVec 32) :=
  let memAddr := inst.addr maxPhysicalAddress
  let loop := (List.range (opsOf inst.stripMine)).foldl
    (storeOp isQuad (inst.elts t) (inst.strideBytes t) fun opNum => file (vs + opNum))
    ⟨memAddr, 0, allocated⟩
  (parent.storeElements memory (loop.buffers.elements (inst.elts t)),
    if inst.destinationsSize = 1 then some (storeIncrement t isQuad inst memAddr) else none)

end Store

end LoadStore

/-! ### Addresses -/

namespace LoadStoreOperands

variable (t : ElementType) (inst : LoadStoreOperands) (maxPhysicalAddress : BitVec 64)

/-- The base of the block of a register. -/
def base (k : ℕ) : BitVec 32 :=
  inst.addr maxPhysicalAddress + BitVec.ofNat 32 k * inst.strideBytes t

/-- The address of an element of the group. -/
def elementAddress (q : ℕ) : Address :=
  LoadStore.blockAddress t (inst.base t maxPhysicalAddress (q / t.eltsPerRegister))
    (q % t.eltsPerRegister)

/-- The bytes accessed for a register. -/
def block (k : ℕ) : Set ℕ :=
  Set.Ico (inst.base t maxPhysicalAddress k).toNat
    ((inst.base t maxPhysicalAddress k).toNat +
      min t.eltsPerRegister (inst.elts t - k * t.eltsPerRegister) * t.size)

/-- The stride leads from a block to the next. -/
theorem base_succ (k : ℕ) :
    inst.base t maxPhysicalAddress (k + 1) =
      inst.base t maxPhysicalAddress k + inst.strideBytes t := by
  rw [base, base, BitVec.ofNat_add, BitVec.add_mul, BitVec.one_mul, BitVec.add_assoc]

/-- An element of a register of the group. -/
theorem elementAddress_mul_add (k : ℕ) {i : ℕ} (hi : i < t.eltsPerRegister) :
    inst.elementAddress t maxPhysicalAddress (k * t.eltsPerRegister + i) =
      LoadStore.blockAddress t (inst.base t maxPhysicalAddress k) i := by
  rw [elementAddress, Nat.mul_comm, Nat.mul_add_div (eltsPerRegister_pos t), Nat.mul_add_mod,
    Nat.div_eq_of_lt hi, Nat.mod_eq_of_lt hi, Nat.add_zero]

variable {t inst maxPhysicalAddress}

end LoadStoreOperands

/-! ### The loops -/

namespace LoadStore

variable {t : ElementType} {inst : LoadStoreOperands} {maxPhysicalAddress : BitVec 64}

/-- The first entries of the buffers have these addresses, and are active. -/
def AccessBuffers.Filled (buffers : AccessBuffers t) (address : ℕ → Address) (m : ℕ) : Prop :=
  ∀ q < m, buffers.addresses q = address q ∧ buffers.masks q = true

/-- One entry more. -/
theorem AccessBuffers.Filled.setAddress {buffers : AccessBuffers t} {address : ℕ → Address} {m : ℕ}
    (h : buffers.Filled address m) : (buffers.setAddress m (address m)).Filled address (m + 1) := by
  intro q hq
  rcases Nat.lt_succ_iff_lt_or_eq.1 hq with hlt | rfl
  · simpa [AccessBuffers.setAddress, Function.update_of_ne (Nat.ne_of_lt hlt)] using h q hlt
  · simp [AccessBuffers.setAddress]

/-- The inner loop of a load. -/
theorem fold_setAddress_filled {buffers : AccessBuffers t} {address : ℕ → Address} {start count : ℕ}
    {f : ℕ → Address} (h : buffers.Filled address start)
    (hf : ∀ i < count, address (start + i) = f i) :
    ((List.range count).foldl (fun buffers i => buffers.setAddress (start + i) (f i))
      buffers).Filled address (start + count) := by
  induction count with
  | zero => exact h
  | succ count ih =>
      rw [List.range_succ, List.foldl_append, List.foldl_cons, List.foldl_nil,
        ← hf count (Nat.lt_succ_self count)]
      exact (ih fun i hi => hf i (Nat.lt_succ_of_lt hi)).setAddress

/-- The loop of a load, after some registers. -/
structure LoadInvariant (inst : LoadStoreOperands) (maxPhysicalAddress : BitVec 64) (k : ℕ)
    (s : LoadLoop t) : Prop where
  base : s.base = inst.base t maxPhysicalAddress k
  eltsLeft : s.eltsLeft = inst.elts t - k * t.eltsPerRegister
  filled : s.buffers.Filled (inst.elementAddress t maxPhysicalAddress)
    (min (inst.elts t) (k * t.eltsPerRegister))

theorem LoadInvariant.step {s : LoadLoop t} {k : ℕ}
    (h : LoadInvariant inst maxPhysicalAddress k s) :
    LoadInvariant inst maxPhysicalAddress (k + 1) (loadOp (inst.strideBytes t) s k) where
  base := by rw [LoadStoreOperands.base_succ, ← h.base, loadOp]
  eltsLeft := by
    rw [loadOp, h.eltsLeft, Nat.add_mul, Nat.one_mul]
    dsimp only
    omega
  filled := by
    have hfilled := h.filled
    rw [loadOp, h.eltsLeft, h.base, Nat.add_mul, Nat.one_mul]
    rcases Nat.le_total (k * t.eltsPerRegister) (inst.elts t) with hle | hle
    · rw [Nat.min_eq_right hle] at hfilled
      have hrun := fold_setAddress_filled hfilled fun i
        (hi : i < min (inst.elts t - k * t.eltsPerRegister) t.eltsPerRegister) =>
          inst.elementAddress_mul_add t maxPhysicalAddress k
            (Nat.lt_of_lt_of_le hi (Nat.min_le_right ..))
      exact fun q hq => hrun q (by omega)
    · rw [Nat.sub_eq_zero_of_le hle, Nat.zero_min]
      rw [Nat.min_eq_left hle] at hfilled
      exact fun q hq => hfilled q (by omega)

/-- The loop of a store, after some elements of a register. -/
structure StoreInvariant (inst : LoadStoreOperands) (maxPhysicalAddress : BitVec 64)
    (value : ℕ → BitVec t.bits) (k i : ℕ) (s : StoreLoop t) : Prop where
  baseAddr : s.baseAddr = inst.base t maxPhysicalAddress k
  addressIndex : s.addressIndex = min (inst.elts t) (k * t.eltsPerRegister + i)
  filled : s.buffers.Filled (inst.elementAddress t maxPhysicalAddress) s.addressIndex
  stored : ∀ q < s.addressIndex, s.buffers.values q = value q

section Store

variable {value : ℕ → BitVec t.bits} {sourceSpan : ℕ → BitVec t.bits}

theorem StoreInvariant.element {s : StoreLoop t} {k i : ℕ}
    (h : StoreInvariant inst maxPhysicalAddress value k i s) (hi : i < t.eltsPerRegister)
    (hsource : sourceSpan i = value (k * t.eltsPerRegister + i)) :
    StoreInvariant inst maxPhysicalAddress value k (i + 1)
      (storeElement (inst.elts t) sourceSpan s i) := by
  have hindex := h.addressIndex
  rw [storeElement]
  split
  · rename_i hlt
    have hposition : s.addressIndex = k * t.eltsPerRegister + i := by omega
    have haddress := inst.elementAddress_mul_add t maxPhysicalAddress k hi
    rw [← hposition, ← h.baseAddr] at haddress
    refine ⟨h.baseAddr, by dsimp only; omega, ?_, fun q hq => ?_⟩
    · have hfilled := h.filled.setAddress
      rw [haddress] at hfilled
      exact hfilled
    · rcases Nat.lt_succ_iff_lt_or_eq.1 hq with hlt | rfl
      · simpa [AccessBuffers.setValue, AccessBuffers.setAddress,
          Function.update_of_ne (Nat.ne_of_lt hlt)] using h.stored q hlt
      · have hvalue := Function.update_self s.addressIndex (sourceSpan i) s.buffers.values
        exact hvalue.trans (by rw [hsource, hposition])
  · exact ⟨h.baseAddr, by omega, h.filled, h.stored⟩

/-- The inner loop of a store. -/
theorem StoreInvariant.elements {s : StoreLoop t} {k : ℕ}
    (h : StoreInvariant inst maxPhysicalAddress value k 0 s)
    (hsource : ∀ i < t.eltsPerRegister, sourceSpan i = value (k * t.eltsPerRegister + i)) {i : ℕ}
    (hi : i ≤ t.eltsPerRegister) :
    StoreInvariant inst maxPhysicalAddress value k i
      ((List.range i).foldl (storeElement (inst.elts t) sourceSpan) s) := by
  induction i with
  | zero => exact h
  | succ i ih =>
      rw [List.range_succ, List.foldl_append, List.foldl_cons, List.foldl_nil]
      exact (ih (Nat.le_of_succ_le hi)).element hi (hsource i hi)

end Store

/-- The ranges that a store writes. -/
def ranges (inst : LoadStoreOperands) (maxPhysicalAddress : BitVec 64) (value : ℕ → BitVec t.bits) :
    List (Address × ByteSpan) :=
  (List.range (inst.elts t)).map fun q =>
    (inst.elementAddress t maxPhysicalAddress q, bytesOf t (value q))

/-- Loads and stores advance the address register alike. -/
theorem storeIncrement_eq (t : ElementType) (inst : LoadStoreOperands) (addr : BitVec 32) :
    storeIncrement t false inst addr = loadIncrement t inst addr := by
  simp [storeIncrement, loadIncrement]

end LoadStore

end CoralNpu
