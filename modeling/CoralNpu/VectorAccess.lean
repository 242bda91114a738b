/-
**Validation of strided vector accesses.**

Before a vector load or store runs, every element it accesses is checked against the memory
regions.  The check walks the elements one by one, skipping the masked-off ones; for strided
accesses a fast path first asks for the whole range at once, from the lowest to the highest byte
the access can touch, and only on failure does the walk run.  This module asks when the fast path
answers like the walk.

The range is handed to the permission check as a 32-bit size.  A range that fills the address space
has `2 ^ 32` bytes, which as a 32-bit size is zero, and a request for zero bytes at address zero is
granted by the first region there.  Everywhere else the fast path is sound.

Main definitions:

* `CoralNpu.hasRangePermission`, `CoralNpu.validateVectorAccess`,
  `CoralNpu.validateStridedVectorAccess` — the fast path, the walk, and their combination;
* `CoralNpu.ElementsPermitted` — the element-by-element definition of a permitted access;
* `CoralNpu.FillsAddressSpace` — the range of the access is all of the address space.

Main results:

* `CoralNpu.validateVectorAccess_fst_iff` — the walk decides `CoralNpu.ElementsPermitted`;
* `CoralNpu.hasRangePermission_sound` — an accepted range that does not fill the address space
  permits each of its elements;
* `CoralNpu.stridedAgrees_iff` — **exactly when** the validation agrees with the definition.
-/

import Mathlib.Tactic.Linarith
import Mathlib.Tactic.Ring
import CoralNpu.SimulatorState

set_option relaxedAutoImplicit false
set_option autoImplicit false

namespace CoralNpu

/-! ### The checks of the source -/

/-- `CheckVectorMask`: the mask bit of element `i`. -/
def checkVectorMask (srcMasks : ℕ → BitVec 8) (i : ℕ) : Bool :=
  ((srcMasks (i >>> 3) >>> (i &&& 0b111)) &&& 1) != 0

/-- `GetMaskData`: the mask bytes of a source operand, `none` for a negative source index. -/
def getMaskData (inst : Instruction) (s : CoralNPUV2State) (maskSourceIndex : ℤ) :
    Option (ℕ → BitVec 8) :=
  if maskSourceIndex < 0 then none
  else some ((inst.vectorSource maskSourceIndex.toNat).getRegister s 0)

/-- `CheckVectorAccess`: one element, with a trap when it is not permitted. -/
def checkVectorAccess (s : CoralNPUV2State) (inst : Instruction) (address : BitVec 32) (size : ℕ)
    (permission : MemoryPermission) : Bool × CoralNPUV2State :=
  if !s.hasPermission address (BitVec.ofNat 32 size) permission then
    let faultExceptionCode : ExceptionCode :=
      if permission = .read then .loadAccessFault else .storeAccessFault
    (false, s.trap false address faultExceptionCode inst.address)
  else
    (true, s)

/-- `HasRangePermission`: the fast path.  The `int64_t` arithmetic on the stride is exact here; it
overflows for no stride that comes from a 32-bit register. -/
def hasRangePermission (s : CoralNPUV2State) (base : BitVec 32) (stride elementCount : ℤ)
    (elementSize : ℕ) (permission : MemoryPermission) : Bool :=
  if elementCount ≤ 0 then true else
  let span : ℤ := (elementCount - 1) * stride
  if span < -4294967295 ∨ span > 4294967295 then false else
  let startAddr : BitVec 32 := base
  let endAddr : BitVec 32 := BitVec.ofInt 32 (base.toNat + span)
  if (span > 0 ∧ endAddr < startAddr) ∨ (span < 0 ∧ startAddr < endAddr) then false else
  let minAddr := if span ≥ 0 then startAddr else endAddr
  let maxAddr := if span ≥ 0 then endAddr else startAddr
  let rangeEnd : ℕ := maxAddr.toNat + elementSize
  if rangeEnd > 0x100000000 then false else
  s.hasPermission minAddr (BitVec.ofNat 32 (rangeEnd - minAddr.toNat)) permission

/-- The body of the loop of `ValidateVectorAccess`, over the element indices still to come. -/
def validateElements (srcMasks : Option (ℕ → BitVec 8))
    (validator : CoralNPUV2State → ℕ → Bool × CoralNPUV2State) :
    List ℕ → CoralNPUV2State → Bool × CoralNPUV2State
  | [], s => (true, s)
  | i :: is, s =>
      if srcMasks.any fun masks => !checkVectorMask masks i then
        validateElements srcMasks validator is s
      else
        match validator s i with
        | (false, s') => (false, s')
        | (true, s') => validateElements srcMasks validator is s'

/-- The first element index of an access. -/
def firstElement (s : CoralNPUV2State) (ignoreVstart : Bool) : ℕ :=
  if ignoreVstart then 0 else s.rvVector.vstart

/-- `ValidateVectorAccess`: the walk over the elements. -/
def validateVectorAccess (s : CoralNPUV2State) (inst : Instruction) (maskSourceIndex : ℤ)
    (elementCount : ℕ) (ignoreVstart : Bool)
    (validator : CoralNPUV2State → ℕ → Bool × CoralNPUV2State) : Bool × CoralNPUV2State :=
  let start := firstElement s ignoreVstart
  let srcMasks := getMaskData inst s maskSourceIndex
  validateElements srcMasks validator (List.range' start (elementCount - start)) s

/-- The address of element `i` of a strided access, as the 32-bit sum the source forms. -/
def elementAddress (base : BitVec 32) (stride : ℤ) (i : ℕ) : BitVec 32 :=
  BitVec.ofInt 32 (base.toNat + i * stride)

/-- `ValidateStridedVectorAccess`: the fast path, with the walk as a fallback. -/
def validateStridedVectorAccess (s : CoralNPUV2State) (inst : Instruction) (maskSourceIndex : ℤ)
    (elementCount : ℕ) (ignoreVstart : Bool) (base : BitVec 32) (stride : ℤ) (elementSize : ℕ)
    (permission : MemoryPermission)
    (validator : CoralNPUV2State → ℕ → Bool × CoralNPUV2State) : Bool × CoralNPUV2State :=
  let start := firstElement s ignoreVstart
  if start < elementCount ∧
      hasRangePermission s (elementAddress base stride start) stride (elementCount - start)
        elementSize permission = true then
    (true, s)
  else
    validateVectorAccess s inst maskSourceIndex elementCount ignoreVstart validator

/-- The validator the strided wrappers pass: one access of `elementSize` bytes an element. -/
def checkElement (inst : Instruction) (base : BitVec 32) (stride : ℤ) (elementSize : ℕ)
    (permission : MemoryPermission) (s : CoralNPUV2State) (i : ℕ) : Bool × CoralNPUV2State :=
  checkVectorAccess s inst (elementAddress base stride i) elementSize permission

/-! ### The walk -/

/-- Element `i` takes part in the access. -/
def ActiveElement (srcMasks : Option (ℕ → BitVec 8)) (i : ℕ) : Prop :=
  ∀ masks ∈ srcMasks, checkVectorMask masks i = true

instance (srcMasks : Option (ℕ → BitVec 8)) (i : ℕ) : Decidable (ActiveElement srcMasks i) :=
  decidable_of_iff (srcMasks.all fun masks => checkVectorMask masks i) <| by
    cases srcMasks <;> simp [ActiveElement]

theorem activeElement_iff {srcMasks : Option (ℕ → BitVec 8)} {i : ℕ} :
    ActiveElement srcMasks i ↔ ¬ (srcMasks.any fun masks => !checkVectorMask masks i) = true := by
  cases srcMasks <;> simp [ActiveElement]

/-- **The element-by-element definition**: every active element from `start` on is permitted. -/
def ElementsPermitted (s : CoralNPUV2State) (srcMasks : Option (ℕ → BitVec 8))
    (start elementCount : ℕ) (base : BitVec 32) (stride : ℤ) (elementSize : ℕ)
    (permission : MemoryPermission) : Prop :=
  ∀ i, start ≤ i → i < elementCount → ActiveElement srcMasks i →
    s.hasPermission (elementAddress base stride i) (BitVec.ofNat 32 elementSize) permission = true

theorem checkVectorAccess_of_permitted {s : CoralNPUV2State} {inst : Instruction}
    {address : BitVec 32} {size : ℕ} {permission : MemoryPermission}
    (h : s.hasPermission address (BitVec.ofNat 32 size) permission = true) :
    checkVectorAccess s inst address size permission = (true, s) := by
  simp [checkVectorAccess, h]

theorem checkVectorAccess_fst {s : CoralNPUV2State} {inst : Instruction}
    {address : BitVec 32} {size : ℕ} {permission : MemoryPermission} :
    (checkVectorAccess s inst address size permission).1 =
      s.hasPermission address (BitVec.ofNat 32 size) permission := by
  cases h : s.hasPermission address (BitVec.ofNat 32 size) permission <;>
    simp [checkVectorAccess, h]

/-- The walk over a list of elements accepts exactly when the validator accepts the active ones,
provided an accepting validator leaves the state alone. -/
theorem validateElements_fst_iff {srcMasks : Option (ℕ → BitVec 8)}
    {validator : CoralNPUV2State → ℕ → Bool × CoralNPUV2State} {s : CoralNPUV2State}
    (hval : ∀ i, (validator s i).1 = true → (validator s i).2 = s) (is : List ℕ) :
    (validateElements srcMasks validator is s).1 = true ↔
      ∀ i ∈ is, ActiveElement srcMasks i → (validator s i).1 = true := by
  induction is with
  | nil => simp [validateElements]
  | cons i is ih =>
      rw [validateElements, List.forall_mem_cons]
      by_cases hi : (srcMasks.any fun masks => !checkVectorMask masks i) = true
      · have hinactive : ¬ ActiveElement srcMasks i := fun h => activeElement_iff.1 h hi
        rw [if_pos hi, ih]
        simp [hinactive]
      · rw [if_neg hi]
        have hactive : ActiveElement srcMasks i := activeElement_iff.2 hi
        rcases hv : validator s i with ⟨ok, s'⟩
        cases ok with
        | false => simp [hactive]
        | true =>
            have hs' : s' = s := by simpa [hv] using hval i (by rw [hv])
            subst hs'
            simpa [hv, hactive] using ih

/-- **The walk decides the element-by-element definition.** -/
theorem validateVectorAccess_fst_iff (s : CoralNPUV2State) (inst : Instruction)
    (maskSourceIndex : ℤ) (elementCount : ℕ) (ignoreVstart : Bool) (base : BitVec 32) (stride : ℤ)
    (elementSize : ℕ) (permission : MemoryPermission) :
    (validateVectorAccess s inst maskSourceIndex elementCount ignoreVstart
        (checkElement inst base stride elementSize permission)).1 = true ↔
      ElementsPermitted s (getMaskData inst s maskSourceIndex) (firstElement s ignoreVstart)
        elementCount base stride elementSize permission := by
  have hval : ∀ i, (checkElement inst base stride elementSize permission s i).1 = true →
      (checkElement inst base stride elementSize permission s i).2 = s := by
    intro i hi
    rw [checkElement, checkVectorAccess_fst] at hi
    rw [checkElement, checkVectorAccess_of_permitted hi]
  rw [validateVectorAccess, validateElements_fst_iff hval]
  simp only [checkElement, checkVectorAccess_fst, ElementsPermitted, List.mem_range'_1]
  constructor
  · intro h i hlo hhi
    exact h i ⟨hlo, by omega⟩
  · rintro h i ⟨hlo, hhi⟩
    exact h i hlo (by omega)

/-! ### The fast path -/

/-- The lowest and the highest byte the access can touch are the first and the last byte of the
address space. -/
def FillsAddressSpace (start elementCount : ℕ) (base : BitVec 32) (stride : ℤ)
    (elementSize : ℕ) : Prop :=
  start < elementCount ∧
    let first : ℤ := (elementAddress base stride start).toNat
    let last : ℤ := first + (elementCount - 1 - start) * stride
    min first last = 0 ∧ max first last + elementSize = 2 ^ 32

instance (start elementCount : ℕ) (base : BitVec 32) (stride : ℤ) (elementSize : ℕ) :
    Decidable (FillsAddressSpace start elementCount base stride elementSize) := by
  unfold FillsAddressSpace; infer_instance

/-- The address of an element, counted from the first element of the access. -/
theorem elementAddress_add (base : BitVec 32) (stride : ℤ) (start k : ℕ) :
    elementAddress base stride (start + k) =
      BitVec.ofInt 32 ((elementAddress base stride start).toNat + k * stride) := by
  apply BitVec.eq_of_toNat_eq
  simp only [elementAddress, BitVec.toNat_ofInt]
  push_cast
  rw [add_mul]
  generalize (start : ℤ) * stride = x, (k : ℤ) * stride = y
  omega

/-- The elements of a strided access lie between its first and its last one. -/
theorem mul_stride_mem_hull (stride : ℤ) {k n : ℕ} (hk : k ≤ n) :
    min 0 (n * stride) ≤ k * stride ∧ k * stride ≤ max 0 (n * stride) := by
  have hkn : (k : ℤ) ≤ n := by exact_mod_cast hk
  rcases le_total 0 stride with h | h
  · constructor
    · exact le_trans (min_le_left _ _) (by positivity)
    · exact le_trans (mul_le_mul_of_nonneg_right hkn h) (le_max_right _ _)
  · constructor
    · exact le_trans (min_le_right _ _) (mul_le_mul_of_nonpos_right hkn h)
    · exact le_trans (mul_nonpos_of_nonneg_of_nonpos (by positivity) h) (le_max_left _ _)

/-- The fast path accepts when the range does not wrap, ends inside the address space, and is
permitted as one access of its size taken to 32 bits. -/
theorem hasRangePermission_iff (s : CoralNPUV2State) (base : BitVec 32) (stride : ℤ) {n : ℕ}
    (hn : 0 < n) (elementSize : ℕ) (permission : MemoryPermission) {last : ℤ}
    (hlast : last = base.toNat + ((n : ℤ) - 1) * stride) :
    hasRangePermission s base stride n elementSize permission = true ↔
      0 ≤ last ∧ last < 2 ^ 32 ∧ max (base.toNat : ℤ) last + elementSize ≤ 2 ^ 32 ∧
        s.hasPermission (BitVec.ofInt 32 (min (base.toNat : ℤ) last))
          (BitVec.ofInt 32 (max (base.toNat : ℤ) last + elementSize - min (base.toNat : ℤ) last))
          permission = true := by
  have hbase : base.toNat < 2 ^ 32 := base.isLt
  rw [hasRangePermission, if_neg (by omega)]
  simp only [← hlast]
  generalize hspan : ((n : ℤ) - 1) * stride = span at hlast ⊢
  by_cases hbound : span < -4294967295 ∨ span > 4294967295
  · rw [if_pos hbound]
    simp only [Bool.false_eq_true, false_iff, not_and]
    omega
  rw [if_neg hbound]
  have hend : ((BitVec.ofInt 32 last).toNat : ℤ) = last % 2 ^ 32 := by
    rw [BitVec.toNat_ofInt]; omega
  by_cases hwrap : (span > 0 ∧ BitVec.ofInt 32 last < base) ∨
      (span < 0 ∧ base < BitVec.ofInt 32 last)
  · rw [if_pos hwrap]
    simp only [BitVec.lt_def] at hwrap
    simp only [Bool.false_eq_true, false_iff, not_and]
    omega
  rw [if_neg hwrap]
  simp only [BitVec.lt_def] at hwrap
  have hlo : 0 ≤ last := by omega
  have hhi : last < 2 ^ 32 := by omega
  have hexact : ((BitVec.ofInt 32 last).toNat : ℤ) = last := by omega
  -- the two ends of the range, by the sign of the span
  have hmin : (if span ≥ 0 then base else BitVec.ofInt 32 last) =
      BitVec.ofInt 32 (min (base.toNat : ℤ) last) := by
    split
    · rw [min_eq_left (by omega)]; simp
    · rw [min_eq_right (by omega)]
  have hmax : (((if span ≥ 0 then BitVec.ofInt 32 last else base).toNat : ℕ) : ℤ) =
      max (base.toNat : ℤ) last := by
    split
    · rw [hexact, max_eq_right (by omega)]
    · rw [max_eq_left (by omega)]
  have hminNat : ((BitVec.ofInt 32 (min (base.toNat : ℤ) last)).toNat : ℤ) =
      min (base.toNat : ℤ) last := by
    rw [BitVec.toNat_ofInt]; omega
  rw [hmin]
  generalize hM : (if span ≥ 0 then BitVec.ofInt 32 last else base).toNat = M at hmax ⊢
  by_cases hfit : M + elementSize > 0x100000000
  · rw [if_pos hfit]
    simp only [Bool.false_eq_true, false_iff, not_and]
    omega
  · rw [if_neg hfit]
    have hsub : ((M + elementSize - (BitVec.ofInt 32 (min (base.toNat : ℤ) last)).toNat : ℕ) : ℤ) =
        max (base.toNat : ℤ) last + elementSize - min (base.toNat : ℤ) last := by
      omega
    rw [← hsub, BitVec.ofInt_natCast]
    constructor
    · exact fun h => ⟨hlo, hhi, by omega, h⟩
    · exact fun h => h.2.2.2

/-- **An accepted range permits every piece of every element**, unless it fills the address
space. -/
theorem hasRangePermission_sound {s : CoralNPUV2State} {permission : MemoryPermission}
    (hagree : RegionsAgree s.memoryRegions permission) {start elementCount : ℕ}
    {base : BitVec 32} {stride : ℤ} {elementSize : ℕ} (hstart : start < elementCount)
    (hfill : ¬ FillsAddressSpace start elementCount base stride elementSize)
    (h : hasRangePermission s (elementAddress base stride start) stride (elementCount - start)
      elementSize permission = true)
    {i : ℕ} (hlo : start ≤ i) (hhi : i < elementCount) {offset size : ℕ} (hsize : 0 < size)
    (hoffset : offset + size ≤ elementSize) :
    s.hasPermission (elementAddress base stride i + BitVec.ofNat 32 offset) (BitVec.ofNat 32 size)
      permission = true := by
  obtain ⟨k, rfl⟩ : ∃ k, i = start + k := ⟨i - start, by omega⟩
  obtain ⟨n, rfl⟩ : ∃ n, elementCount = start + n + 1 := ⟨elementCount - start - 1, by omega⟩
  -- the last element, counted from the first
  have hcount : ((start + n + 1 : ℕ) : ℤ) - start = ((n + 1 : ℕ) : ℤ) := by push_cast; ring
  have hlastEq : ((n + 1 : ℕ) : ℤ) - 1 = n := by push_cast; ring
  rw [hcount, hasRangePermission_iff s _ stride (Nat.succ_pos n) elementSize permission rfl,
    hlastEq] at h
  have hk : k ≤ n := by omega
  obtain ⟨hkmin, hkmax⟩ := mul_stride_mem_hull stride hk
  rw [elementAddress_add]
  have hfill' : ¬ (min ((elementAddress base stride start).toNat : ℤ)
      ((elementAddress base stride start).toNat + n * stride) = 0 ∧
      max ((elementAddress base stride start).toNat : ℤ)
        ((elementAddress base stride start).toNat + n * stride) + elementSize = 2 ^ 32) := by
    intro hf
    refine hfill ⟨hstart, ?_⟩
    have hn : ((start + n + 1 : ℕ) : ℤ) - 1 - start = n := by push_cast; ring
    simpa only [hn] using hf
  generalize elementAddress base stride start = first at h hfill' ⊢
  generalize (n : ℤ) * stride = span at h hkmin hkmax hfill'
  generalize (k : ℤ) * stride = d at hkmin hkmax ⊢
  obtain ⟨hlast0, hlast, hend, hperm⟩ := h
  have hfirst : first.toNat < 2 ^ 32 := first.isLt
  have haddr : (BitVec.ofInt 32 (first.toNat + d) + BitVec.ofNat 32 offset).toNat =
      first.toNat + d + offset := by
    rw [BitVec.toNat_add, BitVec.toNat_ofInt, BitVec.toNat_ofNat]
    omega
  have hlow : ((BitVec.ofInt 32 (min (first.toNat : ℤ) (first.toNat + span))).toNat : ℤ) =
      min (first.toNat : ℤ) (first.toNat + span) := by
    rw [BitVec.toNat_ofInt]; omega
  -- the range is shorter than the address space, so its size survives the truncation
  have hrange : ((BitVec.ofInt 32 (max (first.toNat : ℤ) (first.toNat + span) + elementSize -
      min (first.toNat : ℤ) (first.toNat + span))).toNat : ℤ) =
      max (first.toNat : ℤ) (first.toNat + span) + elementSize -
        min (first.toNat : ℤ) (first.toNat + span) := by
    rw [BitVec.toNat_ofInt]; omega
  have hsizeNat : (BitVec.ofNat 32 size).toNat = size := by
    rw [BitVec.toNat_ofNat]; omega
  refine hasPermission_of_hull hagree hperm ?_ ?_ ?_ <;> omega

/-- A range that fills the address space is asked for as zero bytes at address zero. -/
theorem hasRangePermission_of_fills {s : CoralNPUV2State} {permission : MemoryPermission}
    {start elementCount : ℕ} {base : BitVec 32} {stride : ℤ} {elementSize : ℕ}
    (helem : 0 < elementSize)
    (hfill : FillsAddressSpace start elementCount base stride elementSize) :
    hasRangePermission s (elementAddress base stride start) stride (elementCount - start)
      elementSize permission = s.hasPermission 0 0 permission := by
  obtain ⟨hstart, hmin, hmax⟩ := hfill
  have hcount : (elementCount : ℤ) - start = ((elementCount - start : ℕ) : ℤ) := by omega
  have hlastEq : ((elementCount - start : ℕ) : ℤ) - 1 = (elementCount : ℤ) - 1 - start := by omega
  rw [Bool.eq_iff_iff, hcount,
    hasRangePermission_iff s _ stride (by omega) elementSize permission rfl, hlastEq, hmin]
  generalize ((elementCount : ℤ) - 1 - start) * stride = span at hmin hmax ⊢
  have hsize : BitVec.ofInt 32 (max ((elementAddress base stride start).toNat : ℤ)
      ((elementAddress base stride start).toNat + span) + elementSize - 0) = 0 := by
    rw [hmax]; rfl
  rw [hsize]
  constructor
  · exact fun h => h.2.2.2
  · exact fun h => ⟨by omega, by omega, by omega, h⟩

/-! ### The validation against the definition -/

/-- **The strided validation agrees with the element-by-element definition**: it lets the access
proceed exactly when every active element is permitted, and the fast path accepts nothing the walk
rejects. -/
def StridedAgrees (s : CoralNPUV2State) (inst : Instruction) (maskSourceIndex : ℤ)
    (elementCount : ℕ) (ignoreVstart : Bool) (base : BitVec 32) (stride : ℤ) (elementSize : ℕ)
    (permission : MemoryPermission) : Prop :=
  ((validateStridedVectorAccess s inst maskSourceIndex elementCount ignoreVstart base stride
      elementSize permission (checkElement inst base stride elementSize permission)).1 = true ↔
    ElementsPermitted s (getMaskData inst s maskSourceIndex) (firstElement s ignoreVstart)
      elementCount base stride elementSize permission) ∧
  (firstElement s ignoreVstart < elementCount →
    hasRangePermission s (elementAddress base stride (firstElement s ignoreVstart)) stride
      (elementCount - firstElement s ignoreVstart) elementSize permission = true →
    (validateVectorAccess s inst maskSourceIndex elementCount ignoreVstart
      (checkElement inst base stride elementSize permission)).1 = true)

/-- **Exactly when the validation is right.**  It goes wrong for the accesses whose range is the
whole address space, when zero bytes at address zero are granted although some active element is
not. -/
theorem stridedAgrees_iff (s : CoralNPUV2State) (inst : Instruction) (maskSourceIndex : ℤ)
    (elementCount : ℕ) (ignoreVstart : Bool) (base : BitVec 32) (stride : ℤ) (elementSize : ℕ)
    (permission : MemoryPermission)
    (hdisjoint : s.memoryRegions.Pairwise CoralNPUV2MemoryRegion.Disjoint)
    (helem : 0 < elementSize) :
    StridedAgrees s inst maskSourceIndex elementCount ignoreVstart base stride elementSize
        permission ↔
      ¬ (FillsAddressSpace (firstElement s ignoreVstart) elementCount base stride elementSize ∧
        s.hasPermission 0 0 permission = true ∧
        ¬ ElementsPermitted s (getMaskData inst s maskSourceIndex) (firstElement s ignoreVstart)
          elementCount base stride elementSize permission) := by
  have hwalk := validateVectorAccess_fst_iff s inst maskSourceIndex elementCount ignoreVstart base
    stride elementSize permission
  rw [StridedAgrees, validateStridedVectorAccess]
  simp only [hwalk]
  by_cases hfast : firstElement s ignoreVstart < elementCount ∧
      hasRangePermission s (elementAddress base stride (firstElement s ignoreVstart)) stride
        (elementCount - firstElement s ignoreVstart) elementSize permission = true
  · rw [if_pos hfast]
    by_cases hfill : FillsAddressSpace (firstElement s ignoreVstart) elementCount base stride
        elementSize
    · have hzero := hfast.2
      rw [hasRangePermission_of_fills helem hfill] at hzero
      constructor
      · rintro ⟨h, -⟩ ⟨-, -, hrefused⟩
        exact hrefused (h.1 rfl)
      · intro h
        have hall := by_contra fun hrefused => h ⟨hfill, hzero, hrefused⟩
        exact ⟨⟨fun _ => hall, fun _ => rfl⟩, fun _ _ => hall⟩
    · have hall : ElementsPermitted s (getMaskData inst s maskSourceIndex)
          (firstElement s ignoreVstart) elementCount base stride elementSize permission := by
        intro i hlo hhi _
        have hwhole : s.hasPermission (elementAddress base stride i + BitVec.ofNat 32 0)
            (BitVec.ofNat 32 elementSize) permission = true :=
          hasRangePermission_sound (regionsAgree_of_disjoint hdisjoint permission) hfast.1 hfill
            hfast.2 hlo hhi helem (by omega)
        simpa using hwhole
      simp [hfill, hall]
  · rw [if_neg hfast, hwalk]
    constructor
    · rintro - ⟨hfill, hzero, -⟩
      exact hfast ⟨hfill.1, by rw [hasRangePermission_of_fills helem hfill, hzero]⟩
    · exact fun _ => ⟨Iff.rfl, fun hstart hrange => absurd ⟨hstart, hrange⟩ hfast⟩

/-- A word load of three elements `0x7FFFFFFE` apart, from address zero, touches the first and the
last byte of the address space; with the default regions it is let through, although its second
element lies in no region. -/
theorem not_stridedAgrees_fullRange :
    ¬ StridedAgrees (.create defaultMemoryRegions ⟨3, 0, 8, 4, 16⟩)
      ⟨0, fun _ => 0, fun _ => .allOnes⟩ 2 3 false 0 0x7FFFFFFE 4 .read := by
  intro h
  have hall := h.1.1 (by decide)
  have hsecond := hall 1 (by decide) (by decide) (by decide)
  exact absurd hsecond (by decide)

/-- A unit-stride load of four words from the data memory is validated as defined. -/
theorem stridedAgrees_dataMemory :
    StridedAgrees (.create defaultMemoryRegions ⟨4, 1, 8, 4, 16⟩)
      ⟨0, fun _ => 0, fun _ => .allOnes⟩ 2 4 false 0x10000 4 4 .read :=
  (stridedAgrees_iff (.create defaultMemoryRegions ⟨4, 1, 8, 4, 16⟩)
    ⟨0, fun _ => 0, fun _ => .allOnes⟩ 2 4 false 0x10000 4 4 .read
    (by simpa [CoralNPUV2State.create] using defaultMemoryRegions_disjoint) (by decide)).2
    fun h => absurd h.1 (by decide)

end CoralNpu
