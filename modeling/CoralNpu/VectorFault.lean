/-
**Precise and atomic faults of vector loads and stores.**

A vector load or store accesses a list of byte ranges in a fixed order: the active elements in
order, and inside a segment the fields in order.  The wrappers check ranges of this kind before
anything runs.  When all of them are permitted the library operation runs; otherwise exactly one
access fault is raised, at the first one refused, and neither memory nor a vector register changes.

The ranges checked differ from the elements and fields the instruction names in two places, both
deliberate.  Unit segments are checked as one access each, so a fault carries the address of the
segment; mask and whole-register accesses are checked from the first element whatever `vstart` is.

Main definitions:

* `CoralNpu.VectorShape`, `CoralNpu.VectorMemoryInstruction.shape` — the access shape of an
  instruction;
* `CoralNpu.VectorShape.fields`, `CoralNpu.VectorShape.checks` — the accesses of one element, field
  by field and as the wrappers check them;
* `CoralNpu.FaultsPrecisely` — precise and atomic faulting on a list of accesses.

Main results:

* `CoralNpu.validateStridedVectorAccess_eq` — with a sound fast path, the strided validation is the
  plain check of the access list;
* `CoralNpu.execute_faultsPrecisely` — every wrapper faults precisely on the accesses it checks.
-/

import CoralNpu.VectorMemory

set_option relaxedAutoImplicit false
set_option autoImplicit false

namespace CoralNpu

/-! ### Lists of accesses -/

/-- An access of `size` bytes. -/
structure VectorAccess where
  address : BitVec 32
  size : ℕ
  deriving DecidableEq, Repr

/-- The access has the permission. -/
def VectorAccess.Permitted (s : CoralNPUV2State) (permission : MemoryPermission)
    (access : VectorAccess) : Prop :=
  s.hasPermission access.address (BitVec.ofNat 32 access.size) permission = true

instance (s : CoralNPUV2State) (permission : MemoryPermission) (access : VectorAccess) :
    Decidable (access.Permitted s permission) :=
  inferInstanceAs (Decidable (_ = true))

/-- The fault of a load or of a store. -/
def accessFault (permission : MemoryPermission) : ExceptionCode :=
  if permission = .read then .loadAccessFault else .storeAccessFault

/-- Checking accesses in order, up to the first one refused. -/
def checkAccesses (inst : Instruction) (permission : MemoryPermission) :
    List VectorAccess → CoralNPUV2State → Bool × CoralNPUV2State
  | [], s => (true, s)
  | access :: accesses, s =>
      match checkVectorAccess s inst access.address access.size permission with
      | (false, s') => (false, s')
      | (true, s') => checkAccesses inst permission accesses s'

/-- **Precise and atomic faulting**: if every access is permitted the operation runs on the
unchanged state; at the first access refused one access fault is raised, with the address of that
access and of the instruction, and memory and vector registers stay as they were. -/
def FaultsPrecisely (s s' : CoralNPUV2State) (inst : Instruction) (permission : MemoryPermission)
    (operation : CoralNPUV2State → CoralNPUV2State) (accesses : List VectorAccess) : Prop :=
  ((∀ access ∈ accesses, access.Permitted s permission) → s' = operation s) ∧
  ∀ before access after, accesses = before ++ access :: after →
    (∀ earlier ∈ before, earlier.Permitted s permission) → ¬ access.Permitted s permission →
      s'.traps = s.traps ++ [⟨false, access.address, accessFault permission, inst.address⟩] ∧
      s'.memory = s.memory ∧ s'.vectorRegisters = s.vectorRegisters

section Check

variable {s : CoralNPUV2State} {inst : Instruction} {permission : MemoryPermission}

theorem checkVectorAccess_of_not_permitted {access : VectorAccess}
    (h : ¬ access.Permitted s permission) :
    checkVectorAccess s inst access.address access.size permission =
      (false, s.trap false access.address (accessFault permission) inst.address) := by
  rw [VectorAccess.Permitted, Bool.not_eq_true] at h
  simp [checkVectorAccess, h, accessFault]

theorem checkAccesses_cons_of_permitted {access : VectorAccess} {accesses : List VectorAccess}
    (h : access.Permitted s permission) :
    checkAccesses inst permission (access :: accesses) s =
      checkAccesses inst permission accesses s := by
  rw [checkAccesses, checkVectorAccess_of_permitted h]

theorem checkAccesses_cons_of_not_permitted {access : VectorAccess}
    {accesses : List VectorAccess} (h : ¬ access.Permitted s permission) :
    checkAccesses inst permission (access :: accesses) s =
      (false, s.trap false access.address (accessFault permission) inst.address) := by
  rw [checkAccesses, checkVectorAccess_of_not_permitted h]

theorem checkAccesses_of_permitted {accesses : List VectorAccess}
    (h : ∀ access ∈ accesses, access.Permitted s permission) :
    checkAccesses inst permission accesses s = (true, s) := by
  induction accesses with
  | nil => rfl
  | cons access accesses ih =>
      rw [List.forall_mem_cons] at h
      rw [checkAccesses_cons_of_permitted h.1, ih h.2]

/-- The first access refused is the one that faults. -/
theorem checkAccesses_of_first_refused {before after : List VectorAccess} {access : VectorAccess}
    (hbefore : ∀ earlier ∈ before, earlier.Permitted s permission)
    (h : ¬ access.Permitted s permission) :
    checkAccesses inst permission (before ++ access :: after) s =
      (false, s.trap false access.address (accessFault permission) inst.address) := by
  induction before with
  | nil => exact checkAccesses_cons_of_not_permitted h
  | cons earlier before ih =>
      rw [List.forall_mem_cons] at hbefore
      rw [List.cons_append, checkAccesses_cons_of_permitted hbefore.1, ih hbefore.2]

/-- A check of one list after another. -/
theorem checkAccesses_append (accesses accesses' : List VectorAccess) (s : CoralNPUV2State) :
    checkAccesses inst permission (accesses ++ accesses') s =
      match checkAccesses inst permission accesses s with
      | (false, s') => (false, s')
      | (true, s') => checkAccesses inst permission accesses' s' := by
  induction accesses generalizing s with
  | nil => rfl
  | cons access accesses ih =>
      rw [List.cons_append, checkAccesses, checkAccesses]
      rcases checkVectorAccess s inst access.address access.size permission with ⟨_ | _, s'⟩
      · rfl
      · exact ih s'

/-- **Checking the accesses in order before the operation is precise and atomic.** -/
theorem faultsPrecisely_onSuccess (operation : CoralNPUV2State → CoralNPUV2State)
    (accesses : List VectorAccess) :
    FaultsPrecisely s (onSuccess operation (checkAccesses inst permission accesses s)) inst
      permission operation accesses := by
  constructor
  · intro h
    rw [checkAccesses_of_permitted h, onSuccess]
  · rintro before access after rfl hbefore h
    rw [checkAccesses_of_first_refused hbefore h, onSuccess]
    exact ⟨rfl, rfl, rfl⟩

end Check

/-! ### The validations as checks of an access list -/

/-- The accesses of the active elements from `start` on, where element `i` makes `accesses i`. -/
def activeAccesses (srcMasks : Option (ℕ → BitVec 8)) (start elementCount : ℕ)
    (accesses : ℕ → List VectorAccess) : List VectorAccess :=
  ((List.range' start (elementCount - start)).filter (ActiveElement srcMasks ·)).flatMap accesses

theorem mem_activeAccesses {srcMasks : Option (ℕ → BitVec 8)} {start elementCount : ℕ}
    {accesses : ℕ → List VectorAccess} {access : VectorAccess} :
    access ∈ activeAccesses srcMasks start elementCount accesses ↔
      ∃ i, start ≤ i ∧ i < elementCount ∧ ActiveElement srcMasks i ∧ access ∈ accesses i := by
  simp only [activeAccesses, List.mem_flatMap, List.mem_filter, List.mem_range'_1,
    decide_eq_true_eq]
  constructor
  · rintro ⟨i, ⟨⟨hlo, hhi⟩, hi⟩, hmem⟩
    exact ⟨i, hlo, by omega, hi, hmem⟩
  · rintro ⟨i, hlo, hhi, hi, hmem⟩
    exact ⟨i, ⟨⟨hlo, by omega⟩, hi⟩, hmem⟩

section Validation

variable {inst : Instruction} {permission : MemoryPermission}

theorem validateElements_eq {srcMasks : Option (ℕ → BitVec 8)}
    {validator : CoralNPUV2State → ℕ → Bool × CoralNPUV2State} {accesses : ℕ → List VectorAccess}
    (hval : ∀ s i, validator s i = checkAccesses inst permission (accesses i) s) (is : List ℕ)
    (s : CoralNPUV2State) :
    validateElements srcMasks validator is s =
      checkAccesses inst permission
        ((is.filter (ActiveElement srcMasks ·)).flatMap accesses) s := by
  induction is generalizing s with
  | nil => rfl
  | cons i is ih =>
      rw [validateElements]
      by_cases hi : ActiveElement srcMasks i
      · rw [if_neg (activeElement_iff.1 hi), List.filter_cons_of_pos (by simpa using hi),
          List.flatMap_cons, checkAccesses_append, hval]
        rcases checkAccesses inst permission (accesses i) s with ⟨_ | _, s'⟩
        · rfl
        · exact ih s'
      · rw [if_pos (by_contra fun h => hi (activeElement_iff.2 h)),
          List.filter_cons_of_neg (by simpa using hi), ih]

/-- **The walk is the check of the access list.** -/
theorem validateVectorAccess_eq (s : CoralNPUV2State) {maskSourceIndex : ℤ} {elementCount : ℕ}
    {ignoreVstart : Bool} {validator : CoralNPUV2State → ℕ → Bool × CoralNPUV2State}
    {accesses : ℕ → List VectorAccess}
    (hval : ∀ s i, validator s i = checkAccesses inst permission (accesses i) s) :
    validateVectorAccess s inst maskSourceIndex elementCount ignoreVstart validator =
      checkAccesses inst permission (activeAccesses (getMaskData inst s maskSourceIndex)
        (firstElement s ignoreVstart) elementCount accesses) s :=
  validateElements_eq hval _ s

/-- The access is a non-empty piece of an element of `elementSize` bytes at `address`. -/
def VectorAccess.PieceOf (address : BitVec 32) (elementSize : ℕ) (access : VectorAccess) : Prop :=
  ∃ offset, access.address = address + BitVec.ofNat 32 offset ∧ 0 < access.size ∧
    offset + access.size ≤ elementSize

/-- **With a sound fast path, the strided validation is the check of the access list.** -/
theorem validateStridedVectorAccess_eq {s : CoralNPUV2State} {maskSourceIndex : ℤ}
    {elementCount : ℕ} {ignoreVstart : Bool} {base : BitVec 32} {stride : ℤ} {elementSize : ℕ}
    {validator : CoralNPUV2State → ℕ → Bool × CoralNPUV2State} {accesses : ℕ → List VectorAccess}
    (hagree : RegionsAgree s.memoryRegions permission)
    (hfill : ¬ FillsAddressSpace (firstElement s ignoreVstart) elementCount base stride elementSize)
    (hpiece : ∀ i, ∀ access ∈ accesses i, access.PieceOf (elementAddress base stride i) elementSize)
    (hval : ∀ s i, validator s i = checkAccesses inst permission (accesses i) s) :
    validateStridedVectorAccess s inst maskSourceIndex elementCount ignoreVstart base stride
        elementSize permission validator =
      checkAccesses inst permission (activeAccesses (getMaskData inst s maskSourceIndex)
        (firstElement s ignoreVstart) elementCount accesses) s := by
  rw [validateStridedVectorAccess]
  split
  · rename_i hfast
    refine (checkAccesses_of_permitted fun access hmem => ?_).symm
    obtain ⟨i, hlo, hhi, -, hmem⟩ := mem_activeAccesses.1 hmem
    obtain ⟨offset, haddress, hsize, hoffset⟩ := hpiece i access hmem
    rw [VectorAccess.Permitted, haddress]
    exact hasRangePermission_sound hagree hfast.1 hfill hfast.2 hlo hhi hsize hoffset
  · exact validateVectorAccess_eq s hval

/-- The fields of a segment, one access each. -/
def segmentFields (segmentAddress : BitVec 32) (numFields elementWidth : ℕ) : List VectorAccess :=
  (List.range numFields).map fun field => ⟨fieldAddress segmentAddress field elementWidth,
    elementWidth⟩

theorem checkFields_eq (segmentAddress : BitVec 32) (elementWidth : ℕ) (fields : List ℕ)
    (s : CoralNPUV2State) :
    checkFields inst segmentAddress elementWidth permission fields s =
      checkAccesses inst permission (fields.map fun field =>
        ⟨fieldAddress segmentAddress field elementWidth, elementWidth⟩) s := by
  induction fields generalizing s with
  | nil => rfl
  | cons field fields ih =>
      rw [List.map_cons, checkFields, checkAccesses]
      rcases checkVectorAccess s inst (fieldAddress segmentAddress field elementWidth) elementWidth
        permission with ⟨_ | _, s'⟩
      · rfl
      · exact ih s'

theorem pieceOf_of_mem_segmentFields {address : BitVec 32} {numFields elementWidth : ℕ}
    (hwidth : 0 < elementWidth) {access : VectorAccess}
    (h : access ∈ segmentFields address numFields elementWidth) :
    access.PieceOf address (numFields * elementWidth) := by
  obtain ⟨field, hfield, rfl⟩ := List.mem_map.1 h
  rw [List.mem_range] at hfield
  refine ⟨field * elementWidth, rfl, hwidth, ?_⟩
  calc field * elementWidth + elementWidth = (field + 1) * elementWidth := by ring
    _ ≤ numFields * elementWidth := Nat.mul_le_mul_right _ hfield

theorem pieceOf_self {address : BitVec 32} {elementSize : ℕ} (h : 0 < elementSize) :
    VectorAccess.PieceOf address elementSize ⟨address, elementSize⟩ :=
  ⟨0, by simp, h, by simp⟩

theorem checkVectorAccess_eq_checkAccesses (s : CoralNPUV2State) (address : BitVec 32) (size : ℕ) :
    checkVectorAccess s inst address size permission =
      checkAccesses inst permission [⟨address, size⟩] s := by
  rw [checkAccesses]
  rcases checkVectorAccess s inst address size permission with ⟨_ | _, s'⟩ <;> rfl

/-- The strided validation of elements that are accessed as a whole. -/
theorem validateStridedVectorAccess_checkElement {s : CoralNPUV2State} {maskSourceIndex : ℤ}
    {elementCount : ℕ} {ignoreVstart : Bool} {base : BitVec 32} {stride : ℤ} {elementSize : ℕ}
    (hagree : RegionsAgree s.memoryRegions permission)
    (hfill : ¬ FillsAddressSpace (firstElement s ignoreVstart) elementCount base stride elementSize)
    (hpos : 0 < elementSize) :
    validateStridedVectorAccess s inst maskSourceIndex elementCount ignoreVstart base stride
        elementSize permission (checkElement inst base stride elementSize permission) =
      checkAccesses inst permission (activeAccesses (getMaskData inst s maskSourceIndex)
        (firstElement s ignoreVstart) elementCount
        fun i => [⟨elementAddress base stride i, elementSize⟩]) s := by
  refine validateStridedVectorAccess_eq hagree hfill ?_ ?_
  · intro i access hmem
    rw [List.mem_singleton.1 hmem]
    exact pieceOf_self hpos
  · exact fun s i => checkVectorAccess_eq_checkAccesses s _ _

end Validation

/-! ### What an instruction accesses -/

/-- The access shapes, with the widths that matter for the accesses. -/
inductive VectorShape where
  | strided (elementWidth : ℕ+)
  | mask
  | register (numRegs : ℕ) (elementWidth : ℕ+)
  | indexed (indexWidth : ℕ+)
  | segment (elementWidth : ℕ+)
  | segmentStrided (elementWidth : ℕ+)
  | segmentIndexed (indexWidth : ℕ+)

namespace VectorMemoryInstruction

/-- The shape of an instruction. -/
def shape : VectorMemoryInstruction → VectorShape
  | vlStrided elementWidth | vsStrided elementWidth => .strided elementWidth
  | vlm | vsm => .mask
  | vlRegister numRegs elementWidth => .register numRegs elementWidth
  | vsRegister numRegs => .register numRegs 8
  | vlIndexed indexWidth | vsIndexed indexWidth => .indexed indexWidth
  | vlSegment elementWidth | vsSegment elementWidth => .segment elementWidth
  | vlSegmentStrided elementWidth | vsSegmentStrided elementWidth => .segmentStrided elementWidth
  | vlSegmentIndexed indexWidth | vsSegmentIndexed indexWidth => .segmentIndexed indexWidth

/-- Stores have the stored register as their first source. -/
def isStore : VectorMemoryInstruction → Bool
  | vlStrided _ | vlm | vlRegister _ _ | vlIndexed _ | vlSegment _ | vlSegmentStrided _
  | vlSegmentIndexed _ => false
  | vsStrided _ | vsm | vsRegister _ | vsIndexed _ | vsSegment _ | vsSegmentStrided _
  | vsSegmentIndexed _ => true

/-- The source operand the address operands start at. -/
def firstSource (instr : VectorMemoryInstruction) : ℕ := if instr.isStore then 1 else 0

/-- The permission the accesses need. -/
def permission (instr : VectorMemoryInstruction) : MemoryPermission :=
  if instr.isStore then .write else .read

end VectorMemoryInstruction

namespace VectorShape

variable (o : ℕ) (inst : Instruction) (s : CoralNPUV2State) (shape : VectorShape)

/-- The effective multiplier of a strided access is legal; the other shapes have no such check. -/
def Legal : VectorShape → Prop
  | strided elementWidth =>
      0 < effectiveMultiplier s elementWidth ∧ effectiveMultiplier s elementWidth ≤ kMaxEmul
  | _ => True

/-- The number of elements. -/
def elementCount : VectorShape → ℕ
  | mask => (s.rvVector.vectorLength + 7) / 8
  | register numRegs elementWidth => s.rvVector.vectorRegisterByteLength * numRegs / elementWidth
  | _ => s.rvVector.vectorLength

/-- The source of the mask bits, negative for an access without a mask. -/
def maskSource : VectorShape → ℤ
  | strided _ | indexed _ | segmentStrided _ | segmentIndexed _ => o + 2
  | segment _ => o + 1
  | mask | register _ _ => -1

/-- The source of the number of fields less one. -/
def nfSource : VectorShape → Option ℕ
  | segment _ => some (o + 2)
  | segmentStrided _ | segmentIndexed _ => some (o + 3)
  | _ => none

/-- The offset of element `i` of an indexed access. -/
def indexOffset (indexWidth i : ℕ) : BitVec 32 :=
  (getIndexValue (fun k => (inst.vectorSource (o + 1)).getRegister s k) i indexWidth
    (s.rvVector.vectorRegisterByteLength / indexWidth)).setWidth 32

/-- **The accesses of element `i`, field by field**: the bytes the instruction names. -/
def fields (i : ℕ) : VectorShape → List VectorAccess
  | strided elementWidth =>
      [⟨elementAddress (inst.base o) (inst.sourceInt64 (o + 1)) i, elementWidth⟩]
  | mask => [⟨elementAddress (inst.base o) 1 i, 1⟩]
  | register _ elementWidth => [⟨elementAddress (inst.base o) elementWidth i, elementWidth⟩]
  | indexed indexWidth =>
      [⟨inst.base o + indexOffset o inst s indexWidth i, s.rvVector.selectedElementWidth⟩]
  | segment elementWidth =>
      segmentFields (elementAddress (inst.base o)
        ((inst.numFields (o + 2) * elementWidth : ℕ) : ℤ) i) (inst.numFields (o + 2)) elementWidth
  | segmentStrided elementWidth =>
      segmentFields (elementAddress (inst.base o) (inst.sourceInt64 (o + 1)) i)
        (inst.numFields (o + 3)) elementWidth
  | segmentIndexed indexWidth =>
      segmentFields (inst.base o + indexOffset o inst s indexWidth i) (inst.numFields (o + 3))
        s.rvVector.selectedElementWidth

/-- The accesses of element `i` as they are checked: a unit segment is one access. -/
def checks (i : ℕ) : List VectorAccess :=
  match shape with
  | segment elementWidth =>
      [⟨elementAddress (inst.base o) ((inst.numFields (o + 2) * elementWidth : ℕ) : ℤ) i,
        inst.numFields (o + 2) * elementWidth⟩]
  | shape => shape.fields o inst s i

/-- Mask and whole-register accesses are checked from their first element on. -/
def ignoresVstart : VectorShape → Bool
  | mask | register _ _ => true
  | _ => false

/-- Base, stride and element size of the range tried first, for the shapes that try one. -/
def range : VectorShape → Option (BitVec 32 × ℤ × ℕ)
  | strided elementWidth => some (inst.base o, inst.sourceInt64 (o + 1), elementWidth)
  | mask => some (inst.base o, 1, 1)
  | register _ elementWidth => some (inst.base o, elementWidth, elementWidth)
  | segment elementWidth =>
      some (inst.base o, (inst.numFields (o + 2) * elementWidth : ℕ),
        inst.numFields (o + 2) * elementWidth)
  | segmentStrided elementWidth =>
      some (inst.base o, inst.sourceInt64 (o + 1), inst.numFields (o + 3) * elementWidth)
  | indexed _ | segmentIndexed _ => none

/-- The accesses of an instruction: every field of every active element at or past `vstart`. -/
def elementFields : List VectorAccess :=
  activeAccesses (getMaskData inst s (shape.maskSource o)) s.rvVector.vstart (shape.elementCount s)
    fun i => shape.fields o inst s i

/-- The accesses an instruction checks. -/
def checkedAccesses : List VectorAccess :=
  activeAccesses (getMaskData inst s (shape.maskSource o)) (firstElement s shape.ignoresVstart)
    (shape.elementCount s) fun i => shape.checks o inst s i

/-- The operand that counts the fields is not negative, as the encoding has it. -/
def FieldsEncoded : Prop :=
  ∀ source ∈ shape.nfSource o, 0 ≤ inst.sourceInt32 source

/-- Where a range is tried first, overlapping regions agree on the permission and the range is not
the whole address space. -/
def RangeSound (permission : MemoryPermission) : Prop :=
  ∀ base stride elementSize, shape.range o inst = some (base, stride, elementSize) →
    RegionsAgree s.memoryRegions permission ∧
      ¬ FillsAddressSpace (firstElement s shape.ignoresVstart) (shape.elementCount s) base stride
        elementSize

theorem checks_eq_fields {shape : VectorShape}
    (h : ∀ elementWidth, shape ≠ .segment elementWidth) (i : ℕ) :
    shape.checks o inst s i = shape.fields o inst s i := by
  cases shape with
  | segment elementWidth => exact absurd rfl (h elementWidth)
  | _ => rfl

/-- Outside unit segments, mask and whole-register accesses, what is checked is what is
accessed. -/
theorem checkedAccesses_eq_elementFields {shape : VectorShape}
    (hvstart : shape.ignoresVstart = false)
    (hsegment : ∀ elementWidth, shape ≠ .segment elementWidth) :
    shape.checkedAccesses o inst s = shape.elementFields o inst s := by
  simp only [checkedAccesses, elementFields, hvstart, checks_eq_fields o inst s hsegment,
    firstElement, Bool.false_eq_true, if_false]

end VectorShape

/-! ### The shapes fault precisely -/

section Shapes

variable {o : ℕ} {inst : Instruction} {s : CoralNPUV2State} {permission : MemoryPermission}

theorem numFields_pos {source : ℕ} (h : 0 ≤ inst.sourceInt32 source) :
    0 < inst.numFields source := by
  rw [Instruction.numFields]
  omega

theorem stridedAccess_eq {operation : ℕ → Instruction → CoralNPUV2State → CoralNPUV2State}
    {elementWidth : ℕ+} (hlegal : (VectorShape.strided elementWidth).Legal s)
    (hrange : (VectorShape.strided elementWidth).RangeSound o inst s permission) :
    stridedAccess o (o + 1) (o + 2) permission operation elementWidth inst s =
      onSuccess (operation elementWidth inst) (checkAccesses inst permission
        ((VectorShape.strided elementWidth).checkedAccesses o inst s) s) := by
  obtain ⟨hpos, hle⟩ := hlegal
  obtain ⟨hagree, hfill⟩ := hrange _ _ _ rfl
  rw [stridedAccess, if_neg (by omega)]
  exact congrArg (onSuccess _)
    (validateStridedVectorAccess_checkElement hagree hfill elementWidth.pos)

theorem maskAccess_eq {operation : Instruction → CoralNPUV2State → CoralNPUV2State}
    (hrange : VectorShape.mask.RangeSound o inst s permission) :
    maskAccess o permission operation inst s =
      onSuccess (operation inst) (checkAccesses inst permission
        (VectorShape.mask.checkedAccesses o inst s) s) := by
  obtain ⟨hagree, hfill⟩ := hrange _ _ _ rfl
  rw [maskAccess]
  exact congrArg (onSuccess _) (validateStridedVectorAccess_checkElement hagree hfill Nat.one_pos)

theorem registerAccess_eq {operation : Instruction → CoralNPUV2State → CoralNPUV2State}
    {numRegs : ℕ} (elementWidth : ℕ+)
    (hrange : (VectorShape.register numRegs elementWidth).RangeSound o inst s permission) :
    registerAccess o permission operation numRegs elementWidth inst s =
      onSuccess (operation inst) (checkAccesses inst permission
        ((VectorShape.register numRegs elementWidth).checkedAccesses o inst s) s) := by
  obtain ⟨hagree, hfill⟩ := hrange _ _ _ rfl
  rw [registerAccess]
  exact congrArg (onSuccess _)
    (validateStridedVectorAccess_checkElement hagree hfill elementWidth.pos)

theorem indexedAccess_eq {operation : ℕ → Instruction → CoralNPUV2State → CoralNPUV2State}
    {indexWidth : ℕ+} :
    indexedAccess o (o + 1) (o + 2) permission operation indexWidth inst s =
      onSuccess (operation indexWidth inst) (checkAccesses inst permission
        ((VectorShape.indexed indexWidth).checkedAccesses o inst s) s) := by
  rw [indexedAccess]
  refine congrArg (onSuccess _) ?_
  exact validateVectorAccess_eq s fun s i => checkVectorAccess_eq_checkAccesses s _ _

theorem segmentAccess_eq {operation : ℕ → Instruction → CoralNPUV2State → CoralNPUV2State}
    {elementWidth : ℕ+} (hfields : (VectorShape.segment elementWidth).FieldsEncoded o inst)
    (hrange : (VectorShape.segment elementWidth).RangeSound o inst s permission) :
    segmentAccess o (o + 1) (o + 2) permission operation elementWidth inst s =
      onSuccess (operation elementWidth inst) (checkAccesses inst permission
        ((VectorShape.segment elementWidth).checkedAccesses o inst s) s) := by
  obtain ⟨hagree, hfill⟩ := hrange _ _ _ rfl
  have hpos : 0 < inst.numFields (o + 2) * elementWidth :=
    Nat.mul_pos (numFields_pos (hfields _ rfl)) elementWidth.pos
  rw [segmentAccess]
  exact congrArg (onSuccess _) (validateStridedVectorAccess_checkElement hagree hfill hpos)

theorem segmentStridedAccess_eq {operation : ℕ → Instruction → CoralNPUV2State → CoralNPUV2State}
    {elementWidth : ℕ+}
    (hrange : (VectorShape.segmentStrided elementWidth).RangeSound o inst s permission) :
    segmentStridedAccess o (o + 1) (o + 2) (o + 3) permission operation elementWidth inst s =
      onSuccess (operation elementWidth inst) (checkAccesses inst permission
        ((VectorShape.segmentStrided elementWidth).checkedAccesses o inst s) s) := by
  obtain ⟨hagree, hfill⟩ := hrange _ _ _ rfl
  rw [segmentStridedAccess]
  refine congrArg (onSuccess _) ?_
  refine validateStridedVectorAccess_eq hagree hfill ?_ ?_
  · exact fun i access hmem => pieceOf_of_mem_segmentFields elementWidth.pos hmem
  · exact fun s i => checkFields_eq _ _ _ s

theorem segmentIndexedAccess_eq {operation : ℕ → Instruction → CoralNPUV2State → CoralNPUV2State}
    {indexWidth : ℕ+} :
    segmentIndexedAccess o (o + 1) (o + 2) (o + 3) permission operation indexWidth inst s =
      onSuccess (operation indexWidth inst) (checkAccesses inst permission
        ((VectorShape.segmentIndexed indexWidth).checkedAccesses o inst s) s) := by
  rw [segmentIndexedAccess]
  refine congrArg (onSuccess _) ?_
  exact validateVectorAccess_eq s fun s i => checkFields_eq _ _ _ s

end Shapes

/-! ### The wrappers fault precisely -/

namespace VectorMemoryInstruction

/-- The wrapper of an instruction checks its access list and then runs the operation. -/
theorem execute_eq (mpact : RiscVVectorMemory) (instr : VectorMemoryInstruction)
    (inst : Instruction) (s : CoralNPUV2State) (hlegal : instr.shape.Legal s)
    (hfields : instr.shape.FieldsEncoded instr.firstSource inst)
    (hrange : instr.shape.RangeSound instr.firstSource inst s instr.permission) :
    instr.execute mpact inst s = onSuccess (instr.operation mpact inst)
      (checkAccesses inst instr.permission
        (instr.shape.checkedAccesses instr.firstSource inst s) s) := by
  cases instr with
  | vlStrided elementWidth | vsStrided elementWidth => exact stridedAccess_eq hlegal hrange
  | vlm | vsm => exact maskAccess_eq hrange
  | vlRegister numRegs elementWidth => exact registerAccess_eq elementWidth hrange
  | vsRegister numRegs => exact registerAccess_eq 8 hrange
  | vlIndexed indexWidth | vsIndexed indexWidth => exact indexedAccess_eq
  | vlSegment elementWidth | vsSegment elementWidth => exact segmentAccess_eq hfields hrange
  | vlSegmentStrided elementWidth | vsSegmentStrided elementWidth =>
      exact segmentStridedAccess_eq hrange
  | vlSegmentIndexed indexWidth => exact segmentIndexedAccess_eq
  | vsSegmentIndexed indexWidth =>
      rw [execute, coralNPUV2VsSegmentIndexed_eq]
      exact segmentIndexedAccess_eq

end VectorMemoryInstruction

/-- **Every vector load and store faults precisely and atomically** on the accesses it checks, once
the multiplier check has passed; but for unit segments and for what ignores `vstart`, those are the
fields of its elements. -/
theorem execute_faultsPrecisely (mpact : RiscVVectorMemory) (instr : VectorMemoryInstruction)
    (inst : Instruction) (s : CoralNPUV2State) (hlegal : instr.shape.Legal s)
    (hfields : instr.shape.FieldsEncoded instr.firstSource inst)
    (hrange : instr.shape.RangeSound instr.firstSource inst s instr.permission) :
    FaultsPrecisely s (instr.execute mpact inst s) inst instr.permission
      (instr.operation mpact inst) (instr.shape.checkedAccesses instr.firstSource inst s) ∧
    (instr.shape.ignoresVstart = false → (∀ elementWidth, instr.shape ≠ .segment elementWidth) →
      instr.shape.checkedAccesses instr.firstSource inst s =
        instr.shape.elementFields instr.firstSource inst s) := by
  refine ⟨?_, instr.shape.checkedAccesses_eq_elementFields _ inst s⟩
  rw [instr.execute_eq mpact inst s hlegal hfields hrange]
  exact faultsPrecisely_onSuccess _ _

/-- Operations that change nothing, for instructions that fault before the operation. -/
def RiscVVectorMemory.idle : RiscVVectorMemory where
  vlStrided _ _ s := s
  vlm _ s := s
  vlRegister _ _ _ s := s
  vlIndexed _ _ s := s
  vlSegment _ _ s := s
  vlSegmentStrided _ _ s := s
  vlSegmentIndexed _ _ s := s
  vsStrided _ _ s := s
  vsm _ s := s
  vsRegister _ _ s := s
  vsIndexed _ _ s := s
  vsSegment _ _ s := s
  vsSegmentStrided _ _ s := s
  vsSegmentIndexed _ _ s := s

/-- A segment load of two words, one element, at the last word of the data memory. -/
def segmentAtBoundary : Instruction :=
  ⟨0x100, fun k => if k = 0 then 0x17FFC else 1, fun _ => .allOnes⟩

/-- The second field is the first one outside memory, and the fault carries the address of the
segment. -/
theorem not_faultsPrecisely_elementFields :
    ¬ FaultsPrecisely (.create defaultMemoryRegions ⟨1, 0, 8, 4, 16⟩)
      ((VectorMemoryInstruction.vlSegment 4).execute .idle segmentAtBoundary
        (.create defaultMemoryRegions ⟨1, 0, 8, 4, 16⟩))
      segmentAtBoundary .read (RiscVVectorMemory.idle.vlSegment 4 segmentAtBoundary)
      ((VectorShape.segment 4).elementFields 0 segmentAtBoundary
        (.create defaultMemoryRegions ⟨1, 0, 8, 4, 16⟩)) := by
  intro h
  have htraps := (h.2 [⟨0x17FFC, 4⟩] ⟨0x18000, 4⟩ [] (by decide) (by decide) (by decide)).1
  exact absurd htraps (by decide)

/-- A strided load whose second element lies past the data memory. -/
theorem execute_faultsPrecisely_strided :
    FaultsPrecisely (.create defaultMemoryRegions ⟨2, 0, 8, 4, 16⟩)
      ((VectorMemoryInstruction.vlStrided 4).execute .idle
        ⟨0x100, fun k => if k = 0 then 0x17FFC else 4, fun _ => .allOnes⟩
        (.create defaultMemoryRegions ⟨2, 0, 8, 4, 16⟩))
      ⟨0x100, fun k => if k = 0 then 0x17FFC else 4, fun _ => .allOnes⟩ .read
      (RiscVVectorMemory.idle.vlStrided 4
        ⟨0x100, fun k => if k = 0 then 0x17FFC else 4, fun _ => .allOnes⟩)
      ((VectorShape.strided 4).checkedAccesses 0
        ⟨0x100, fun k => if k = 0 then 0x17FFC else 4, fun _ => .allOnes⟩
        (.create defaultMemoryRegions ⟨2, 0, 8, 4, 16⟩)) := by
  refine (execute_faultsPrecisely .idle (.vlStrided 4)
    ⟨0x100, fun k => if k = 0 then 0x17FFC else 4, fun _ => .allOnes⟩
    (.create defaultMemoryRegions ⟨2, 0, 8, 4, 16⟩) ⟨by decide, by decide⟩
    (fun _ hsource => absurd hsource (Option.not_mem_none _)) ?_).1
  rintro base stride elementSize ⟨⟩
  refine ⟨regionsAgree_of_disjoint ?_ _, by decide⟩
  simpa [CoralNPUV2State.create] using defaultMemoryRegions_disjoint

end CoralNpu
