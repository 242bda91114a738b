/-
**The access check of the tile loads and stores.**

`vtle` and `vtse` move a row or a column of a tile, element by element.  Their wrappers ask for the
permission of the whole range at once.  A permission is one of a single region, so the range may be
refused where each of its elements is permitted; and the first region that holds an access decides
it, so an element may be refused where the range is permitted.  The empty range of an access without
elements is asked for as well.

Main definitions:

* `CoralNpu.TileState` — the simulator state with the tiles;
* `CoralNpu.coralNPUM4Vtle`, `CoralNpu.coralNPUM4Vtse` — the wrappers;
* `CoralNpu.TileFaultsExactly` — an access faults exactly when one of its elements is refused;
* `CoralNpu.EmptyAccessRefused`, `CoralNpu.ElementsSpread`, `CoralNpu.ElementHidden` — how it may
  not.

Main results:

* `CoralNpu.tileFaultsExactly_iff` — **the faults of the tile loads and stores are exact but for
  these three kinds of access**;
* `CoralNpu.tileFaultsExactly_iff_of_agree` — which they are where regions agree.
-/

import CoralNpu.CoralNpuScalarAccess

set_option relaxedAutoImplicit false
set_option autoImplicit false

namespace CoralNpu

open CodeImage (Word)
open CoralNPUV2MemoryRegion (grants)

/-! ### The wrappers -/

/-- The simulator state with the tile registers and how many elements a row or a column of a tile
has. -/
structure TileState extends CoralNPUV2State where
  tileElements : ℕ
  tiles : ℕ → ℕ → BitVec 8

/-- `Trap`. -/
def TileState.trap (s : TileState) (isInterrupt : Bool) (trapValue : Word)
    (exceptionCode : ExceptionCode) (epc : Word) : TileState :=
  { s with toCoralNPUV2State := s.toCoralNPUV2State.trap isInterrupt trapValue exceptionCode epc }

/-- The tile loads and stores of the simulator library: a load changes tiles, a store memory. -/
structure RiscVZvtLoadStore where
  riscVZvtVtle : ℕ → Instruction → TileState → TileState
  riscVZvtVtse : ℕ → Instruction → TileState → TileState
  riscVZvtVtle_eq : ∀ eewBits inst s,
    ∃ tiles, riscVZvtVtle eewBits inst s = { s with tiles := tiles }
  riscVZvtVtse_eq : ∀ eewBits inst s,
    ∃ memory, riscVZvtVtse eewBits inst s = { s with memory := memory }

/-- `TileSubsetCount`. -/
def tileSubsetCount (s : TileState) (tileElementWidth : ℕ) : ℕ :=
  let effectiveTileElements := if tileElementWidth < 64 then s.tileElements else s.tileElements / 2
  min s.rvVector.vectorLength effectiveTileElements

/-- A wrapper: the check of the range, and the function of the library. -/
def checkedTileAccess (permission : MemoryPermission) (fault : ExceptionCode)
    (operation : ℕ → Instruction → TileState → TileState) (eewBits : ℕ) (inst : Instruction)
    (s : TileState) : TileState :=
  let base := inst.sourceUInt64 0
  let elementSize := eewBits / 8
  let count := tileSubsetCount s eewBits
  if !s.hasPermission (base.setWidth 32) (BitVec.ofNat 32 (count * elementSize)) permission then
    s.trap false (base.setWidth 32) fault inst.address
  else
    operation eewBits inst s

/-- `CoralNPUM4Vtle`. -/
def coralNPUM4Vtle (mpact : RiscVZvtLoadStore) :=
  checkedTileAccess .read .loadAccessFault mpact.riscVZvtVtle

/-- `CoralNPUM4Vtse`. -/
def coralNPUM4Vtse (mpact : RiscVZvtLoadStore) :=
  checkedTileAccess .write .storeAccessFault mpact.riscVZvtVtse

/-- The tile loads and stores. -/
inductive TileMemoryOpcode where
  | vtle | vtse
  deriving DecidableEq

namespace TileMemoryOpcode

def permission : TileMemoryOpcode → MemoryPermission
  | vtle => .read
  | vtse => .write

def fault : TileMemoryOpcode → ExceptionCode
  | vtle => .loadAccessFault
  | vtse => .storeAccessFault

/-- The semantic functions, for an element width in bits. -/
def execute (mpact : RiscVZvtLoadStore) : TileMemoryOpcode → ℕ → Instruction → TileState → TileState
  | vtle => coralNPUM4Vtle mpact
  | vtse => coralNPUM4Vtse mpact

def operation (mpact : RiscVZvtLoadStore) :
    TileMemoryOpcode → ℕ → Instruction → TileState → TileState
  | vtle => mpact.riscVZvtVtle
  | vtse => mpact.riscVZvtVtse

end TileMemoryOpcode

/-! ### Elements and their range -/

section Elements

variable (regions : List CoralNPUV2MemoryRegion) (permission : MemoryPermission) (base : Word)
    (size count : ℕ)

/-- The address of element `i`. -/
def tileElementAddress (i : ℕ) : Word := base + BitVec.ofNat 32 (i * size)

/-- Element `i` is permitted. -/
def ElementPermitted (i : ℕ) : Prop :=
  hasPermission regions (tileElementAddress base size i) (BitVec.ofNat 32 size) permission = true

/-- The first region that holds an access. -/
abbrev Decides (address length : Word) (region : CoralNPUV2MemoryRegion) : Prop :=
  FirstMatch.Decides (·.contains address length) regions region

/-- No elements are accessed, at a base that no region decides with the permission. -/
def EmptyAccessRefused : Prop :=
  count = 0 ∧ ∀ region, Decides regions base 0 region → grants permission region = false

/-- The regions that decide the elements have the permission, and there is no such region for the
range. -/
structure ElementsSpread : Prop where
  two_le : 2 ≤ count
  elements : ∀ i < count, ∃ region,
    Decides regions (tileElementAddress base size i) (BitVec.ofNat 32 size) region ∧
    grants permission region = true
  range : ∀ region, Decides regions base (BitVec.ofNat 32 (count * size)) region →
    grants permission region = false

/-- The region that decides the range has the permission, and there is no such region for some
element. -/
structure ElementHidden : Prop where
  two_le : 2 ≤ count
  range : ∃ region, Decides regions base (BitVec.ofNat 32 (count * size)) region ∧
    grants permission region = true
  element : ∃ i < count, ∀ region,
    Decides regions (tileElementAddress base size i) (BitVec.ofNat 32 size) region →
    grants permission region = false

variable {regions permission base size count}

/-- An access is permitted if the region that decides it has the permission. -/
theorem hasPermission_iff_decides {address length : Word} :
    hasPermission regions address length permission = true ↔
    ∃ region, Decides regions address length region ∧ grants permission region = true := by
  rw [hasPermission_eq_decision, FirstMatch.decision_iff_decides]

theorem hasPermission_false_iff {address length : Word} :
    hasPermission regions address length permission = false ↔
      ∀ region, Decides regions address length region → grants permission region = false := by
  rw [← Bool.not_eq_true, hasPermission_iff_decides]
  simp only [not_exists, not_and, Bool.not_eq_true]

/-- The range of a single element is that element. -/
theorem elementPermitted_single : (∀ i < 1, ElementPermitted regions permission base size i) ↔
    hasPermission regions base (BitVec.ofNat 32 (1 * size)) permission = true := by
  simp [ElementPermitted, tileElementAddress]

/-- **The range is permitted like the elements, but for three kinds of access.** -/
theorem range_iff_elements :
    (hasPermission regions base (BitVec.ofNat 32 (count * size)) permission = true ↔
      ∀ i < count, ElementPermitted regions permission base size i) ↔
    ¬ (EmptyAccessRefused regions permission base count ∨
      ElementsSpread regions permission base size count ∨
      ElementHidden regions permission base size count) := by
  have hspread : ElementsSpread regions permission base size count ↔
      2 ≤ count ∧ (∀ i < count, ElementPermitted regions permission base size i) ∧
        hasPermission regions base (BitVec.ofNat 32 (count * size)) permission = false := by
    rw [hasPermission_false_iff]
    simp only [ElementPermitted, hasPermission_iff_decides]
    exact ⟨fun h => ⟨h.two_le, h.elements, h.range⟩, fun h => ⟨h.1, h.2.1, h.2.2⟩⟩
  have hhidden : ElementHidden regions permission base size count ↔
      2 ≤ count ∧ hasPermission regions base (BitVec.ofNat 32 (count * size)) permission = true ∧
        ∃ i < count, ¬ ElementPermitted regions permission base size i := by
    simp only [ElementPermitted, hasPermission_iff_decides, not_exists, not_and, Bool.not_eq_true]
    exact ⟨fun h => ⟨h.two_le, h.range, h.element⟩, fun h => ⟨h.1, h.2.1, h.2.2⟩⟩
  rw [hspread, hhidden, EmptyAccessRefused, ← hasPermission_false_iff]
  obtain rfl | rfl | htwo : count = 0 ∨ count = 1 ∨ 2 ≤ count := by omega
  · simp
  · rw [← elementPermitted_single]
    simp
  · have hne : count ≠ 0 := by omega
    simp only [hne, htwo, false_and, true_and, false_or, ← Bool.not_eq_true]
    by_cases hrange : hasPermission regions base (BitVec.ofNat 32 (count * size)) permission = true
    · simp [hrange]
    · simp [hrange]

/-- Regions that agree hide no element of a range in the address space. -/
theorem elements_of_range (hagree : RegionsAgree regions permission) (hsize : 0 < size)
    (hrange : base.toNat + count * size ≤ 2 ^ 32) (hlt : count * size < 2 ^ 32)
    (h : hasPermission regions base (BitVec.ofNat 32 (count * size)) permission = true) :
    ∀ i < count, ElementPermitted regions permission base size i := by
  intro i hi
  have hnext : i * size + size ≤ count * size := by
    calc i * size + size = (i + 1) * size := (Nat.succ_mul i size).symm
      _ ≤ count * size := Nat.mul_le_mul_right size hi
  have haddress : (tileElementAddress base size i).toNat = base.toNat + i * size := by
    rw [tileElementAddress, BitVec.toNat_add, BitVec.toNat_ofNat]
    omega
  have hsize' : (BitVec.ofNat 32 size).toNat = size := Nat.mod_eq_of_lt (by omega)
  have hcount : (BitVec.ofNat 32 (count * size)).toNat = count * size := Nat.mod_eq_of_lt hlt
  exact hasPermission_of_hull hagree h (by omega) (by omega) (by omega)

/-- Where regions agree, a range of permitted elements is permitted once a region holds it. -/
theorem range_of_elements (hagree : RegionsAgree regions permission) (hcount : 0 < count)
    (hsize : 0 < size) (hlt : count * size < 2 ^ 32)
    (h : ∀ i < count, ElementPermitted regions permission base size i) :
    hasPermission regions base (BitVec.ofNat 32 (count * size)) permission = true ↔
      ∃ region ∈ regions, region.contains base (BitVec.ofNat 32 (count * size)) = true := by
  constructor
  · intro hp
    rw [hasPermission_eq_decision] at hp
    obtain ⟨region, hregion, hcontains, -⟩ := FirstMatch.permitted_of_decision hp
    exact ⟨region, hregion, hcontains⟩
  · rintro ⟨region, hregion, hcontains⟩
    have hle : size ≤ count * size := Nat.le_mul_of_pos_left size hcount
    -- the region of the first element shares the byte at the base with any region that holds the
    -- range
    have hfirst := h 0 hcount
    rw [ElementPermitted, tileElementAddress, Nat.zero_mul, BitVec.add_zero,
      hasPermission_eq_decision] at hfirst
    obtain ⟨held, hheld, hbase, hgrants⟩ := FirstMatch.permitted_of_decision hfirst
    have hshared : ∀ region' ∈ regions,
        region'.contains base (BitVec.ofNat 32 (count * size)) = true →
        grants permission region' = true := by
      intro region' hregion' hcontains'
      rw [← hgrants]
      refine (hagree held hheld region' hregion' ⟨base.toNat, ?_, ?_⟩).symm
      · exact CoralNPUV2MemoryRegion.hasByte_of_contains hbase
          (by rw [BitVec.toNat_ofNat, Nat.mod_eq_of_lt (by omega)]; exact hsize)
      · exact CoralNPUV2MemoryRegion.hasByte_of_contains hcontains'
          (by rw [BitVec.toNat_ofNat, Nat.mod_eq_of_lt hlt]; omega)
    rw [hasPermission_eq_decision]
    by_contra hrefused
    obtain ⟨before, q, behind, hregions, -, hq, hrefuse, -⟩ := FirstMatch.shadowed_of_permitted
      ⟨region, hregion, hcontains, hshared region hregion hcontains⟩ (by simpa using hrefused)
    rw [hshared q (by rw [hregions]; simp) hq] at hrefuse
    exact absurd hrefuse (by decide)

end Elements

/-! ### Faults -/

section Faults

variable (mpact : RiscVZvtLoadStore) (op : TileMemoryOpcode) (eewBits : ℕ) (inst : Instruction)
    (s : TileState)

/-- The base address of an access. -/
def tileBase (inst : Instruction) : Word := (inst.sourceUInt64 0).setWidth 32

/-- **What a tile access does.** -/
theorem TileMemoryOpcode.execute_eq : op.execute mpact eewBits inst s =
    if s.hasPermission (tileBase inst) (BitVec.ofNat 32 (tileSubsetCount s eewBits * (eewBits / 8)))
      op.permission then op.operation mpact eewBits inst s
    else s.trap false (tileBase inst) op.fault inst.address := by
  have haccess : ∀ permission fault operation,
      checkedTileAccess permission fault operation eewBits inst s =
      if s.hasPermission (tileBase inst)
        (BitVec.ofNat 32 (tileSubsetCount s eewBits * (eewBits / 8))) permission
      then operation eewBits inst s else s.trap false (tileBase inst) fault inst.address := by
    intro permission fault operation
    simp only [checkedTileAccess]
    rw [show (inst.sourceUInt64 0).setWidth 32 = tileBase inst from rfl]
    cases s.hasPermission (tileBase inst)
      (BitVec.ofNat 32 (tileSubsetCount s eewBits * (eewBits / 8))) permission
      <;> rfl
  cases op
  case vtle => exact haccess _ _ _
  case vtse => exact haccess _ _ _

/-- The functions of the library raise nothing. -/
theorem TileMemoryOpcode.operation_traps : (op.operation mpact eewBits inst s).traps = s.traps := by
  cases op
  case vtle =>
    obtain ⟨tiles, heq⟩ := mpact.riscVZvtVtle_eq eewBits inst s
    exact congrArg (fun s => s.traps) heq
  case vtse =>
    obtain ⟨memory, heq⟩ := mpact.riscVZvtVtse_eq eewBits inst s
    exact congrArg (fun s => s.traps) heq

/-- Element `i` of an access is permitted. -/
def TileElementPermitted (i : ℕ) : Prop :=
  ElementPermitted s.memoryRegions op.permission (tileBase inst) (eewBits / 8) i

/-- **An access faults exactly when one of its elements is refused**, with nothing else changed
then. -/
structure TileFaultsExactly : Prop where
  raises_iff : RaisesFault op.fault s.toCoralNPUV2State
    (op.execute mpact eewBits inst s).toCoralNPUV2State ↔
    ∃ i < tileSubsetCount s eewBits, ¬ TileElementPermitted op eewBits inst s i
  unchanged : RaisesFault op.fault s.toCoralNPUV2State
    (op.execute mpact eewBits inst s).toCoralNPUV2State →
    op.execute mpact eewBits inst s = s.trap false (tileBase inst) op.fault inst.address

/-- The fault is right if the range is permitted like the elements. -/
theorem tileFaultsExactly_iff_range : TileFaultsExactly mpact op eewBits inst s ↔
    (s.hasPermission (tileBase inst) (BitVec.ofNat 32 (tileSubsetCount s eewBits * (eewBits / 8)))
        op.permission = true ↔
      ∀ i < tileSubsetCount s eewBits, TileElementPermitted op eewBits inst s i) := by
  have hraises : RaisesFault op.fault s.toCoralNPUV2State
      (op.execute mpact eewBits inst s).toCoralNPUV2State ↔
      ¬ s.hasPermission (tileBase inst)
        (BitVec.ofNat 32 (tileSubsetCount s eewBits * (eewBits / 8)))
        op.permission = true := by
    rw [TileMemoryOpcode.execute_eq]
    refine raisesFault_iff (tileBase inst) inst.address (fun hp => ?_) (fun hp => ?_)
    · rw [if_pos hp]
      exact op.operation_traps mpact eewBits inst s
    · rw [if_neg hp]
      rfl
  constructor
  · intro h
    rw [← not_iff_not, ← hraises, h.raises_iff]
    simp
  · intro h
    refine ⟨by rw [hraises, h]; simp, fun hfault => ?_⟩
    rw [TileMemoryOpcode.execute_eq, if_neg (hraises.1 hfault)]

/-- **The faults of the tile loads and stores are exact but for three kinds of access.** -/
theorem tileFaultsExactly_iff : TileFaultsExactly mpact op eewBits inst s ↔
    ¬ (EmptyAccessRefused s.memoryRegions op.permission (tileBase inst)
      (tileSubsetCount s eewBits) ∨
      ElementsSpread s.memoryRegions op.permission (tileBase inst) (eewBits / 8)
        (tileSubsetCount s eewBits) ∨
      ElementHidden s.memoryRegions op.permission (tileBase inst) (eewBits / 8)
        (tileSubsetCount s eewBits)) :=
  (tileFaultsExactly_iff_range mpact op eewBits inst s).trans range_iff_elements

/-- **Where regions agree**, the faults of an access in the address space are exact if an access
without elements is at a permitted base, and one of permitted elements lies in one region. -/
theorem tileFaultsExactly_iff_of_agree (hagree : RegionsAgree s.memoryRegions op.permission)
    (hsize : 0 < eewBits / 8)
    (hrange : (tileBase inst).toNat + tileSubsetCount s eewBits * (eewBits / 8) ≤ 2 ^ 32)
    (hlt : tileSubsetCount s eewBits * (eewBits / 8) < 2 ^ 32) :
    TileFaultsExactly mpact op eewBits inst s ↔
      (tileSubsetCount s eewBits = 0 → s.hasPermission (tileBase inst) 0 op.permission = true) ∧
      (0 < tileSubsetCount s eewBits →
        (∀ i < tileSubsetCount s eewBits, TileElementPermitted op eewBits inst s i) →
        ∃ region ∈ s.memoryRegions, region.contains (tileBase inst)
          (BitVec.ofNat 32 (tileSubsetCount s eewBits * (eewBits / 8))) = true) := by
  rw [tileFaultsExactly_iff_range]
  rcases Nat.eq_zero_or_pos (tileSubsetCount s eewBits) with hzero | hpos
  · simp [hzero]
  · simp only [hpos, hpos.ne', false_imp_iff, true_imp_iff, true_and]
    constructor
    · intro h helements
      exact (range_of_elements hagree hpos hsize hlt helements).1 (h.2 helements)
    · intro h
      exact ⟨elements_of_range hagree hsize hrange hlt,
        fun helements => (range_of_elements hagree hpos hsize hlt helements).2 (h helements)⟩

end Faults

/-- A library that moves nothing. -/
def RiscVZvtLoadStore.idle : RiscVZvtLoadStore where
  riscVZvtVtle _ _ s := s
  riscVZvtVtse _ _ s := s
  riscVZvtVtle_eq _ _ s := ⟨s.tiles, rfl⟩
  riscVZvtVtse_eq _ _ s := ⟨s.memory, rfl⟩

/-- The default regions, and no elements. -/
def vlZero : TileState where
  memoryRegions := defaultMemoryRegions
  rvVector := ⟨0, 0, 8, 1, 16⟩
  vectorRegisters _ _ := 0
  memory _ := 0
  traps := []
  tileElements := 16
  tiles _ _ := 0

/-- **A load of no elements faults** at an address outside of the regions. -/
theorem not_tileFaultsExactly_vlZero :
    ¬ TileFaultsExactly RiscVZvtLoadStore.idle .vtle 8
      ⟨0x100, fun _ => 0x8000, fun _ => .allOnes⟩ vlZero := by
  rw [tileFaultsExactly_iff_range]
  intro h
  exact absurd (h.2 (fun i hi => absurd hi (Nat.not_lt_zero i))) (by decide)

end CoralNpu
