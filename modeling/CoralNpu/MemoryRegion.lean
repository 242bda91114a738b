/-
**Memory regions and their permissions.**

The simulator state keeps an insertion-ordered list of memory regions, each with a permission
mask, and every load, store, jump and instruction fetch is checked against it.  Regions come from
the simulator options, from the co-simulation interface and from the segments of a loaded program,
and they may overlap.

Main definitions:

* `CoralNpu.hasPermission` — the check of `CoralNPUV2State::HasPermission`;
* `CoralNpu.addMemoryRegion`, `CoralNpu.registerRegions` — registering one region, and a sequence
  of them;
* `CoralNpu.mpactInit`, `CoralNpu.mpactAddLoadStoreRange`, `CoralNpu.addProgramSegments` — the
  registrations made by the co-simulation wrapper and by the program loader;
* `CoralNpu.UnionPermissions` — permissions read as a monotone union over the regions;
* `CoralNpu.RegionsAgree` — regions that share a byte agree on a permission.

Main results:

* `CoralNpu.unionPermissions_iff_not_shadowed` — permissions are a union **exactly** for the
  accesses no region shadows;
* `CoralNpu.hasPermission_of_hull` — with agreeing regions, a permitted access permits every
  access inside it;
* `CoralNpu.regionsAgree_of_disjoint` — disjoint regions agree on every permission.
-/

import Mathlib.Data.List.Pairwise
import CoralNpu.FirstMatch

set_option relaxedAutoImplicit false
set_option autoImplicit false

namespace CoralNpu

/-! ### Permissions and regions -/

/-- `MemoryPermission`, a `uint8_t` bit mask. -/
abbrev MemoryPermission := BitVec 8

namespace MemoryPermission

def none : MemoryPermission := 0
def read : MemoryPermission := 1
def write : MemoryPermission := 2
def execute : MemoryPermission := 4
def readWrite : MemoryPermission := read ||| write
def readExecute : MemoryPermission := read ||| execute
def readWriteExecute : MemoryPermission := read ||| write ||| execute

end MemoryPermission

/-- A region of memory with its permissions. -/
structure CoralNPUV2MemoryRegion where
  startAddress : BitVec 32
  length : BitVec 32
  permissions : MemoryPermission
  deriving DecidableEq, Repr

namespace CoralNPUV2MemoryRegion

/-- The access of `size` bytes at `address` lies inside the region.  Both ends are computed in 64
bits, so neither wraps. -/
def contains (region : CoralNPUV2MemoryRegion) (address size : BitVec 32) : Bool :=
  decide (region.startAddress.toNat ≤ address.toNat) &&
    decide (address.toNat + size.toNat ≤ region.startAddress.toNat + region.length.toNat)

/-- Every permission asked for is among the region's. -/
def grants (permissions : MemoryPermission) (region : CoralNPUV2MemoryRegion) : Bool :=
  (region.permissions &&& permissions) == permissions

/-- The byte at `x` belongs to the region. -/
def HasByte (region : CoralNPUV2MemoryRegion) (x : ℕ) : Prop :=
  region.startAddress.toNat ≤ x ∧ x < region.startAddress.toNat + region.length.toNat

/-- Two regions without a common byte. -/
def Disjoint (region region' : CoralNPUV2MemoryRegion) : Prop :=
  ∀ x, ¬ (region.HasByte x ∧ region'.HasByte x)

theorem contains_iff {region : CoralNPUV2MemoryRegion} {address size : BitVec 32} :
    region.contains address size = true ↔ region.startAddress.toNat ≤ address.toNat ∧
      address.toNat + size.toNat ≤ region.startAddress.toNat + region.length.toNat := by
  simp [contains]

theorem Disjoint.symm {region region' : CoralNPUV2MemoryRegion} (h : region.Disjoint region') :
    region'.Disjoint region :=
  fun x hx => h x ⟨hx.2, hx.1⟩

/-- A region that ends before another one starts shares no byte with it. -/
theorem disjoint_of_le {region region' : CoralNPUV2MemoryRegion}
    (h : region.startAddress.toNat + region.length.toNat ≤ region'.startAddress.toNat) :
    region.Disjoint region' := by
  rintro x ⟨⟨-, hhi⟩, hlo, -⟩
  omega

/-- The first byte of a non-empty access inside a region belongs to the region. -/
theorem hasByte_of_contains {region : CoralNPUV2MemoryRegion} {address size : BitVec 32}
    (h : region.contains address size = true) (hsize : 0 < size.toNat) :
    region.HasByte address.toNat := by
  obtain ⟨hlo, hhi⟩ := contains_iff.1 h
  exact ⟨hlo, by omega⟩

end CoralNPUV2MemoryRegion

open CoralNPUV2MemoryRegion (grants)

/-! ### The permission check -/

/-- `CoralNPUV2State::HasPermission`: the first region that contains the whole access decides, and
an access no region contains is refused. -/
def hasPermission : List CoralNPUV2MemoryRegion → BitVec 32 → BitVec 32 → MemoryPermission → Bool
  | [], _, _, _ => false
  | region :: regions, address, size, permissions =>
      if region.contains address size then
        (region.permissions &&& permissions) == permissions
      else
        hasPermission regions address size permissions

theorem hasPermission_eq_decision (regions : List CoralNPUV2MemoryRegion)
    (address size : BitVec 32) (permissions : MemoryPermission) :
    hasPermission regions address size permissions =
      FirstMatch.decision (·.contains address size) (grants permissions) regions := by
  induction regions with
  | nil => rfl
  | cons region regions ih => rw [hasPermission, FirstMatch.decision_cons, ih, grants]

/-- `CoralNPUV2State::AddMemoryRegion`. -/
def addMemoryRegion (memoryRegions : List CoralNPUV2MemoryRegion) (startAddress length : BitVec 32)
    (permissions : MemoryPermission) : List CoralNPUV2MemoryRegion :=
  memoryRegions ++ [⟨startAddress, length, permissions⟩]

/-- A sequence of `AddMemoryRegion` calls, in order, on a state without regions. -/
def registerRegions (calls : List CoralNPUV2MemoryRegion) : List CoralNPUV2MemoryRegion :=
  calls.foldl (fun regions c => addMemoryRegion regions c.startAddress c.length c.permissions) []

theorem foldl_addMemoryRegion (calls regions : List CoralNPUV2MemoryRegion) :
    calls.foldl (fun regions c => addMemoryRegion regions c.startAddress c.length c.permissions)
      regions = regions ++ calls := by
  induction calls generalizing regions with
  | nil => simp
  | cons c calls ih => rw [List.foldl_cons, ih, addMemoryRegion, List.append_assoc]; rfl

@[simp] theorem registerRegions_eq (calls : List CoralNPUV2MemoryRegion) :
    registerRegions calls = calls := by
  simp [registerRegions, foldl_addMemoryRegion]

/-- **Registering more regions never takes a permission away.** -/
theorem hasPermission_append {regions : List CoralNPUV2MemoryRegion}
    (more : List CoralNPUV2MemoryRegion) {address size : BitVec 32}
    {permissions : MemoryPermission} (h : hasPermission regions address size permissions = true) :
    hasPermission (regions ++ more) address size permissions = true := by
  rw [hasPermission_eq_decision] at h ⊢
  exact FirstMatch.decision_append_of_true more h

/-! ### Permissions as a monotone union -/

/-- **Permissions are a monotone union** for one access after a sequence of registrations. -/
structure UnionPermissions (calls : List CoralNPUV2MemoryRegion) (address size : BitVec 32)
    (permissions : MemoryPermission) : Prop where
  /-- the check says yes exactly when some region contains the access and grants it -/
  union : hasPermission (registerRegions calls) address size permissions = true ↔
    ∃ region ∈ calls, region.contains address size = true ∧ grants permissions region = true
  /-- adding a region never takes the permission away -/
  monotone : ∀ startAddress length granted,
    hasPermission (registerRegions calls) address size permissions = true →
      hasPermission (addMemoryRegion (registerRegions calls) startAddress length granted)
        address size permissions = true
  /-- an access inside the region registered last is allowed what that region grants -/
  fresh : ∀ before region, calls = before ++ [region] → region.contains address size = true →
    grants permissions region = true →
      hasPermission (registerRegions calls) address size permissions = true

/-- The first registered region that contains the access refuses it, and a region registered later
contains and grants it. -/
def ShadowedAccess (calls : List CoralNPUV2MemoryRegion) (address size : BitVec 32)
    (permissions : MemoryPermission) : Prop :=
  FirstMatch.Shadowed (·.contains address size) (grants permissions) calls

/-- **Permissions are a union exactly for the accesses that no region shadows.** -/
theorem unionPermissions_iff_not_shadowed (calls : List CoralNPUV2MemoryRegion)
    (address size : BitVec 32) (permissions : MemoryPermission) :
    UnionPermissions calls address size permissions ↔
      ¬ ShadowedAccess calls address size permissions := by
  rw [ShadowedAccess, ← FirstMatch.decision_iff_permitted_iff]
  constructor
  · intro h
    simpa [hasPermission_eq_decision, FirstMatch.Permitted] using h.union
  · intro h
    have hunion : hasPermission (registerRegions calls) address size permissions = true ↔
        ∃ region ∈ calls, region.contains address size = true ∧
          grants permissions region = true := by
      simpa [hasPermission_eq_decision, FirstMatch.Permitted] using h
    refine ⟨hunion, fun startAddress length granted hp => ?_, ?_⟩
    · exact hasPermission_append _ hp
    · intro before region hcalls hcontains hgrants
      exact hunion.2 ⟨region, by simp [hcalls], hcontains, hgrants⟩

/-! ### Who registers regions -/

/-- The memory regions of the default options: instruction memory, data memory, external memory. -/
def defaultMemoryRegions : List CoralNPUV2MemoryRegion :=
  [⟨0x0, 0x2000, .readExecute⟩, ⟨0x10000, 0x8000, .readWrite⟩,
    ⟨0x20000000, 0x400000, .readWrite⟩]

/-- `MpactHandle::Init`: the configured instruction memory is pushed behind the default regions
with all permissions, and the state registers the resulting list. -/
def mpactInit (itcmStartAddress itcmLength : BitVec 32) : List CoralNPUV2MemoryRegion :=
  registerRegions
    (defaultMemoryRegions ++ [⟨itcmStartAddress, itcmLength, .readWriteExecute⟩])

/-- `mpact_add_load_store_range`. -/
def mpactAddLoadStoreRange (regions : List CoralNPUV2MemoryRegion)
    (startAddress length : BitVec 32) : List CoralNPUV2MemoryRegion :=
  addMemoryRegion regions startAddress length .readWrite

/-- What the loader reads of an ELF program header. -/
structure ProgramSegment where
  isLoad : Bool
  physicalAddress : BitVec 64
  virtualAddress : BitVec 64
  memorySize : BitVec 64
  flags : BitVec 32

/-- The permissions of a segment, from its `PF_R`, `PF_W` and `PF_X` flags. -/
def ProgramSegment.permissions (segment : ProgramSegment) : MemoryPermission :=
  (if segment.flags &&& 4 ≠ 0 then .read else .none) |||
    (if segment.flags &&& 2 ≠ 0 then .write else .none) |||
    (if segment.flags &&& 1 ≠ 0 then .execute else .none)

/-- The loop of `CoralNPUSimulator::LoadProgram` over the segments of the program: the non-empty
loadable ones become regions, at the physical address unless that is zero. -/
def addProgramSegments (regions : List CoralNPUV2MemoryRegion) :
    List ProgramSegment → List CoralNPUV2MemoryRegion
  | [] => regions
  | segment :: segments =>
      let addr := if segment.physicalAddress = 0 then segment.virtualAddress
        else segment.physicalAddress
      if segment.isLoad ∧ 0 < segment.memorySize then
        addProgramSegments (addMemoryRegion regions (addr.setWidth 32)
          (segment.memorySize.setWidth 32) segment.permissions) segments
      else
        addProgramSegments regions segments

/-- Loading a program never takes a permission away. -/
theorem hasPermission_addProgramSegments {address size : BitVec 32}
    {permissions : MemoryPermission} (segments : List ProgramSegment) :
    ∀ {regions : List CoralNPUV2MemoryRegion},
      hasPermission regions address size permissions = true →
        hasPermission (addProgramSegments regions segments) address size permissions = true := by
  induction segments with
  | nil => exact fun h => h
  | cons segment segments ih =>
      intro regions h
      rw [addProgramSegments]
      split
      · exact ih (hasPermission_append _ h)
      · exact ih h

/-- The load/store range of the co-simulation over the instruction memory stays read-only: the
default region in front of it shadows it. -/
theorem mpactAddLoadStoreRange_not_union :
    ¬ UnionPermissions (mpactAddLoadStoreRange (mpactInit 0x0 0x2000) 0x0 0x2000)
      0x100 4 .write := by
  intro h
  have hfresh := h.fresh (mpactInit 0x0 0x2000) ⟨0x0, 0x2000, .readWrite⟩ rfl
    (by decide) (by decide)
  exact absurd hfresh (by decide)

/-! ### Accesses inside a permitted access -/

/-- Regions that share a byte agree on whether they grant the permission. -/
def RegionsAgree (regions : List CoralNPUV2MemoryRegion) (permissions : MemoryPermission) : Prop :=
  ∀ region ∈ regions, ∀ region' ∈ regions, (∃ x, region.HasByte x ∧ region'.HasByte x) →
    grants permissions region = grants permissions region'

/-- Pairwise disjoint regions agree on every permission. -/
theorem regionsAgree_of_disjoint {regions : List CoralNPUV2MemoryRegion}
    (h : regions.Pairwise CoralNPUV2MemoryRegion.Disjoint) (permissions : MemoryPermission) :
    RegionsAgree regions permissions := by
  rintro region hregion region' hregion' ⟨x, hx⟩
  by_cases heq : region = region'
  · rw [heq]
  · have : Std.Symm CoralNPUV2MemoryRegion.Disjoint := ⟨fun _ _ hd => hd.symm⟩
    exact absurd hx (h.forall hregion hregion' heq x)

/-- The default regions are pairwise disjoint. -/
theorem defaultMemoryRegions_disjoint :
    defaultMemoryRegions.Pairwise CoralNPUV2MemoryRegion.Disjoint := by
  have hsorted : defaultMemoryRegions.Pairwise fun region region' =>
      region.startAddress.toNat + region.length.toNat ≤ region'.startAddress.toNat := by decide
  exact hsorted.imp CoralNPUV2MemoryRegion.disjoint_of_le

/-- **With agreeing regions a permitted access permits every non-empty access inside it.** -/
theorem hasPermission_of_hull {regions : List CoralNPUV2MemoryRegion}
    {permissions : MemoryPermission} (hagree : RegionsAgree regions permissions)
    {address size address' size' : BitVec 32}
    (hp : hasPermission regions address size permissions = true)
    (hlo : address.toNat ≤ address'.toNat)
    (hhi : address'.toNat + size'.toNat ≤ address.toNat + size.toNat) (hsize : 0 < size'.toNat) :
    hasPermission regions address' size' permissions = true := by
  rw [hasPermission_eq_decision] at hp ⊢
  have hsub : ∀ region : CoralNPUV2MemoryRegion, region.contains address size = true →
      region.contains address' size' = true := by
    intro region h
    rw [CoralNPUV2MemoryRegion.contains_iff] at h ⊢
    omega
  refine FirstMatch.decision_of_decision hp (fun region _ h => hsub region h) ?_
  intro region hregion region' hregion' hcontains hcontains' hgrants
  -- both regions hold the first byte of the inner access
  rw [← hagree region hregion region' hregion' ⟨address'.toNat, ?_, ?_⟩]
  · exact hgrants
  · exact CoralNPUV2MemoryRegion.hasByte_of_contains (hsub region hcontains) hsize
  · exact CoralNPUV2MemoryRegion.hasByte_of_contains hcontains' hsize

end CoralNpu
