/-
**The widening instructions.**

`VAddw`, `VSubw` and `VMulw` compute elements twice as wide as those of their sources, and so write
two registers for every register they read: the results of even elements go to one, those of odd
elements to the other, as many registers further on as the instruction has operations.  `VAcc` adds
narrow elements to wide ones that lie in this layout already.  `VMvp` writes two registers, too, one
from each source.

Main definitions:

* `CoralNpu.WideTypes`, `CoralNpu.widen` — the pairs of types, and the conversion;
* `CoralNpu.WideningOp`, `CoralNpu.coralNPUVAcc`, `CoralNpu.coralNPUVMvp` — the instructions;
* `CoralNpu.wideLane` — the source element for an element of the destination.

Main results:

* `CoralNpu.wideLane_bijOn` — every source element is used once;
* `CoralNpu.WideningOp.execute_layout`, `CoralNpu.vAcc_layout`, `CoralNpu.vMvp_layout` — the
  layouts;
* `CoralNpu.vAcc_vAddw` — **accumulating a widening sum**;
* `CoralNpu.widening_layout` — all together.
-/

import CoralNpu.CoralNpuVectorExecute
import Mathlib.Data.Set.Function

set_option relaxedAutoImplicit false
set_option autoImplicit false

namespace CoralNpu

/-! ### The instructions -/

/-- The types with which the widening instructions are instantiated. -/
inductive WideTypes where
  | int16FromInt8 | int32FromInt16 | uint16FromUint8 | uint32FromUint16
  deriving DecidableEq

namespace WideTypes

/-- The wide type. -/
def td : WideTypes → ElementType
  | int16FromInt8 => .int16
  | int32FromInt16 => .int32
  | uint16FromUint8 => .uint16
  | uint32FromUint16 => .uint32

/-- The narrow type. -/
def ts : WideTypes → ElementType
  | int16FromInt8 => .int8
  | int32FromInt16 => .int16
  | uint16FromUint8 => .uint8
  | uint32FromUint16 => .uint16

end WideTypes

/-- `static_cast<Td>`. -/
def widen (p : WideTypes) (x : BitVec p.ts.bits) : BitVec p.td.bits :=
  BitVec.ofInt p.td.bits (p.ts.value x)

/-- A widening instruction. -/
def wideningOp (p : WideTypes) (op : BitVec p.td.bits → BitVec p.td.bits → BitVec p.td.bits)
    (scalar stripMine : Bool) : VectorOperands → VectorFile → Option VectorFile :=
  coralNPUBinaryVectorOp false false scalar stripMine
    (fun _ (vs1 vs2 : BitVec p.ts.bits) => some (op (widen p vs1) (widen p vs2)))
    (commonBinaryOpGetArg1 p.td.size p.ts.size p.ts.size)
      (commonBinaryOpGetArg2 p.td.size p.ts.size)

/-- `CoralNPUVAddw`. -/
def coralNPUVAddw (p : WideTypes) := wideningOp p fun vs1 vs2 => vs1 + vs2

/-- `CoralNPUVSubw`. -/
def coralNPUVSubw (p : WideTypes) := wideningOp p fun vs1 vs2 => vs1 - vs2

/-- `CoralNPUVMulw`. -/
def coralNPUVMulw (p : WideTypes) := wideningOp p fun vs1 vs2 => vs1 * vs2

/-- The widening instructions. -/
inductive WideningOp where
  | vAddw | vSubw | vMulw
  deriving DecidableEq

namespace WideningOp

/-- What an instruction does to the registers. -/
def execute (p : WideTypes) (scalar stripMine : Bool) (inst : VectorOperands) (file : VectorFile) :
    WideningOp → Option VectorFile
  | vAddw => coralNPUVAddw p scalar stripMine inst file
  | vSubw => coralNPUVSubw p scalar stripMine inst file
  | vMulw => coralNPUVMulw p scalar stripMine inst file

/-- The operation on values. -/
def exact (a b : ℤ) : WideningOp → ℤ
  | vAddw => a + b
  | vSubw => a - b
  | vMulw => a * b

end WideningOp

/-- `CoralNPUVAcc`. -/
def coralNPUVAcc (p : WideTypes) (scalar stripMine : Bool) :
    VectorOperands → VectorFile → Option VectorFile :=
  coralNPUBinaryVectorOp false false scalar stripMine
    (fun _ (vs1 : BitVec p.td.bits) (vs2 : BitVec p.ts.bits) => some (vs1 + widen p vs2))
    (commonBinaryOpGetArg1 p.td.size p.td.size p.ts.size)
      (commonBinaryOpGetArg2 p.td.size p.ts.size)

/-- `CoralNPUVMvp`. -/
def coralNPUVMvp (t : ElementType) (scalar stripMine : Bool) :
    VectorOperands → VectorFile → Option VectorFile :=
  coralNPUBinaryVectorOp false true scalar stripMine
    (fun (_ : BitVec t.bits) (vs1 _ : BitVec t.bits) => some vs1) (vMvpOpGetArg1 t.size)
    (vMvpOpGetArg1 t.size)

/-! ### Source elements -/

/-- The register of a group and the element in it for element `j` of destination `r` of operation
`k`. -/
def wideLane (d : ℕ × ℕ × ℕ) : ℕ × ℕ := (d.1, 2 * d.2.2 + d.2.1)

/-- The elements of the destinations, by operation and destination. -/
def wideDests (p : WideTypes) (n : ℕ) : Set (ℕ × ℕ × ℕ) :=
  {d | d.1 < n ∧ d.2.1 < 2 ∧ d.2.2 < p.td.eltsPerRegister}

/-- The elements of a source group, by register. -/
def wideLanes (p : WideTypes) (n : ℕ) : Set (ℕ × ℕ) := {l | l.1 < n ∧ l.2 < p.ts.eltsPerRegister}

theorem eltsPerRegister_ts (p : WideTypes) : p.ts.eltsPerRegister = 2 * p.td.eltsPerRegister := by
  cases p <;> rfl

/-- **Every source element is used once.** -/
theorem wideLane_bijOn (p : WideTypes) (n : ℕ) :
    Set.BijOn wideLane (wideDests p n) (wideLanes p n) := by
  have helts := eltsPerRegister_ts p
  refine ⟨?_, ?_, ?_⟩
  · rintro ⟨k, r, j⟩ ⟨hk, hr, hj⟩
    simp only at hr hj
    exact ⟨hk, show 2 * j + r < p.ts.eltsPerRegister by omega⟩
  · rintro ⟨k, r, j⟩ ⟨-, hr, -⟩ ⟨k', r', j'⟩ ⟨-, hr', -⟩ heq
    simp only [wideLane, Prod.mk.injEq] at hr hr' heq ⊢
    omega
  · rintro ⟨k, l⟩ ⟨hk, hl⟩
    simp only at hk hl
    refine ⟨(k, l % 2, l / 2), ⟨hk, Nat.mod_lt l Nat.two_pos, by simp only; omega⟩, ?_⟩
    simp only [wideLane, Prod.mk.injEq, true_and]
    omega

section Arguments

variable (p : WideTypes)

theorem size_td : p.td.size = 2 * p.ts.size := by cases p <;> rfl

/-- The narrow element for an element of a destination. -/
theorem mul_size_div (j : ℕ) : j * p.td.size / p.ts.size = 2 * j := by
  rw [size_td, Nat.mul_left_comm, ← Nat.mul_assoc, Nat.mul_div_cancel _ (size_pos p.ts)]

/-- The first argument of a widening operation. -/
theorem wideArg1_eq (inst : VectorOperands) (file : VectorFile) (scalar : Bool) (n k : ℕ) {r j : ℕ}
    (hr : r < 2) (hj : j < p.td.eltsPerRegister) :
    inst.getInstructionSource p.ts file
        (commonBinaryOpGetArg1 p.td.size p.ts.size p.ts.size scalar n k j r) =
      element p.ts (file (inst.vs1 + k)) (2 * j + r) := by
  have hsize := size_td p
  have hpos := size_pos p.ts
  have helts := eltsPerRegister_ts p
  rw [commonBinaryOpGetArg1, if_neg (by omega), mul_size_div, Nat.add_assoc]
  exact groupElement_mul_add p.ts file inst.vs1 k (by omega)

/-- The second argument of a widening operation. -/
theorem wideArg2_eq (inst : VectorOperands) (file : VectorFile) (n k : ℕ) {r j : ℕ} (hr : r < 2)
    (hj : j < p.td.eltsPerRegister) :
    inst.getInstructionSource p.ts file
        (commonBinaryOpGetArg2 p.td.size p.ts.size inst.vs2.isScalar n k j r) =
      inst.vs2.operationElement p.ts file k (2 * j + r) := by
  have helts := eltsPerRegister_ts p
  rw [commonBinaryOpGetArg2, mul_size_div, Nat.add_assoc]
  exact element_index p.ts inst.vs2 file k (by omega)

/-- **The wide argument of `VAcc` lies in the layout of a destination.** -/
theorem accArg1_eq (inst : VectorOperands) (file : VectorFile) (scalar : Bool) (n k r : ℕ) {j : ℕ}
    (hj : j < p.td.eltsPerRegister) :
    inst.getInstructionSource p.td file
        (commonBinaryOpGetArg1 p.td.size p.td.size p.ts.size scalar n k j r) =
      element p.td (file (inst.vs1 + (k + r * n))) j := by
  have hindex : k * p.td.eltsPerRegister + j + n * p.td.eltsPerRegister * r =
      (k + r * n) * p.td.eltsPerRegister + j := by ring
  rw [commonBinaryOpGetArg1, if_pos ⟨rfl, size_td p⟩, Nat.mul_div_cancel _ (size_pos p.td)]
  show groupElement p.td file inst.vs1
    (k * p.td.eltsPerRegister + j + n * p.td.eltsPerRegister * r) = _
  rw [hindex, groupElement_mul_add p.td file inst.vs1 _ hj]

end Arguments

/-! ### The layouts -/

section Layouts

variable {p : WideTypes} {stripMine : Bool} {inst : VectorOperands} {file : VectorFile}

theorem destRegsPerOp_wide (p : WideTypes) : destRegsPerOp false false p.td.size p.ts.size = 2 := by
  have hsize := size_td p
  have hpos := size_pos p.ts
  exact if_pos (Or.inl ⟨by omega, by decide⟩)

/-- The elements that a widening operation computes. -/
theorem wideningOp_executes (p : WideTypes)
    (op : BitVec p.td.bits → BitVec p.td.bits → BitVec p.td.bits) (stripMine : Bool)
    (inst : VectorOperands) (file : VectorFile) :
    ∃ file', wideningOp p op inst.vs2.isScalar stripMine inst file = some file' ∧
      Executes p.td (opsOf stripMine) 2 inst.vd (fun k r j s =>
        op (widen p (element p.ts (s (inst.vs1 + k)) (2 * j + r)))
          (widen p (inst.vs2.operationElement p.ts s k (2 * j + r)))) file file' := by
  obtain ⟨file', hrun, hexecutes⟩ := element_binaryVectorOp false false inst.vs2.isScalar stripMine
    (fun (_ : BitVec p.td.bits) (vs1 vs2 : BitVec p.ts.bits) => op (widen p vs1) (widen p vs2))
    (commonBinaryOpGetArg1 p.td.size p.ts.size p.ts.size)
    (commonBinaryOpGetArg2 p.td.size p.ts.size) inst file
  refine ⟨file', hrun, ?_⟩
  rw [destRegsPerOp_wide] at hexecutes
  refine hexecutes.congr fun k _ r hr j hj s => ?_
  rw [wideArg1_eq p inst s _ _ k hr hj, wideArg2_eq p inst s _ k hr hj]

/-- The elements that `VAcc` computes. -/
theorem vAcc_executes (p : WideTypes) (stripMine : Bool) (inst : VectorOperands)
    (file : VectorFile) :
    ∃ file', coralNPUVAcc p inst.vs2.isScalar stripMine inst file = some file' ∧
      Executes p.td (opsOf stripMine) 2 inst.vd (fun k r j s =>
        element p.td (s (inst.vs1 + (k + r * opsOf stripMine))) j +
          widen p (inst.vs2.operationElement p.ts s k (2 * j + r))) file file' := by
  obtain ⟨file', hrun, hexecutes⟩ := element_binaryVectorOp false false inst.vs2.isScalar stripMine
    (fun (_ vs1 : BitVec p.td.bits) (vs2 : BitVec p.ts.bits) => vs1 + widen p vs2)
    (commonBinaryOpGetArg1 p.td.size p.td.size p.ts.size)
    (commonBinaryOpGetArg2 p.td.size p.ts.size) inst file
  refine ⟨file', hrun, ?_⟩
  rw [destRegsPerOp_wide] at hexecutes
  refine hexecutes.congr fun k _ r hr j hj s => ?_
  rw [accArg1_eq p inst s _ _ k r hj, wideArg2_eq p inst s _ k hr hj]

/-- The elements that `VMvp` moves. -/
theorem vMvp_executes (t : ElementType) (stripMine : Bool) (inst : VectorOperands)
    (file : VectorFile) :
    ∃ file', coralNPUVMvp t inst.vs2.isScalar stripMine inst file = some file' ∧
      Executes t (opsOf stripMine) 2 inst.vd (fun k r e s =>
        if r = 0 then element t (s (inst.vs1 + k)) e else inst.vs2.operationElement t s k e)
        file file' := by
  obtain ⟨file', hrun, hexecutes⟩ := element_binaryVectorOp false true inst.vs2.isScalar stripMine
    (fun (_ : BitVec t.bits) (vs1 _ : BitVec t.bits) => vs1) (vMvpOpGetArg1 t.size)
    (vMvpOpGetArg1 t.size) inst file
  have hdest : destRegsPerOp false true t.size t.size = 2 := if_pos (Or.inr rfl)
  refine ⟨file', hrun, ?_⟩
  rw [hdest] at hexecutes
  refine hexecutes.congr fun k _ r _ e he s => ?_
  simp only [vMvpOpGetArg1]
  split
  · rw [commonBinaryOpGetArg1_same]
    exact groupElement_mul_add t s inst.vs1 k he
  · exact getInstructionSource_arg2 t inst s _ k he

/-- The elements of the sources at a place of their groups. -/
def VectorOperands.lanePair (t : ElementType) (inst : VectorOperands) (file : VectorFile)
    (l : ℕ × ℕ) : BitVec t.bits × BitVec t.bits :=
  (element t (file (inst.vs1 + l.1)) l.2, inst.vs2.operationElement t file l.1 l.2)

/-- The result of a widening instruction on a pair of elements. -/
def WideningOp.result (p : WideTypes) (op : WideningOp)
    (pair : BitVec p.ts.bits × BitVec p.ts.bits) :
    BitVec p.td.bits := BitVec.ofInt p.td.bits (op.exact (p.ts.value pair.1) (p.ts.value pair.2))

/-- **The layout of a widening instruction.** -/
theorem WideningOp.execute_layout (p : WideTypes) (op : WideningOp) (stripMine : Bool)
    (inst : VectorOperands) (file : VectorFile)
    (h : inst.DestDisjoint (2 * opsOf stripMine) (opsOf stripMine) (opsOf stripMine)) :
    ∃ file', op.execute p inst.vs2.isScalar stripMine inst file = some file' ∧
      ∀ d ∈ wideDests p (opsOf stripMine),
        element p.td (file' (inst.vd + (d.1 + d.2.1 * opsOf stripMine))) d.2.2 =
          op.result p (inst.lanePair p.ts file (wideLane d)) := by
  have hlayout : ∀ f : BitVec p.td.bits → BitVec p.td.bits → BitVec p.td.bits,
      (∀ a b : ℤ, f (BitVec.ofInt p.td.bits a) (BitVec.ofInt p.td.bits b) =
        BitVec.ofInt p.td.bits (op.exact a b)) →
      ∃ file', wideningOp p f inst.vs2.isScalar stripMine inst file = some file' ∧
        ∀ d ∈ wideDests p (opsOf stripMine),
          element p.td (file' (inst.vd + (d.1 + d.2.1 * opsOf stripMine))) d.2.2 =
            op.result p (inst.lanePair p.ts file (wideLane d)) := by
    intro f hf
    obtain ⟨file', hrun, hexecutes⟩ := wideningOp_executes p f stripMine inst file
    refine ⟨file', hrun, ?_⟩
    rintro ⟨k, r, j⟩ ⟨hk, hr, hj⟩
    rw [hexecutes.written k hk r hr j hj, h.live_vs1 (Nat.le_of_lt hk) hk,
      h.live_vs2 (Nat.le_of_lt hk) hk]
    exact hf _ _
  cases op with
  | vAddw => exact hlayout _ fun a b => (BitVec.ofInt_add a b).symm
  | vSubw => exact hlayout _ fun a b => (ofInt_sub _ a b).symm
  | vMulw => exact hlayout _ fun a b => (BitVec.ofInt_mul a b).symm

/-- **The layout of `VMvp`.** -/
theorem vMvp_layout (t : ElementType) (stripMine : Bool) (inst : VectorOperands) (file : VectorFile)
    (h : inst.DestDisjoint (2 * opsOf stripMine) (opsOf stripMine) (opsOf stripMine)) :
    ∃ file', coralNPUVMvp t inst.vs2.isScalar stripMine inst file = some file' ∧
      ∀ k < opsOf stripMine, ∀ e < t.eltsPerRegister,
        (element t (file' (inst.vd + k)) e, element t (file' (inst.vd + (k + opsOf stripMine))) e) =
          inst.lanePair t file (k, e) := by
  obtain ⟨file', hrun, hexecutes⟩ := vMvp_executes t stripMine inst file
  refine ⟨file', hrun, fun k hk e he => ?_⟩
  have hfirst := hexecutes.written k hk 0 Nat.two_pos e he
  have hsecond := hexecutes.written k hk 1 Nat.one_lt_two e he
  rw [if_pos rfl, h.live_vs1 (Nat.le_of_lt hk) hk, Nat.zero_mul, Nat.add_zero] at hfirst
  rw [if_neg Nat.one_ne_zero, h.live_vs2 (Nat.le_of_lt hk) hk, Nat.one_mul] at hsecond
  rw [hfirst, hsecond]
  rfl

/-- **The layout of `VAcc`.** -/
theorem vAcc_layout (p : WideTypes) (stripMine : Bool) (inst : VectorOperands) (file : VectorFile)
    (h : inst.DestDisjoint (2 * opsOf stripMine) (2 * opsOf stripMine) (opsOf stripMine)) :
    ∃ file', coralNPUVAcc p inst.vs2.isScalar stripMine inst file = some file' ∧
      ∀ d ∈ wideDests p (opsOf stripMine),
        element p.td (file' (inst.vd + (d.1 + d.2.1 * opsOf stripMine))) d.2.2 =
          element p.td (file (inst.vs1 + (d.1 + d.2.1 * opsOf stripMine))) d.2.2 +
            widen p (inst.vs2.operationElement p.ts file d.1 (wideLane d).2) := by
  obtain ⟨file', hrun, hexecutes⟩ := vAcc_executes p stripMine inst file
  refine ⟨file', hrun, ?_⟩
  rintro ⟨k, r, j⟩ ⟨hk, hr, hj⟩
  have hlt : k + r * opsOf stripMine < 2 * opsOf stripMine := by
    have hle : (r + 1) * opsOf stripMine ≤ 2 * opsOf stripMine := Nat.mul_le_mul_right _ hr
    rw [Nat.add_mul] at hle
    simp only at hk
    omega
  rw [hexecutes.written k hk r hr j hj, h.live_vs1 (Nat.le_of_lt hk) hlt,
    h.live_vs2 (Nat.le_of_lt hk) hk]
  rfl

/-- **Accumulating a widening sum**: three narrow elements are added, element by element. -/
theorem vAcc_vAddw (p : WideTypes) (stripMine : Bool) (inst inst' : VectorOperands)
    (file : VectorFile) (hvs1 : inst'.vs1 = inst.vd)
    (h : inst.DestDisjoint (2 * opsOf stripMine) (opsOf stripMine) (opsOf stripMine))
    (h' : inst'.DestDisjoint (2 * opsOf stripMine) (2 * opsOf stripMine) (opsOf stripMine)) :
    ∃ file1 file2, coralNPUVAddw p inst.vs2.isScalar stripMine inst file = some file1 ∧
      coralNPUVAcc p inst'.vs2.isScalar stripMine inst' file1 = some file2 ∧
      ∀ d ∈ wideDests p (opsOf stripMine),
        element p.td (file2 (inst'.vd + (d.1 + d.2.1 * opsOf stripMine))) d.2.2 =
          BitVec.ofInt p.td.bits (p.ts.value (inst.lanePair p.ts file (wideLane d)).1 +
            p.ts.value (inst.lanePair p.ts file (wideLane d)).2 +
            p.ts.value (inst'.lanePair p.ts file1 (wideLane d)).2) := by
  obtain ⟨file1, hrun1, hsum⟩ := WideningOp.execute_layout p .vAddw stripMine inst file h
  obtain ⟨file2, hrun2, hacc⟩ := vAcc_layout p stripMine inst' file1 h'
  refine ⟨file1, file2, hrun1, hrun2, fun d hd => ?_⟩
  rw [hacc d hd, hvs1, hsum d hd, BitVec.ofInt_add]
  rfl

/-- **The layout of the widening instructions**: every pair of source elements goes to one element
of the destinations, and `VAcc` finds what these instructions write. -/
theorem widening_layout (p : WideTypes) (stripMine : Bool) (inst : VectorOperands)
    (file : VectorFile)
    (h : inst.DestDisjoint (2 * opsOf stripMine) (opsOf stripMine) (opsOf stripMine)) :
    Set.BijOn wideLane (wideDests p (opsOf stripMine)) (wideLanes p (opsOf stripMine)) ∧
      (∀ op : WideningOp, ∃ file', op.execute p inst.vs2.isScalar stripMine inst file = some file' ∧
        ∀ d ∈ wideDests p (opsOf stripMine),
          element p.td (file' (inst.vd + (d.1 + d.2.1 * opsOf stripMine))) d.2.2 =
            op.result p (inst.lanePair p.ts file (wideLane d))) ∧
      (∀ t : ElementType,
        ∃ file', coralNPUVMvp t inst.vs2.isScalar stripMine inst file = some file' ∧
        ∀ k < opsOf stripMine, ∀ e < t.eltsPerRegister,
          (element t (file' (inst.vd + k)) e,
            element t (file' (inst.vd + (k + opsOf stripMine))) e) =
            inst.lanePair t file (k, e)) ∧
      ∀ inst' : VectorOperands, inst'.vs1 = inst.vd →
        inst'.DestDisjoint (2 * opsOf stripMine) (2 * opsOf stripMine) (opsOf stripMine) →
        ∃ file1 file2, coralNPUVAddw p inst.vs2.isScalar stripMine inst file = some file1 ∧
          coralNPUVAcc p inst'.vs2.isScalar stripMine inst' file1 = some file2 ∧
          ∀ d ∈ wideDests p (opsOf stripMine),
            element p.td (file2 (inst'.vd + (d.1 + d.2.1 * opsOf stripMine))) d.2.2 =
              BitVec.ofInt p.td.bits (p.ts.value (inst.lanePair p.ts file (wideLane d)).1 +
                p.ts.value (inst.lanePair p.ts file (wideLane d)).2 +
                p.ts.value (inst'.lanePair p.ts file1 (wideLane d)).2) :=
  ⟨wideLane_bijOn p _, fun op => op.execute_layout p stripMine inst file h,
    fun t => vMvp_layout t stripMine inst file h,
    fun inst' hvs1 h' => vAcc_vAddw p stripMine inst inst' file hvs1 h h'⟩

/-- A plain sum of bytes, with a scalar added. -/
theorem widening_layout_int8 :
    ∃ file1 file2, coralNPUVAddw .int16FromInt8 false false ⟨10, 0, .group 1⟩ (fun _ => 0) =
      some file1 ∧
      coralNPUVAcc .int16FromInt8 true false ⟨20, 10, .scalar 200⟩ file1 = some file2 ∧
      element .int16 (file2 21) 3 = BitVec.ofInt 16 (-56) := by
  have h' : VectorOperands.DestDisjoint ⟨20, 10, .scalar 200⟩ 2 2 1 := by
    intro i _
    refine ⟨fun j hj => ?_, ?_⟩
    · show 10 + j ≠ 20 + i
      omega
    · rintro start heq
      cases heq
  obtain ⟨-, -, -, hacc⟩ := widening_layout .int16FromInt8 false ⟨10, 0, .group 1⟩ (fun _ => 0)
    (destDisjoint_of_le (by decide) (by decide))
  obtain ⟨file1, file2, hrun1, hrun2, helement⟩ := hacc ⟨20, 10, .scalar 200⟩ rfl h'
  exact ⟨file1, file2, hrun1, hrun2, helement (0, 1, 3) ⟨by decide, by decide, by decide⟩⟩

end Layouts

end CoralNpu
