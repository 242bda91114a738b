/-
**Slides, zips and splits.**

These instructions move elements and compute nothing.  A register group is a row of elements.  A
slide takes a window of the row of two sources, `VZip` interleaves two rows, and `VEvnodd` takes the
row of two sources apart.

Main definitions:

* `CoralNpu.coralNPUVSlidevn`, `CoralNpu.coralNPUVSlidehn`, `CoralNpu.coralNPUVSlidevp`,
  `CoralNpu.coralNPUVSlidehp` — the slides, vertical and horizontal, to the next and the previous
  register;
* `CoralNpu.coralNPUVEvnodd`, `CoralNpu.coralNPUVZip` — the split and the zip;
* `CoralNpu.sourceRow` — the row of both sources.

Main results:

* `CoralNpu.moveOp_executes` — what a move does, by its getter;
* `CoralNpu.vZip_row`, `CoralNpu.vEvnodd_row` — the rows of zip and split;
* `CoralNpu.evnodd_zip_inverse` — **zip and split are inverse**;
* `CoralNpu.slides_windows` — **slides are windows**.
-/

import CoralNpu.CoralNpuVectorExecute

set_option relaxedAutoImplicit false
set_option autoImplicit false

namespace CoralNpu

open Lanes

/-! ### The instructions -/

section Instructions

variable (t : ElementType)

/-- An instruction whose operation returns its first argument. -/
def moveOp (widenDst scalar stripMine : Bool) (arg1Getter arg2Getter : SourceArgGetter) :
    VectorOperands → VectorFile → Option VectorFile :=
  coralNPUBinaryVectorOp false widenDst scalar stripMine
    (fun (_ : BitVec t.bits) (vs1 _ : BitVec t.bits) => some vs1) arg1Getter arg2Getter

/-- `CoralNPUVSlidevn`. -/
def coralNPUVSlidevn (index : ℕ) (stripMine : Bool) :
    VectorOperands → VectorFile → Option VectorFile :=
  moveOp t false false stripMine (vSlidenOpGetArg1 t.size false index)
    (commonBinaryOpGetArg2 t.size t.size)

/-- `CoralNPUVSlidehn`. -/
def coralNPUVSlidehn (index : ℕ) : VectorOperands → VectorFile → Option VectorFile :=
  moveOp t false false true (vSlidenOpGetArg1 t.size true index)
    (commonBinaryOpGetArg2 t.size t.size)

/-- `CoralNPUVSlidevp`. -/
def coralNPUVSlidevp (index : ℕ) (stripMine : Bool) :
    VectorOperands → VectorFile → Option VectorFile :=
  moveOp t false false stripMine (vSlidepOpGetArg1 t.size false index)
    (commonBinaryOpGetArg2 t.size t.size)

/-- `CoralNPUVSlidehp`. -/
def coralNPUVSlidehp (index : ℕ) : VectorOperands → VectorFile → Option VectorFile :=
  moveOp t false false true (vSlidepOpGetArg1 t.size true index)
    (commonBinaryOpGetArg2 t.size t.size)

/-- `CoralNPUVEvnodd`. -/
def coralNPUVEvnodd (scalar stripMine : Bool) : VectorOperands → VectorFile → Option VectorFile :=
  moveOp t true scalar stripMine (vEvnoddOpGetArg1 t.size) (vEvnoddOpGetArg1 t.size)

/-- `CoralNPUVZip`. -/
def coralNPUVZip (scalar stripMine : Bool) : VectorOperands → VectorFile → Option VectorFile :=
  moveOp t true scalar stripMine (vZipOpGetArg1 t.size) (vZipOpGetArg1 t.size)

end Instructions

/-! ### Moves of elements -/

section Moves

variable {t : ElementType} {widenDst stripMine : Bool} {arg1Getter arg2Getter : SourceArgGetter}
  {vd vs1 vs2 : ℕ} {file file' : VectorFile}

/-- The destinations of an operation of a move. -/
def moveDests (widenDst : Bool) : ℕ := if widenDst then 2 else 1

/-- **What a move does**, by its getter. -/
theorem moveOp_executes (t : ElementType) (widenDst scalar stripMine : Bool)
    (arg1Getter arg2Getter : SourceArgGetter) (inst : VectorOperands) (file : VectorFile) :
    ∃ file', moveOp t widenDst scalar stripMine arg1Getter arg2Getter inst file = some file' ∧
      Executes t (opsOf stripMine) (moveDests widenDst) inst.vd (fun k r e s =>
        inst.getInstructionSource t s (arg1Getter scalar (opsOf stripMine) k e r)) file file' := by
  obtain ⟨file', hrun, hexecutes⟩ := element_binaryVectorOp false widenDst scalar stripMine
    (fun (_ : BitVec t.bits) (vs1 _ : BitVec t.bits) => vs1) arg1Getter arg2Getter inst file
  have hdest : destRegsPerOp false widenDst t.size t.size = moveDests widenDst := by
    simp [destRegsPerOp, moveDests]
  rw [hdest] at hexecutes
  exact ⟨file', hrun, hexecutes⟩

/-- An element of a group whose registers are found as they were. -/
theorem groupElement_live (t : ElementType) (file file' : VectorFile) {n d c start : ℕ}
    (h : ∀ i < d * n, ∀ j < c, start + j ≠ vd + i) {k i : ℕ} (hk : k ≤ n)
    (hi : i < c * t.eltsPerRegister) :
    groupElement t (liveFile vd n d file file' k) start i = groupElement t file start i := by
  have hlt : i / t.eltsPerRegister < c := Nat.div_lt_of_lt_mul (by rwa [Nat.mul_comm])
  exact congrArg (element t · (i % t.eltsPerRegister))
    (liveFile_of_forall_ne hk fun m hm => h m hm _ hlt)

/-- The elements of the sources one behind the other, `c` registers of the first. -/
def sourceRow (t : ElementType) (file : VectorFile) (c vs1 vs2 : ℕ) : ℕ → BitVec t.bits :=
  appendRow (c * t.eltsPerRegister) (groupElement t file vs1) (groupElement t file vs2)

/-- A row of sources whose registers are found as they were. -/
theorem sourceRow_live {n d c1 c2 : ℕ}
    (h : VectorOperands.DestDisjoint ⟨vd, vs1, .group vs2⟩ (d * n) c1 c2) {k i : ℕ} (hk : k ≤ n)
    (hi : i < (c1 + c2) * t.eltsPerRegister) :
    sourceRow t (liveFile vd n d file file' k) c1 vs1 vs2 i = sourceRow t file c1 vs1 vs2 i := by
  rw [Nat.add_mul] at hi
  rw [sourceRow, sourceRow, appendRow, appendRow]
  split
  · rename_i hlt
    exact groupElement_live t _ _ (fun m hm => (h m hm).1) hk hlt
  · exact groupElement_live t _ _ (fun m hm => (h m hm).2 vs2 rfl) hk (by omega)

/-- Two groups of which one follows the other. -/
theorem sourceRow_contiguous (t : ElementType) (file : VectorFile) (c start : ℕ) :
    sourceRow t file c start (start + c) = groupElement t file start := by
  funext i
  rw [sourceRow, appendRow]
  split
  · rfl
  · rename_i hge
    rw [← groupElement_add, Nat.add_sub_cancel' (Nat.le_of_not_lt hge)]

/-- The elements of a destination as a row. -/
theorem groupElement_of_executes {n d : ℕ}
    {value : ℕ → ℕ → ℕ → VectorFile → BitVec t.bits} (h : Executes t n d vd value file file')
    {k r e : ℕ} (hk : k < n) (hr : r < d) (he : e < t.eltsPerRegister) :
    groupElement t file' (vd + r * n) (k * t.eltsPerRegister + e) =
      value k r e (liveFile vd n d file file' k) := by
  rw [groupElement_mul_add t file' _ k he, Nat.add_assoc, Nat.add_comm (r * n)]
  exact h.written k hk r hr e he

/-- The operation, the destination and the element for an index in all the destinations. -/
theorem exists_dest {n d i : ℕ} (h : i < d * n * t.eltsPerRegister) :
    ∃ k < n, ∃ r < d, ∃ e < t.eltsPerRegister, i = (k + r * n) * t.eltsPerRegister + e := by
  have hq : i / t.eltsPerRegister < d * n := Nat.div_lt_of_lt_mul (by rwa [Nat.mul_comm])
  have hn : 0 < n := Nat.pos_of_ne_zero fun hzero => by
    rw [hzero, Nat.mul_zero] at hq
    exact absurd hq (Nat.not_lt_zero _)
  refine ⟨i / t.eltsPerRegister % n, Nat.mod_lt _ hn, i / t.eltsPerRegister / n,
    Nat.div_lt_of_lt_mul (by rwa [Nat.mul_comm]), i % t.eltsPerRegister,
    Nat.mod_lt _ (eltsPerRegister_pos t), ?_⟩
  rw [Nat.mod_add_div', Nat.div_add_mod']

/-- Groups with the same elements have the same registers. -/
theorem register_eq_of_groupElement {n start start' : ℕ}
    (h : ∀ i < n * t.eltsPerRegister, groupElement t file' start' i = groupElement t file start i)
    {k : ℕ} (hk : k < n) : file' (start' + k) = file (start + k) := by
  refine ext_of_elements t fun e he => ?_
  have hlt : k * t.eltsPerRegister + e < n * t.eltsPerRegister := by
    have hle : (k + 1) * t.eltsPerRegister ≤ n * t.eltsPerRegister := Nat.mul_le_mul_right _ hk
    rw [Nat.add_mul] at hle
    omega
  rw [← groupElement_mul_add t file' start' k he, ← groupElement_mul_add t file start k he, h _ hlt]

end Moves

/-! ### Zip and split -/

section Zip

variable {t : ElementType} {stripMine : Bool} {vd vs1 vs2 : ℕ} {file : VectorFile}

theorem eltsPerRegister_even (t : ElementType) :
    t.eltsPerRegister = 2 * (t.eltsPerRegister / 2) := by
  cases t <;> rfl

/-- Half the index of an element of the destination of a zip. -/
theorem zipIndex (t : ElementType) (n k r e : ℕ) :
    ((k + r * n) * t.eltsPerRegister + e) / 2 =
      k * (t.eltsPerRegister / 2) + e / 2 + r * (t.eltsPerRegister / 2) * n ∧
    ((k + r * n) * t.eltsPerRegister + e) % 2 = e % 2 := by
  have heven := eltsPerRegister_even t
  generalize t.eltsPerRegister / 2 = half at heven
  have hsplit : (k + r * n) * t.eltsPerRegister + e = 2 * (k * half + r * half * n) + e := by
    rw [heven]
    ring
  rw [hsplit]
  omega

/-- **The destinations of a zip are the interleaved sources.** -/
theorem vZip_row (t : ElementType) (stripMine : Bool) (vd vs1 vs2 : ℕ) (file : VectorFile)
    (h : VectorOperands.DestDisjoint ⟨vd, vs1, .group vs2⟩ (2 * opsOf stripMine) (opsOf stripMine)
      (opsOf stripMine)) :
    ∃ file', coralNPUVZip t false stripMine ⟨vd, vs1, .group vs2⟩ file = some file' ∧
      ∀ i < 2 * opsOf stripMine * t.eltsPerRegister, groupElement t file' vd i =
        interleave (groupElement t file vs1) (groupElement t file vs2) i := by
  obtain ⟨file', hrun, hexecutes⟩ := moveOp_executes t true false stripMine (vZipOpGetArg1 t.size)
    (vZipOpGetArg1 t.size) ⟨vd, vs1, .group vs2⟩ file
  refine ⟨file', hrun, fun i hi => ?_⟩
  obtain ⟨k, hk, r, hr, e, he, rfl⟩ := exists_dest hi
  obtain ⟨hhalf, hparity⟩ := zipIndex t (opsOf stripMine) k r e
  have hbound : k * (t.eltsPerRegister / 2) + e / 2 +
      r * (t.eltsPerRegister / 2) * opsOf stripMine < opsOf stripMine * t.eltsPerRegister := by
    rw [Nat.mul_assoc] at hi
    omega
  have hlive1 := groupElement_live t file file' (fun i hi => (h i hi).1) (Nat.le_of_lt hk) hbound
  have hlive2 := groupElement_live t file file' (fun i hi => (h i hi).2 vs2 rfl) (Nat.le_of_lt hk)
    hbound
  rw [groupElement_mul_add t file' vd _ he, hexecutes.written k hk r hr e he, interleave,
    hparity, hhalf]
  simp only [vZipOpGetArg1]
  split
  · exact hlive2
  · exact hlive1

/-- The element that a split takes. -/
theorem vEvnoddSource_eq (t : ElementType) (n k e : ℕ) {r : ℕ} (hr : r < 2) :
    VectorOperands.getInstructionSource t ⟨vd, vs1, .group vs2⟩ file
        (vEvnoddOpGetArg1 t.size false n k e r) =
      alternate r (sourceRow t file n vs1 vs2) (k * t.eltsPerRegister + e) := by
  have hgetter : vEvnoddOpGetArg1 t.size false n k e r = vEvnOpGetArg1 r t.size false n k e r := by
    rw [vEvnoddOpGetArg1]
    split
    · rename_i hzero
      rw [hzero]
    · obtain rfl : r = 1 := by omega
      rfl
  have hindex : 2 * (k * t.eltsPerRegister + e) + r = k * t.eltsPerRegister * 2 + e * 2 + r := by
    ring
  have helement : vEvnOpGetArg1 r t.size false n k e r =
      if k * t.eltsPerRegister * 2 + e * 2 + r < t.eltsPerRegister * n then
        .element 0 t.size (k * t.eltsPerRegister * 2 + e * 2 + r)
      else .element 1 t.size (k * t.eltsPerRegister * 2 + e * 2 + r - t.eltsPerRegister * n) := rfl
  rw [hgetter, helement, alternate, sourceRow, hindex, appendRow, Nat.mul_comm n]
  by_cases hlt : k * t.eltsPerRegister * 2 + e * 2 + r < t.eltsPerRegister * n
  · rw [if_pos hlt, if_pos hlt]
    rfl
  · rw [if_neg hlt, if_neg hlt]
    rfl

/-- **The destinations of a split are every other element of the row of the sources.** -/
theorem vEvnodd_row (t : ElementType) (stripMine : Bool) (vd vs1 vs2 : ℕ) (file : VectorFile)
    (h : VectorOperands.DestDisjoint ⟨vd, vs1, .group vs2⟩ (2 * opsOf stripMine) (opsOf stripMine)
      (opsOf stripMine)) :
    ∃ file', coralNPUVEvnodd t false stripMine ⟨vd, vs1, .group vs2⟩ file = some file' ∧
      ∀ r < 2, ∀ i < opsOf stripMine * t.eltsPerRegister,
        groupElement t file' (vd + r * opsOf stripMine) i =
          alternate r (sourceRow t file (opsOf stripMine) vs1 vs2) i := by
  obtain ⟨file', hrun, hexecutes⟩ := moveOp_executes t true false stripMine
    (vEvnoddOpGetArg1 t.size) (vEvnoddOpGetArg1 t.size) ⟨vd, vs1, .group vs2⟩ file
  refine ⟨file', hrun, fun r hr i hi => ?_⟩
  obtain ⟨k, hk, _, hone, e, he, rfl⟩ := exists_dest (n := opsOf stripMine) (d := 1) (t := t)
    (by rwa [Nat.one_mul])
  obtain rfl := Nat.lt_one_iff.1 hone
  rw [Nat.zero_mul, Nat.add_zero] at hi ⊢
  rw [groupElement_of_executes hexecutes hk hr he, vEvnoddSource_eq t _ k e hr]
  refine sourceRow_live h (Nat.le_of_lt hk) ?_
  rw [Nat.add_mul]
  omega

/-- **Zip and split are inverse.**  Splitting the destinations of a zip restores its sources, and
zipping those of a split restores the sources, one behind the other. -/
theorem evnodd_zip_inverse (t : ElementType) (stripMine : Bool) (vd vd' vs1 vs2 : ℕ)
    (file : VectorFile)
    (h : VectorOperands.DestDisjoint ⟨vd, vs1, .group vs2⟩ (2 * opsOf stripMine) (opsOf stripMine)
      (opsOf stripMine))
    (h' : VectorOperands.DestDisjoint ⟨vd', vd, .group (vd + opsOf stripMine)⟩
      (2 * opsOf stripMine) (opsOf stripMine) (opsOf stripMine)) :
    (∃ file1 file2, coralNPUVZip t false stripMine ⟨vd, vs1, .group vs2⟩ file = some file1 ∧
      coralNPUVEvnodd t false stripMine ⟨vd', vd, .group (vd + opsOf stripMine)⟩ file1 =
        some file2 ∧
      ∀ k < opsOf stripMine, file2 (vd' + k) = file (vs1 + k) ∧
        file2 (vd' + opsOf stripMine + k) = file (vs2 + k)) ∧
    ∃ file1 file2, coralNPUVEvnodd t false stripMine ⟨vd, vs1, .group vs2⟩ file = some file1 ∧
      coralNPUVZip t false stripMine ⟨vd', vd, .group (vd + opsOf stripMine)⟩ file1 = some file2 ∧
      ∀ k < opsOf stripMine, file2 (vd' + k) = file (vs1 + k) ∧
        file2 (vd' + opsOf stripMine + k) = file (vs2 + k) := by
  constructor
  · obtain ⟨file1, hrun1, hzip⟩ := vZip_row t stripMine vd vs1 vs2 file h
    obtain ⟨file2, hrun2, hsplit⟩ := vEvnodd_row t stripMine vd' vd (vd + opsOf stripMine) file1 h'
    obtain ⟨heven, hodd⟩ := alternate_interleave (groupElement t file vs1) (groupElement t file vs2)
    have hpart : ∀ r < 2, ∀ i < opsOf stripMine * t.eltsPerRegister,
        groupElement t file2 (vd' + r * opsOf stripMine) i =
          alternate r (interleave (groupElement t file vs1) (groupElement t file vs2)) i := by
      intro r hr i hi
      rw [hsplit r hr i hi, sourceRow_contiguous]
      exact hzip (2 * i + r) (by rw [Nat.mul_assoc]; omega)
    refine ⟨file1, file2, hrun1, hrun2, fun k hk => ⟨?_, ?_⟩⟩
    · refine register_eq_of_groupElement (t := t) (fun i hi => ?_) hk
      have helement := hpart 0 Nat.two_pos i hi
      rwa [heven, Nat.zero_mul, Nat.add_zero] at helement
    · refine register_eq_of_groupElement (t := t) (fun i hi => ?_) hk
      have helement := hpart 1 Nat.one_lt_two i hi
      rwa [hodd, Nat.one_mul] at helement
  · obtain ⟨file1, hrun1, hsplit⟩ := vEvnodd_row t stripMine vd vs1 vs2 file h
    obtain ⟨file2, hrun2, hzip⟩ := vZip_row t stripMine vd' vd (vd + opsOf stripMine) file1 h'
    have hrow : ∀ i < 2 * opsOf stripMine * t.eltsPerRegister,
        groupElement t file2 vd' i = sourceRow t file (opsOf stripMine) vs1 vs2 i := by
      intro i hi
      have hhalf : i / 2 < opsOf stripMine * t.eltsPerRegister := by
        rw [Nat.mul_assoc] at hi
        omega
      have hfirst := hsplit 0 Nat.two_pos (i / 2) hhalf
      have hsecond := hsplit 1 Nat.one_lt_two (i / 2) hhalf
      rw [Nat.zero_mul, Nat.add_zero] at hfirst
      rw [Nat.one_mul] at hsecond
      rw [hzip i hi, interleave, hfirst, hsecond]
      exact congrFun (interleave_alternate (sourceRow t file (opsOf stripMine) vs1 vs2)) i
    refine ⟨file1, file2, hrun1, hrun2, fun k hk => ⟨?_, ?_⟩⟩
    · refine register_eq_of_groupElement (t := t) (fun i hi => ?_) hk
      rw [hrow i (by rw [Nat.mul_assoc]; omega), sourceRow, appendRow_of_lt _ _ hi]
    · refine register_eq_of_groupElement (t := t) (fun i hi => ?_) hk
      rw [← groupElement_add, hrow _ (by rw [Nat.mul_assoc]; omega), sourceRow, appendRow_add]

/-- Strip-mined, with bytes. -/
theorem evnodd_zip_inverse_int8 :
    ∃ file1 file2,
      coralNPUVZip .int8 false true ⟨8, 0, .group 4⟩ (fun m => BitVec.ofNat _ m) = some file1 ∧
      coralNPUVEvnodd .int8 false true ⟨16, 8, .group 12⟩ file1 = some file2 ∧
      file2 19 = 3 ∧ file2 21 = 5 := by
  obtain ⟨⟨file1, file2, hzip, hsplit, hregister⟩, -⟩ := evnodd_zip_inverse .int8 true 8 16 0 4
    (fun m => BitVec.ofNat _ m) (destDisjoint_of_le (by decide) (by decide))
    (destDisjoint_of_le (by decide) (by decide))
  exact ⟨file1, file2, hzip, hsplit, (hregister 3 (by decide)).1, (hregister 1 (by decide)).2⟩

end Zip

/-! ### Slides -/

section Slides

variable {t : ElementType} {vd vs1 vs2 : ℕ} {file : VectorFile}

/-- The element that a vertical slide to the next register takes. -/
theorem vSlidevnSource_eq (t : ElementType) (scalar : Bool) (index n k e r : ℕ) :
    VectorOperands.getInstructionSource t ⟨vd, vs1, .group vs2⟩ file
        (vSlidenOpGetArg1 t.size false index scalar n k e r) =
      sourceRow t file 1 (vs1 + k) (vs2 + k) (index + e) := by
  have helement : vSlidenOpGetArg1 t.size false index scalar n k e r =
      if e + index < t.eltsPerRegister then .element 0 t.size (k * t.eltsPerRegister + e + index)
      else .element 1 t.size (k * t.eltsPerRegister + e + index - t.eltsPerRegister) := rfl
  rw [helement, sourceRow, appendRow, Nat.one_mul, Nat.add_comm index]
  by_cases hlt : e + index < t.eltsPerRegister
  · rw [if_pos hlt, if_pos hlt, ← groupElement_add, ← Nat.add_assoc]
    rfl
  · rw [if_neg hlt, if_neg hlt, ← groupElement_add]
    show groupElement t file vs2 (k * t.eltsPerRegister + e + index - t.eltsPerRegister) = _
    congr 1
    omega

/-- The element that a vertical slide to the previous register takes. -/
theorem vSlidevpSource_eq (t : ElementType) (scalar : Bool) {index : ℕ} (n k e r : ℕ)
    (hindex : index ≤ t.eltsPerRegister) :
    VectorOperands.getInstructionSource t ⟨vd, vs1, .group vs2⟩ file
        (vSlidepOpGetArg1 t.size false index scalar n k e r) =
      sourceRow t file 1 (vs1 + k) (vs2 + k) (t.eltsPerRegister - index + e) := by
  have helement : vSlidepOpGetArg1 t.size false index scalar n k e r =
      if e < index then .element 0 t.size (k * t.eltsPerRegister + e + t.eltsPerRegister - index)
      else .element 1 t.size (k * t.eltsPerRegister + e - index) := rfl
  rw [helement, sourceRow, appendRow, Nat.one_mul]
  by_cases hlt : e < index
  · rw [if_pos hlt, if_pos (by omega), ← groupElement_add]
    show groupElement t file vs1 (k * t.eltsPerRegister + e + t.eltsPerRegister - index) = _
    congr 1
    omega
  · rw [if_neg hlt, if_neg (by omega), ← groupElement_add]
    show groupElement t file vs2 (k * t.eltsPerRegister + e - index) = _
    congr 1
    omega

/-- The element that a horizontal slide to the next register takes. -/
theorem vSlidehnSource_eq (t : ElementType) (scalar : Bool) {index k e : ℕ} (n r : ℕ)
    (hindex : index ≤ t.eltsPerRegister) (hk : k < 4) (he : e < t.eltsPerRegister) :
    VectorOperands.getInstructionSource t ⟨vd, vs1, .group vs2⟩ file
        (vSlidenOpGetArg1 t.size true index scalar n k e r) =
      sourceRow t file 4 vs1 vs2 (index + (k * t.eltsPerRegister + e)) := by
  have helement : vSlidenOpGetArg1 t.size true index scalar n k e r =
      if e + index < t.eltsPerRegister then .element 0 t.size (k * t.eltsPerRegister + e + index)
      else .element (nextEnd true k).2 t.size
        ((nextEnd true k).1 * t.eltsPerRegister + e + index - t.eltsPerRegister) := rfl
  rw [helement, sourceRow, appendRow]
  by_cases hlt : e + index < t.eltsPerRegister
  · have hrow : index + (k * t.eltsPerRegister + e) < 4 * t.eltsPerRegister := by
      have hle : (k + 1) * t.eltsPerRegister ≤ 4 * t.eltsPerRegister := Nat.mul_le_mul_right _ hk
      rw [Nat.add_mul] at hle
      omega
    rw [if_pos hlt, if_pos hrow]
    show groupElement t file vs1 (k * t.eltsPerRegister + e + index) = _
    congr 1
    omega
  · rw [if_neg hlt]
    -- past the seam the element comes from the next register, or from the second source
    obtain rfl | rfl | rfl | rfl : k = 0 ∨ k = 1 ∨ k = 2 ∨ k = 3 := by omega
    · rw [if_pos (by omega)]
      show groupElement t file vs1 (1 * t.eltsPerRegister + e + index - t.eltsPerRegister) = _
      congr 1
      omega
    · rw [if_pos (by omega)]
      show groupElement t file vs1 (2 * t.eltsPerRegister + e + index - t.eltsPerRegister) = _
      congr 1
      omega
    · rw [if_pos (by omega)]
      show groupElement t file vs1 (3 * t.eltsPerRegister + e + index - t.eltsPerRegister) = _
      congr 1
      omega
    · rw [if_neg (by omega)]
      show groupElement t file vs2 (0 * t.eltsPerRegister + e + index - t.eltsPerRegister) = _
      congr 1
      omega

/-- The element that a horizontal slide to the previous register takes. -/
theorem vSlidehpSource_eq (t : ElementType) (scalar : Bool) {index k e : ℕ} (n r : ℕ)
    (hindex : index ≤ t.eltsPerRegister) (hk : k < 4) (he : e < t.eltsPerRegister) :
    VectorOperands.getInstructionSource t ⟨vd, vs1, .group vs2⟩ file
        (vSlidepOpGetArg1 t.size true index scalar n k e r) =
      sourceRow t file 4 vs1 vs2 (4 * t.eltsPerRegister - index + (k * t.eltsPerRegister + e)) := by
  have helement : vSlidepOpGetArg1 t.size true index scalar n k e r =
      if e < index then .element (previousStart true k).2 t.size
        ((previousStart true k).1 * t.eltsPerRegister + e + t.eltsPerRegister - index)
      else .element 1 t.size (k * t.eltsPerRegister + e - index) := rfl
  rw [helement, sourceRow, appendRow]
  by_cases hlt : e < index
  · rw [if_pos hlt]
    -- before the seam the element comes from the previous register, or from the last one of the
    -- first source
    obtain rfl | rfl | rfl | rfl : k = 0 ∨ k = 1 ∨ k = 2 ∨ k = 3 := by omega
    · rw [if_pos (by omega)]
      show groupElement t file vs1 (3 * t.eltsPerRegister + e + t.eltsPerRegister - index) = _
      congr 1
      omega
    · rw [if_neg (by omega)]
      show groupElement t file vs2 (0 * t.eltsPerRegister + e + t.eltsPerRegister - index) = _
      congr 1
      omega
    · rw [if_neg (by omega)]
      show groupElement t file vs2 (1 * t.eltsPerRegister + e + t.eltsPerRegister - index) = _
      congr 1
      omega
    · rw [if_neg (by omega)]
      show groupElement t file vs2 (2 * t.eltsPerRegister + e + t.eltsPerRegister - index) = _
      congr 1
      omega
  · rw [if_neg hlt, if_neg (by omega)]
    show groupElement t file vs2 (k * t.eltsPerRegister + e - index) = _
    congr 1
    omega

/-- A register of either source. -/
theorem destDisjoint_register {d c1 c2 k : ℕ}
    (h : VectorOperands.DestDisjoint ⟨vd, vs1, .group vs2⟩ d c1 c2) (h1 : k < c1) (h2 : k < c2) :
    VectorOperands.DestDisjoint ⟨vd, vs1 + k, .group (vs2 + k)⟩ d 1 1 := by
  intro i hi
  refine ⟨fun j hj => ?_, ?_⟩
  · obtain rfl := Nat.lt_one_iff.1 hj
    exact (h i hi).1 k h1
  · rintro start heq j hj
    cases heq
    obtain rfl := Nat.lt_one_iff.1 hj
    exact (h i hi).2 vs2 rfl k h2

/-- A move that takes a window of the sources of every operation. -/
theorem moveOp_vertical (t : ElementType) (stripMine : Bool) {getter getter2 : SourceArgGetter}
    {start : ℕ} (hstart : start ≤ t.eltsPerRegister)
    (hsource : ∀ k e s, VectorOperands.getInstructionSource t ⟨vd, vs1, .group vs2⟩ s
        (getter false (opsOf stripMine) k e 0) =
      sourceRow t s 1 (vs1 + k) (vs2 + k) (start + e))
    (h : VectorOperands.DestDisjoint ⟨vd, vs1, .group vs2⟩ (opsOf stripMine) (opsOf stripMine)
      (opsOf stripMine)) :
    ∃ file', moveOp t false false stripMine getter getter2 ⟨vd, vs1, .group vs2⟩ file = some file' ∧
      ∀ k < opsOf stripMine, ∀ e < t.eltsPerRegister, element t (file' (vd + k)) e =
        sourceRow t file 1 (vs1 + k) (vs2 + k) (start + e) := by
  obtain ⟨file', hrun, hexecutes⟩ := moveOp_executes t false false stripMine getter getter2
    ⟨vd, vs1, .group vs2⟩ file
  refine ⟨file', hrun, fun k hk e he => ?_⟩
  have hwritten := hexecutes.written k hk 0 Nat.one_pos e he
  rw [Nat.zero_mul, Nat.add_zero] at hwritten
  rw [hwritten, hsource]
  rw [← Nat.one_mul (opsOf stripMine)] at h
  refine sourceRow_live (destDisjoint_register h (by rwa [Nat.one_mul]) (by rwa [Nat.one_mul]))
    (Nat.le_of_lt hk) ?_
  omega

/-- A move that takes a window of the whole sources. -/
theorem moveOp_horizontal (t : ElementType) {getter getter2 : SourceArgGetter} {start : ℕ}
    (hstart : start ≤ 4 * t.eltsPerRegister)
    (hsource : ∀ k < 4, ∀ e < t.eltsPerRegister, ∀ s,
      VectorOperands.getInstructionSource t ⟨vd, vs1, .group vs2⟩ s (getter false 4 k e 0) =
        sourceRow t s 4 vs1 vs2 (start + (k * t.eltsPerRegister + e)))
    (h : VectorOperands.DestDisjoint ⟨vd, vs1, .group vs2⟩ 4 4 4) :
    ∃ file', moveOp t false false true getter getter2 ⟨vd, vs1, .group vs2⟩ file = some file' ∧
      ∀ i < 4 * t.eltsPerRegister,
        groupElement t file' vd i = sourceRow t file 4 vs1 vs2 (start + i) := by
  obtain ⟨file', hrun, hexecutes⟩ := moveOp_executes t false false true getter getter2
    ⟨vd, vs1, .group vs2⟩ file
  refine ⟨file', hrun, fun i hi => ?_⟩
  obtain ⟨k, hk, r, hr, e, he, rfl⟩ := exists_dest (n := 4) (d := 1) hi
  obtain rfl := Nat.lt_one_iff.1 hr
  have hwritten := hexecutes.written k hk 0 Nat.one_pos e he
  rw [Nat.zero_mul, Nat.add_zero] at hwritten hi ⊢
  rw [groupElement_mul_add t file' vd k he, hwritten]
  refine (hsource k hk e he _).trans (sourceRow_live (n := 4) (d := 1) h (Nat.le_of_lt hk) ?_)
  omega

/-- **Slides are windows** of the row of their sources: of the registers of every operation, or of
the whole groups. -/
theorem slides_windows (t : ElementType) {index : ℕ} (hindex : index ≤ 4) (vd vs1 vs2 : ℕ)
    (file : VectorFile) :
    (∀ stripMine, VectorOperands.DestDisjoint ⟨vd, vs1, .group vs2⟩ (opsOf stripMine)
        (opsOf stripMine) (opsOf stripMine) →
      (∃ file', coralNPUVSlidevn t index stripMine ⟨vd, vs1, .group vs2⟩ file = some file' ∧
        ∀ k < opsOf stripMine, ∀ e < t.eltsPerRegister, element t (file' (vd + k)) e =
          sourceRow t file 1 (vs1 + k) (vs2 + k) (index + e)) ∧
      ∃ file', coralNPUVSlidevp t index stripMine ⟨vd, vs1, .group vs2⟩ file = some file' ∧
        ∀ k < opsOf stripMine, ∀ e < t.eltsPerRegister, element t (file' (vd + k)) e =
          sourceRow t file 1 (vs1 + k) (vs2 + k) (t.eltsPerRegister - index + e)) ∧
    (VectorOperands.DestDisjoint ⟨vd, vs1, .group vs2⟩ 4 4 4 →
      (∃ file', coralNPUVSlidehn t index ⟨vd, vs1, .group vs2⟩ file = some file' ∧
        ∀ i < 4 * t.eltsPerRegister,
          groupElement t file' vd i = sourceRow t file 4 vs1 vs2 (index + i)) ∧
      ∃ file', coralNPUVSlidehp t index ⟨vd, vs1, .group vs2⟩ file = some file' ∧
        ∀ i < 4 * t.eltsPerRegister,
          groupElement t file' vd i =
            sourceRow t file 4 vs1 vs2 (4 * t.eltsPerRegister - index + i)) := by
  have hle : index ≤ t.eltsPerRegister := hindex.trans (by cases t <;> decide)
  refine ⟨fun stripMine h => ⟨?_, ?_⟩, fun h => ⟨?_, ?_⟩⟩
  · exact moveOp_vertical t stripMine hle (fun k e s => vSlidevnSource_eq t _ _ _ k e 0) h
  · exact moveOp_vertical t stripMine (Nat.sub_le ..)
      (fun k e s => vSlidevpSource_eq t _ _ k e 0 hle) h
  · exact moveOp_horizontal t (by omega)
      (fun k hk e he s => vSlidehnSource_eq t _ _ 0 hle hk he) h
  · exact moveOp_horizontal t (Nat.sub_le ..)
      (fun k hk e he s => vSlidehpSource_eq t _ _ 0 hle hk he) h

/-- A strip-mined slide of bytes across the seam of the sources. -/
theorem slides_windows_int8 :
    ∃ file', coralNPUVSlidehn .int8 2 ⟨8, 0, .group 4⟩ (fun m => BitVec.ofNat _ m) = some file' ∧
      groupElement .int8 file' 8 126 = 4 := by
  obtain ⟨-, hhorizontal⟩ :=
    slides_windows .int8 (by decide : 2 ≤ 4) 8 0 4 (fun m => BitVec.ofNat _ m)
  obtain ⟨⟨file', hrun, hwindow⟩, -⟩ := hhorizontal (destDisjoint_of_le (by decide) (by decide))
  exact ⟨file', hrun, (hwindow 126 (by decide)).trans (by decide)⟩

end Slides

end CoralNpu
