/-
**The accumulator of the convolutions, set and read.**

`CoralNPUAcSet` copies the words of a group of registers to the accumulator, a register to a row or,
transposed, to a column.  `CoralNPUVcGet` copies the rows to registers and clears them.  The rows
are counted by the length of a vector and the words of a row by the size of a register.

Main definitions:

* `CoralNpu.coralNPUAcSet`, `CoralNpu.coralNPUVcGet` — the instructions.

Main results:

* `CoralNpu.accRegister_acSet`, `CoralNpu.accRegister_vcGet`, `CoralNpu.file_vcGet` — what they
  leave in the accumulator and in the registers;
* `CoralNpu.acSet_vcGet` — **what is set is what is read**, transposed or not.
-/

import CoralNpu.Accumulate
import CoralNpu.CoralNpuVectorExecute

set_option relaxedAutoImplicit false
set_option autoImplicit false

namespace CoralNpu

open Accumulate Lanes

/-- The vector registers and the accumulator, by rows. -/
structure AccState where
  file : VectorFile
  accRegister : ℕ × ℕ → BitVec 32

/-- The size of the span of words of a register. -/
def wordSpanSize : ℕ := kVectorRegisterWidth / 4

section Model

variable (isTranspose : Bool) (vs vd : ℕ)

/-- A word of register `opIndex` of the source, copied to the accumulator. -/
def acSetWord (file : VectorFile) (opIndex : ℕ) (accRegister : ℕ × ℕ → BitVec 32) (i : ℕ) :
    ℕ × ℕ → BitVec 32 :=
  if isTranspose then Function.update accRegister (i, opIndex) (lane 32 (file (vs + opIndex)) i)
  else Function.update accRegister (opIndex, i) (lane 32 (file (vs + opIndex)) i)

/-- `CoralNPUAcSet`. -/
def coralNPUAcSet (s : AccState) : AccState :=
  { s with
    accRegister := (List.range kVecLenInWord).foldl
      (fun accRegister opIndex =>
        (List.range wordSpanSize).foldl (acSetWord isTranspose vs s.file opIndex) accRegister)
      s.accRegister }

/-- A row copied to its register and cleared. -/
def vcGetRow (s : AccState) (opIndex : ℕ) : AccState where
  file := Function.update s.file (vd + opIndex)
    (ofLanes kVectorLengthInBits 32 fun i => s.accRegister (opIndex, i))
  accRegister := fun c => if c.1 = opIndex then 0 else s.accRegister c

/-- `CoralNPUVcGet`. -/
def coralNPUVcGet (s : AccState) : AccState := (List.range kVecLenInWord).foldl (vcGetRow vd) s

end Model

section Results

variable (isTranspose : Bool) (vs vd : ℕ) (s : AccState)

@[simp] theorem file_acSet : (coralNPUAcSet isTranspose vs s).file = s.file := rfl

/-- The register and the word that a cell takes. -/
def accSource (isTranspose : Bool) (c : ℕ × ℕ) : ℕ × ℕ := if isTranspose then c.swap else c

theorem acSetWord_apply (file : VectorFile) (opIndex : ℕ) (acc : ℕ × ℕ → BitVec 32) (i : ℕ)
    (c : ℕ × ℕ) :
    acSetWord isTranspose vs file opIndex acc i c =
      if (accSource isTranspose c).1 = opIndex ∧ (accSource isTranspose c).2 = i then
        lane 32 (file (vs + opIndex)) (accSource isTranspose c).2
      else acc c := by
  obtain ⟨row, column⟩ := c
  cases isTranspose with
  | false =>
      rw [acSetWord, if_neg (by decide), Function.update_apply]
      refine ite_congr (by simp [accSource]) (fun h => ?_) fun _ => rfl
      exact congrArg (lane 32 _) h.2.symm
  | true =>
      rw [acSetWord, if_pos rfl, Function.update_apply]
      refine ite_congr (by simp [accSource, and_comm]) (fun h => ?_) fun _ => rfl
      exact congrArg (lane 32 _) h.2.symm

/-- **What is set in the accumulator.** -/
theorem accRegister_acSet (c : ℕ × ℕ) :
    (coralNPUAcSet isTranspose vs s).accRegister c =
      if (accSource isTranspose c).2 < wordSpanSize ∧
        (accSource isTranspose c).1 < kVecLenInWord then
        lane 32 (s.file (vs + (accSource isTranspose c).1)) (accSource isTranspose c).2
      else s.accRegister c := by
  have hrow : ∀ (acc : ℕ × ℕ → BitVec 32) opIndex c,
      (List.range wordSpanSize).foldl (acSetWord isTranspose vs s.file opIndex) acc c =
        if (accSource isTranspose c).2 < wordSpanSize ∧ (accSource isTranspose c).1 = opIndex then
          lane 32 (s.file (vs + (accSource isTranspose c).1)) (accSource isTranspose c).2
        else acc c := by
    intro acc opIndex c
    rw [foldl_set _ _ _ (acSetWord_apply isTranspose vs s.file opIndex) wordSpanSize acc c]
    refine ite_congr (by rw [and_comm]) (fun h => ?_) fun _ => rfl
    rw [h.2]
  exact foldl_set _ _ _ hrow kVecLenInWord s.accRegister c

@[simp] theorem file_vcGetRow (opIndex : ℕ) : (vcGetRow vd s opIndex).file =
    Function.update s.file (vd + opIndex)
      (ofLanes kVectorLengthInBits 32 fun i => s.accRegister (opIndex, i)) := rfl

@[simp] theorem accRegister_vcGetRow (opIndex : ℕ) (c : ℕ × ℕ) :
    (vcGetRow vd s opIndex).accRegister c = if c.1 = opIndex then 0 else s.accRegister c := rfl

/-- What is read from the accumulator, after some rows. -/
theorem vcGetRows (n : ℕ) :
    (∀ k < n, ((List.range n).foldl (vcGetRow vd) s).file (vd + k) =
      ofLanes kVectorLengthInBits 32 fun i => s.accRegister (k, i)) ∧
    (∀ m, (∀ k < n, m ≠ vd + k) → ((List.range n).foldl (vcGetRow vd) s).file m = s.file m) ∧
    ∀ c, ((List.range n).foldl (vcGetRow vd) s).accRegister c = if c.1 < n then 0
      else s.accRegister c := by
  induction n with
  | zero => simp
  | succ n ih =>
      obtain ⟨hread, hframe, hacc⟩ := ih
      simp only [List.range_succ, List.foldl_append, List.foldl_cons, List.foldl_nil, file_vcGetRow,
        accRegister_vcGetRow]
      refine ⟨fun k hk => ?_, fun m hm => ?_, fun c => ?_⟩
      · rcases Nat.lt_succ_iff_lt_or_eq.1 hk with hlt | rfl
        · rw [Function.update_of_ne (by omega), hread k hlt]
        · simp only [Function.update_self, hacc, Nat.lt_irrefl, if_false]
      · rw [Function.update_of_ne (hm n (Nat.lt_succ_self n)),
          hframe m fun k hk => hm k (Nat.lt_succ_of_lt hk)]
      · rw [hacc]
        by_cases hlast : c.1 = n
        · rw [if_pos hlast, if_pos (by omega)]
        · rw [if_neg hlast]
          exact if_congr (by omega) rfl rfl

/-- **What is read from the accumulator.** -/
theorem file_vcGet {k : ℕ} (hk : k < 8) :
    (coralNPUVcGet vd s).file (vd + k) =
      ofLanes kVectorLengthInBits 32 fun i => s.accRegister (k, i) :=
  (vcGetRows vd s 8).1 k hk

/-- Other registers are left as they are. -/
theorem file_vcGet_of_ne {m : ℕ} (hm : ∀ k < 8, m ≠ vd + k) :
    (coralNPUVcGet vd s).file m = s.file m := (vcGetRows vd s 8).2.1 m hm

/-- What is read is cleared. -/
theorem accRegister_vcGet (c : ℕ × ℕ) :
    (coralNPUVcGet vd s).accRegister c = if c.1 < 8 then 0 else s.accRegister c :=
  (vcGetRows vd s 8).2.2 c

/-- A word that is set and read. -/
theorem lane_acSet_vcGet {k i : ℕ} (hk : k < 8) (hi : i < 8) :
    lane 32 ((coralNPUVcGet vd (coralNPUAcSet isTranspose vs s)).file (vd + k)) i =
      lane 32 (s.file (vs + (accSource isTranspose (k, i)).1))
        (accSource isTranspose (k, i)).2 := by
  rw [file_vcGet vd _ hk, lane_ofLanes _ (by rw [kVectorLengthInBits]; omega), accRegister_acSet]
  refine if_pos ?_
  cases isTranspose with
  | false => exact ⟨hi, hk⟩
  | true => exact ⟨hk, hi⟩

end Results

/-- **What is set is what is read.**  Setting and reading copies the source registers, or their
transpose, which done twice copies them too; and nothing is left in the accumulator. -/
theorem acSet_vcGet (vs vd vd' : ℕ) (s : AccState) :
    (∀ k < 8, (coralNPUVcGet vd (coralNPUAcSet false vs s)).file (vd + k) = s.file (vs + k)) ∧
    (∀ k < 8, ∀ i < 8, lane 32 ((coralNPUVcGet vd (coralNPUAcSet true vs s)).file (vd + k)) i =
      lane 32 (s.file (vs + i)) k) ∧
    (∀ isTranspose m, (∀ k < 8, m ≠ vd + k) →
      (coralNPUVcGet vd (coralNPUAcSet isTranspose vs s)).file m = s.file m) ∧
    (∀ i < 8, ∀ j < 8, (coralNPUVcGet vd s).accRegister (i, j) = 0) ∧
    ∀ k < 8,
    (coralNPUVcGet vd' (coralNPUAcSet true vd (coralNPUVcGet vd (coralNPUAcSet true vs s)))).file
      (vd' + k) = s.file (vs + k) := by
  refine ⟨fun k hk => ?_, fun k hk i hi => lane_acSet_vcGet true vs vd s hk hi,
    fun isTranspose m hm => file_vcGet_of_ne vd _ hm, fun i hi j _ => ?_, fun k hk => ?_⟩
  · exact ext_of_lanes (w := 32) (m := 8) rfl fun i hi => lane_acSet_vcGet false vs vd s hk hi
  · rw [accRegister_vcGet]
    exact if_pos hi
  · exact ext_of_lanes (w := 32) (m := 8) rfl fun i hi =>
      (lane_acSet_vcGet true vd vd' _ hk hi).trans (lane_acSet_vcGet true vs vd s hi hk)

end CoralNpu
