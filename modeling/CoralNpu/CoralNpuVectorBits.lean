/-
**Reversing and rotating bits.**

`VRev` and `VRor` move the bits of an element with a ladder: one stage for every bit of the count,
which moves all bits by a power of two or leaves them.  The stages are computed in 32 bits also for
narrower elements, with the masks of 32 bits, and cut off.  Together the stages of `VRev` flip the
bits of the count in the positions, and those of `VRor` add the count to the positions.

Main definitions:

* `CoralNpu.reverseStage`, `CoralNpu.vRev` — the stages of `VRev`, and the ladder;
* `CoralNpu.rotateStage`, `CoralNpu.vRor` — the stages of `VRor`, and the ladder;
* `CoralNpu.BitsFrom` — a word that takes its bits from positions of another.

Main results:

* `CoralNpu.reverseStage_bitsFrom`, `CoralNpu.rotateStage_bitsFrom` — the stages;
* `CoralNpu.vRev_bitsFrom`, `CoralNpu.vRor_bitsFrom` — the bits of the results;
* `CoralNpu.vRev_vRev`, `CoralNpu.vRor_vRor` — reversing twice, and rotating twice;
* `CoralNpu.bitLadders` — **the ladders reverse and rotate**.
-/

import Mathlib.Data.BitVec
import Mathlib.Data.Nat.Bitwise

set_option relaxedAutoImplicit false
set_option autoImplicit false

namespace CoralNpu

/-! ### The ladders -/

section Ladders

variable {w : ℕ}

/-- `((r & low) << shift) | ((r & high) >> shift)`, computed in 32 bits. -/
def reverseStage (low high : BitVec 32) (shift : ℕ) (r : BitVec w) : BitVec w :=
  (((r.setWidth 32 &&& low) <<< shift) ||| ((r.setWidth 32 &&& high) >>> shift)).setWidth w

/-- The operation of `CoralNPUVRev`, for elements with `w` bits. -/
def vRev (vs1 vs2 : BitVec w) : BitVec w :=
  let r := vs1
  let count := vs2 &&& 0b11111
  let r := if count &&& 1 ≠ 0 then reverseStage 0x55555555 0xAAAAAAAA 1 r else r
  let r := if count &&& 2 ≠ 0 then reverseStage 0x33333333 0xCCCCCCCC 2 r else r
  let r := if count &&& 4 ≠ 0 then reverseStage 0x0F0F0F0F 0xF0F0F0F0 4 r else r
  if w = 8 then r
  else
    let r := if count &&& 8 ≠ 0 then reverseStage 0x00FF00FF 0xFF00FF00 8 r else r
    if w = 16 then r
    else if count &&& 16 ≠ 0 then reverseStage 0x0000FFFF 0xFFFF0000 16 r else r

/-- `(r >> shift) | (r << (sizeof(T) * 8 - shift))`, computed in 32 bits. -/
def rotateStage (shift : ℕ) (r : BitVec w) : BitVec w :=
  ((r.setWidth 32 >>> shift) ||| (r.setWidth 32 <<< (w - shift))).setWidth w

/-- The operation of `CoralNPUVRor`, for elements with `w` bits. -/
def vRor (vs1 vs2 : BitVec w) : BitVec w :=
  let count := vs2 &&& BitVec.ofNat w (w - 1)
  [1, 2, 4, 8, 16].foldl
    (fun r shift => if count &&& BitVec.ofNat w shift ≠ 0 then rotateStage shift r else r) vs1

end Ladders

/-! ### Bits from other positions -/

section Positions

variable {w : ℕ}

/-- A word that takes its bits from these positions of another. -/
def BitsFrom (σ : ℕ → ℕ) (x y : BitVec w) : Prop := ∀ j < w, y.getLsbD j = x.getLsbD (σ j)

theorem BitsFrom.refl (x : BitVec w) : BitsFrom id x x := fun _ _ => rfl

theorem BitsFrom.trans {σ τ : ℕ → ℕ} {x y z : BitVec w} (hxy : BitsFrom σ x y)
    (hyz : BitsFrom τ y z) (hτ : ∀ j < w, τ j < w) : BitsFrom (σ ∘ τ) x z :=
  fun j hj => (hyz j hj).trans (hxy (τ j) (hτ j hj))

/-- Words with their bits from the same positions are the same. -/
theorem BitsFrom.unique {σ : ℕ → ℕ} {x y z : BitVec w} (hy : BitsFrom σ x y) (hz : BitsFrom σ x z) :
    y = z :=
  BitVec.eq_of_getLsbD_eq fun j hj => (hy j hj).trans (hz j hj).symm

end Positions

/-! ### Reversing -/

section Reverse

variable {w : ℕ}

/-- Masks that let a stage exchange the bits whose positions differ by the shift. -/
def LadderMasks (low high : BitVec 32) (shift : ℕ) : Prop :=
  ∀ j < 32,
    (shift ≤ j ∧ low.getLsbD (j - shift) ∧ ¬ high.getLsbD (j + shift) ∧ j ^^^ shift = j - shift) ∨
    (¬ (shift ≤ j ∧ low.getLsbD (j - shift)) ∧ high.getLsbD (j + shift) ∧ j ^^^ shift = j + shift)

instance instDecidableLadderMasks (low high : BitVec 32) (shift : ℕ) :
    Decidable (LadderMasks low high shift) := inferInstanceAs (Decidable (∀ j < 32, _))

/-- A stage exchanges bits. -/
theorem reverseStage_bitsFrom (hw : w ≤ 32) {low high : BitVec 32} {shift : ℕ}
    (h : LadderMasks low high shift) (r : BitVec w) :
    BitsFrom (fun j => j ^^^ shift) r (reverseStage low high shift r) := by
  intro j hj
  have hlt : j < 32 := Nat.lt_of_lt_of_le hj hw
  have hhi : ∀ k, (decide (k < 32) && r.getLsbD k && high.getLsbD k) =
      (r.getLsbD k && high.getLsbD k) := by
    intro k
    by_cases hk : k < 32
    · rw [decide_eq_true hk, Bool.true_and]
    · rw [BitVec.getLsbD_of_ge high k (by omega), Bool.and_false, Bool.and_false]
  have hlo : decide (j - shift < 32) = true := decide_eq_true (by omega)
  simp only [reverseStage, BitVec.getLsbD_setWidth, BitVec.getLsbD_or, BitVec.getLsbD_shiftLeft,
    BitVec.getLsbD_ushiftRight, BitVec.getLsbD_and, hj, hlt, hlo, Nat.add_comm shift j, hhi,
    decide_true, Bool.true_and]
  rcases h j hlt with ⟨hle, hlow, hhigh, hxor⟩ | ⟨hlow, hhigh, hxor⟩
  · rw [hxor, hlow, Bool.eq_false_iff.2 hhigh, decide_eq_false (Nat.not_lt.2 hle)]
    simp
  · rw [hxor, hhigh]
    by_cases hle : shift ≤ j
    · have hlow' : low.getLsbD (j - shift) = false := by simpa [hle] using hlow
      simp [hlow']
    · simp [Nat.lt_of_not_le hle]

/-- A bit of the count, under its mask. -/
theorem count_and_ne_zero (hw : 8 ≤ w) (vs2 : BitVec w) {mask s : ℕ} (hmask : mask < 2 ^ 8)
    (hs : mask &&& s = s) :
    vs2 &&& BitVec.ofNat w mask &&& BitVec.ofNat w s ≠ 0 ↔ vs2.toNat &&& s ≠ 0 := by
  have hpow : 2 ^ 8 ≤ 2 ^ w := Nat.pow_le_pow_right (by decide) hw
  have hle : s ≤ mask := by rw [← hs]; exact Nat.and_le_left
  rw [ne_eq, ne_eq, ← BitVec.toNat_inj, BitVec.toNat_and, BitVec.toNat_and, BitVec.toNat_ofNat,
    BitVec.toNat_ofNat, Nat.mod_eq_of_lt (by omega), Nat.mod_eq_of_lt (by omega),
    Nat.land_assoc, hs]
  rfl

/-- A bit of the count is zero or its power. -/
theorem and_two_pow_eq (c i : ℕ) : c &&& 2 ^ i = 0 ∨ c &&& 2 ^ i = 2 ^ i := by
  rw [Nat.and_two_pow]
  cases c.testBit i
  · exact Or.inl (Nat.zero_mul _)
  · exact Or.inr (Nat.one_mul _)

/-- **A step of the ladder**: one bit more of the count is flipped in the positions. -/
theorem reverseStep_bitsFrom {k i : ℕ} (hk : w = 2 ^ k) (hw : w ≤ 32) {c mask : ℕ}
    {low high : BitVec 32} (hmasks : LadderMasks low high (2 ^ i)) (hi : 2 ^ i < w) {x r : BitVec w}
    (hr : BitsFrom (fun j => j ^^^ (c &&& mask)) x r) {p : Prop} [Decidable p]
    (hp : p ↔ c &&& 2 ^ i ≠ 0) :
    BitsFrom (fun j => j ^^^ (c &&& (mask ^^^ 2 ^ i))) x
      (if p then reverseStage low high (2 ^ i) r else r) := by
  have hstage : BitsFrom (fun j => j ^^^ (c &&& 2 ^ i)) r
      (if p then reverseStage low high (2 ^ i) r else r) := by
    split
    · rename_i h
      rw [(and_two_pow_eq c i).resolve_left (hp.1 h)]
      exact reverseStage_bitsFrom hw hmasks r
    · rename_i h
      rw [not_not.1 (mt hp.2 h)]
      exact fun j _ => congrArg r.getLsbD (Nat.xor_zero j).symm
  have hlt : ∀ j < w, j ^^^ (c &&& 2 ^ i) < w := by
    intro j hj
    have hle : c &&& 2 ^ i ≤ 2 ^ i := Nat.and_le_right
    subst hk
    exact Nat.xor_lt_two_pow hj (Nat.lt_of_le_of_lt hle hi)
  intro j hj
  rw [hr.trans hstage hlt j hj, Function.comp_apply, Nat.xor_assoc, ← Nat.and_xor_distrib_left,
    Nat.xor_comm (2 ^ i)]

/-- Nothing is flipped before the first step. -/
theorem bitsFrom_xor_zero (c : ℕ) (x : BitVec w) : BitsFrom (fun j => j ^^^ (c &&& 0)) x x := by
  intro j _
  show _ = x.getLsbD (j ^^^ (c &&& 0))
  rw [Nat.and_zero, Nat.xor_zero]

theorem ladderMasks_one : LadderMasks 0x55555555 0xAAAAAAAA (2 ^ 0) := by decide

theorem ladderMasks_two : LadderMasks 0x33333333 0xCCCCCCCC (2 ^ 1) := by decide

theorem ladderMasks_four : LadderMasks 0x0F0F0F0F 0xF0F0F0F0 (2 ^ 2) := by decide

theorem ladderMasks_eight : LadderMasks 0x00FF00FF 0xFF00FF00 (2 ^ 3) := by decide

theorem ladderMasks_sixteen : LadderMasks 0x0000FFFF 0xFFFF0000 (2 ^ 4) := by decide

/-- **The bits of the result of `VRev`.** -/
theorem vRev_bitsFrom (hw : w = 8 ∨ w = 16 ∨ w = 32) (vs1 vs2 : BitVec w) :
    BitsFrom (fun j => j ^^^ (vs2.toNat % w)) vs1 (vRev vs1 vs2) := by
  obtain ⟨k, hk⟩ : ∃ k, w = 2 ^ k := by
    rcases hw with rfl | rfl | rfl
    exacts [⟨3, rfl⟩, ⟨4, rfl⟩, ⟨5, rfl⟩]
  have hle : w ≤ 32 := by omega
  have hge : 8 ≤ w := by omega
  let r1 := if vs2 &&& 31 &&& 1 ≠ 0 then reverseStage 0x55555555 0xAAAAAAAA 1 vs1 else vs1
  have h1 : BitsFrom (fun j => j ^^^ (vs2.toNat &&& 1)) vs1 r1 :=
    reverseStep_bitsFrom hk hle ladderMasks_one (by omega) (bitsFrom_xor_zero _ vs1)
      (count_and_ne_zero hge vs2 (by decide) (by decide))
  let r2 := if vs2 &&& 31 &&& 2 ≠ 0 then reverseStage 0x33333333 0xCCCCCCCC 2 r1 else r1
  have h2 : BitsFrom (fun j => j ^^^ (vs2.toNat &&& 3)) vs1 r2 :=
    reverseStep_bitsFrom hk hle ladderMasks_two (by omega) h1
      (count_and_ne_zero hge vs2 (by decide) (by decide))
  let r3 := if vs2 &&& 31 &&& 4 ≠ 0 then reverseStage 0x0F0F0F0F 0xF0F0F0F0 4 r2 else r2
  have h3 : BitsFrom (fun j => j ^^^ (vs2.toNat &&& 7)) vs1 r3 :=
    reverseStep_bitsFrom hk hle ladderMasks_four (by omega) h2
      (count_and_ne_zero hge vs2 (by decide) (by decide))
  rcases hw with rfl | rfl | rfl
  · rw [← Nat.and_two_pow_sub_one_eq_mod vs2.toNat 3]
    exact h3
  · rw [← Nat.and_two_pow_sub_one_eq_mod vs2.toNat 4]
    exact reverseStep_bitsFrom hk hle ladderMasks_eight (by omega) h3
      (count_and_ne_zero hge vs2 (by decide) (by decide))
  · rw [← Nat.and_two_pow_sub_one_eq_mod vs2.toNat 5]
    have h4 : BitsFrom (fun j => j ^^^ (vs2.toNat &&& 15)) vs1
        (if vs2 &&& 31 &&& 8 ≠ 0 then reverseStage 0x00FF00FF 0xFF00FF00 8 r3 else r3) :=
      reverseStep_bitsFrom hk hle ladderMasks_eight (by omega) h3
        (count_and_ne_zero hge vs2 (by decide) (by decide))
    exact reverseStep_bitsFrom hk hle ladderMasks_sixteen (by omega) h4
      (count_and_ne_zero hge vs2 (by decide) (by decide))

end Reverse

/-! ### Rotating -/

section Rotate

variable {w : ℕ}

/-- A stage rotates. -/
theorem rotateStage_bitsFrom (hw : w ≤ 32) {shift : ℕ} (hshift : shift < w) (r : BitVec w) :
    BitsFrom (fun j => (j + shift) % w) r (rotateStage shift r) := by
  intro j hj
  have hbits : ∀ k, (decide (k < 32) && r.getLsbD k) = r.getLsbD k := by
    intro k
    by_cases hk : k < 32
    · rw [decide_eq_true hk, Bool.true_and]
    · rw [BitVec.getLsbD_of_ge r k (by omega), Bool.and_false]
  have hlt : decide (j < 32) = true := decide_eq_true (by omega)
  simp only [rotateStage, BitVec.getLsbD_setWidth, BitVec.getLsbD_or, BitVec.getLsbD_shiftLeft,
    BitVec.getLsbD_ushiftRight, hj, hlt, hbits, Nat.add_comm shift j, decide_true, Bool.true_and]
  rcases Nat.lt_or_ge (j + shift) w with hin | hout
  · rw [Nat.mod_eq_of_lt hin, decide_eq_true (show j < w - shift by omega)]
    simp
  · rw [BitVec.getLsbD_of_ge r (j + shift) hout, decide_eq_false (by omega),
      Nat.mod_eq_sub_mod hout, Nat.mod_eq_of_lt (by omega)]
    have hindex : j - (w - shift) = j + shift - w := by omega
    simp [hindex]

/-- **A step of the ladder**: one bit more of the count is added to the positions. -/
theorem rotateStep_bitsFrom (hpos : 0 < w) (hw : w ≤ 32) {c n i : ℕ} (hc : c < w) {x r : BitVec w}
    (hr : BitsFrom (fun j => (j + n) % w) x r) {p : Prop} [Decidable p] (hp : p ↔ c &&& 2 ^ i ≠ 0) :
    BitsFrom (fun j => (j + (n + (c &&& 2 ^ i))) % w) x
      (if p then rotateStage (2 ^ i) r else r) := by
  have hle : c &&& 2 ^ i ≤ c := Nat.and_le_left
  have hstage : BitsFrom (fun j => (j + (c &&& 2 ^ i)) % w) r
      (if p then rotateStage (2 ^ i) r else r) := by
    split
    · rename_i h
      have hbit := (and_two_pow_eq c i).resolve_left (hp.1 h)
      rw [hbit] at hle ⊢
      exact rotateStage_bitsFrom hw (Nat.lt_of_le_of_lt hle hc) r
    · rename_i h
      rw [not_not.1 (mt hp.2 h)]
      intro j hj
      show _ = r.getLsbD ((j + 0) % w)
      rw [Nat.add_zero, Nat.mod_eq_of_lt hj]
  intro j hj
  rw [hr.trans hstage (fun j _ => Nat.mod_lt _ hpos) j hj, Function.comp_apply, Nat.mod_add_mod,
    Nat.add_assoc, Nat.add_comm n]

/-- The ladder, run over some bits of the count. -/
theorem rotateSteps_bitsFrom (hpos : 0 < w) (hw : w ≤ 32) {c : ℕ} (hc : c < w) {x : BitVec w}
    {p : ℕ → Prop} [DecidablePred p] {shifts : List ℕ} (hshifts : ∀ s ∈ shifts, ∃ i, s = 2 ^ i)
    (hp : ∀ s ∈ shifts, p s ↔ c &&& s ≠ 0) {n : ℕ} {r : BitVec w}
    (hr : BitsFrom (fun j => (j + n) % w) x r) :
    BitsFrom (fun j => (j + (n + (shifts.map (c &&& ·)).sum)) % w) x
      (shifts.foldl (fun r shift => if p shift then rotateStage shift r else r) r) := by
  induction shifts generalizing n r with
  | nil => simpa using hr
  | cons s shifts ih =>
      obtain ⟨i, rfl⟩ := hshifts s List.mem_cons_self
      have hstep := rotateStep_bitsFrom hpos hw hc hr (hp _ List.mem_cons_self)
      rw [List.foldl_cons, List.map_cons, List.sum_cons, ← Nat.add_assoc]
      exact ih (fun s hs => hshifts s (List.mem_cons_of_mem _ hs))
        (fun s hs => hp s (List.mem_cons_of_mem _ hs)) hstep

/-- **The bits of the result of `VRor`.** -/
theorem vRor_bitsFrom (hw : w = 8 ∨ w = 16 ∨ w = 32) (vs1 vs2 : BitVec w) :
    BitsFrom (fun j => (j + vs2.toNat % w) % w) vs1 (vRor vs1 vs2) := by
  have hpos : 0 < w := by omega
  have hc : vs2.toNat % w < w := Nat.mod_lt _ hpos
  have hcount : (vs2 &&& BitVec.ofNat w (w - 1)).toNat = vs2.toNat % w := by
    rw [BitVec.toNat_and, BitVec.toNat_ofNat]
    rcases hw with rfl | rfl | rfl
    exacts [Nat.and_two_pow_sub_one_eq_mod _ 3, Nat.and_two_pow_sub_one_eq_mod _ 4,
      Nat.and_two_pow_sub_one_eq_mod _ 5]
  have hpow : 2 ^ 8 ≤ 2 ^ w := Nat.pow_le_pow_right (by decide) (by omega)
  have hstart : BitsFrom (fun j => (j + 0) % w) vs1 vs1 := fun j hj =>
    congrArg vs1.getLsbD (Nat.mod_eq_of_lt hj).symm
  have hsum : ∀ c < 32, ([1, 2, 4, 8, 16].map (c &&& ·)).sum = c := by decide
  have hshifts : ∀ s ∈ [1, 2, 4, 8, 16], ∃ i, s = 2 ^ i := by
    simpa using ⟨⟨0, rfl⟩, ⟨1, rfl⟩, ⟨2, rfl⟩, ⟨3, rfl⟩, ⟨4, rfl⟩⟩
  have hrun := rotateSteps_bitsFrom hpos (by omega) hc
    (p := fun shift => vs2 &&& BitVec.ofNat w (w - 1) &&& BitVec.ofNat w shift ≠ 0)
      hshifts ?_ hstart
  · rw [hsum _ (by omega), Nat.zero_add] at hrun
    exact hrun
  · intro s hs
    have hlt : s < 2 ^ 8 := by
      simp only [List.mem_cons, List.not_mem_nil, or_false] at hs
      omega
    rw [ne_eq, ← BitVec.toNat_inj, BitVec.toNat_and, hcount, BitVec.toNat_ofNat,
      Nat.mod_eq_of_lt (by omega : s < 2 ^ w)]
    rfl

end Rotate

/-! ### Twice -/

section Twice

variable {w : ℕ}

/-- Reversing twice with one count gives the element back. -/
theorem vRev_vRev (hw : w = 8 ∨ w = 16 ∨ w = 32) (vs1 vs2 : BitVec w) :
    vRev (vRev vs1 vs2) vs2 = vs1 := by
  have hlt : ∀ j < w, j ^^^ (vs2.toNat % w) < w := by
    intro j hj
    rcases hw with rfl | rfl | rfl
    exacts [Nat.xor_lt_two_pow (n := 3) hj (Nat.mod_lt _ (by decide)),
      Nat.xor_lt_two_pow (n := 4) hj (Nat.mod_lt _ (by decide)),
      Nat.xor_lt_two_pow (n := 5) hj (Nat.mod_lt _ (by decide))]
  refine BitVec.eq_of_getLsbD_eq fun j hj => ?_
  rw [(vRev_bitsFrom hw vs1 vs2).trans (vRev_bitsFrom hw (vRev vs1 vs2) vs2) hlt j hj,
    Function.comp_apply, Nat.xor_assoc, Nat.xor_self, Nat.xor_zero]

/-- Rotating twice is rotating by the sum of the counts. -/
theorem vRor_vRor (hw : w = 8 ∨ w = 16 ∨ w = 32) (vs1 a b : BitVec w) :
    vRor (vRor vs1 a) b = vRor vs1 (BitVec.ofNat w ((a.toNat + b.toNat) % w)) := by
  have hpos : 0 < w := by omega
  have hsum := vRor_bitsFrom hw vs1 (BitVec.ofNat w ((a.toNat + b.toNat) % w))
  have htwice := (vRor_bitsFrom hw vs1 a).trans (vRor_bitsFrom hw (vRor vs1 a) b)
    fun j _ => Nat.mod_lt _ hpos
  have hsmall : (a.toNat + b.toNat) % w < 2 ^ w :=
    Nat.lt_trans (Nat.mod_lt _ hpos) Nat.lt_two_pow_self
  refine BitVec.eq_of_getLsbD_eq fun j hj => ?_
  have hindex : ((j + b.toNat % w) % w + a.toNat % w) % w = (j + (a.toNat + b.toNat) % w) % w := by
    rw [Nat.mod_add_mod, Nat.add_mod_mod, Nat.add_right_comm, Nat.add_mod_mod, Nat.add_mod_mod]
    congr 1
    omega
  rw [htwice j hj, hsum j hj, BitVec.toNat_ofNat, Nat.mod_eq_of_lt hsmall, Nat.mod_mod,
    Function.comp_apply, hindex]

/-- **The ladders reverse and rotate.** -/
theorem bitLadders (hw : w = 8 ∨ w = 16 ∨ w = 32) :
    (∀ vs1 vs2 : BitVec w, ∀ j < w,
        (vRev vs1 vs2).getLsbD j = vs1.getLsbD (j ^^^ (vs2.toNat % w)) ∧
        (vRor vs1 vs2).getLsbD j = vs1.getLsbD ((j + vs2.toNat % w) % w)) ∧
      (∀ vs1 vs2 : BitVec w, vRev (vRev vs1 vs2) vs2 = vs1) ∧
      ∀ vs1 a b : BitVec w,
        vRor (vRor vs1 a) b = vRor vs1 (BitVec.ofNat w ((a.toNat + b.toNat) % w)) :=
  ⟨fun vs1 vs2 j hj => ⟨vRev_bitsFrom hw vs1 vs2 j hj, vRor_bitsFrom hw vs1 vs2 j hj⟩,
    vRev_vRev hw, vRor_vRor hw⟩

/-- Elements of 16 bits. -/
theorem bitLadders_sixteen :
    (∀ vs1 vs2 : BitVec 16, vRev (vRev vs1 vs2) vs2 = vs1) ∧
    vRor (vRor 0x1234#16 12) 8 = 0x4123#16 := by
  obtain ⟨-, hrev, hror⟩ := bitLadders (w := 16) (Or.inr (Or.inl rfl))
  exact ⟨hrev, (hror _ _ _).trans (by decide)⟩

end Twice

end CoralNpu
