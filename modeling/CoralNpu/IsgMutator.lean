/-
**The mutation operators.**

An operator edits the image of a test in place.  A test marks an interval of its image as mutable;
the preamble in front of it and the code behind it are to be protected.  Only one of the three
operators looks at the interval.

Main definitions:

* `CoralNpu.Uniform` — `absl::Uniform` on a stream of random numbers;
* `CoralNpu.MutationOperator` — the operators, and `CoralNpu.MutationOperator.mutate`, `Mutate`;
* `CoralNpu.Protects` — the length and the bytes outside the interval are kept;
* `CoralNpu.MutationOperator.StaysInside` — the draws and images for which an operator protects.

Main results:

* `CoralNpu.flipBit_protects_iff`, `CoralNpu.splice_protects_iff`, `CoralNpu.patch_protects` — what
  the three edits do to an interval;
* `CoralNpu.mutate_protects_iff` — **an operator protects exactly when it stays inside**, and
  replacing an instruction always does.
-/

import CoralNpu.OrchestratorMutate

set_option relaxedAutoImplicit false
set_option autoImplicit false

namespace CoralNpu

open AsciiText CodeImage

/-! ### Protection -/

/-- The length is kept, and every byte outside the interval. -/
def Protects (lo hi : ℕ) (image image' : Bytes) : Prop :=
  image'.length = image.length ∧ ∀ i, i < lo ∨ hi ≤ i → image'[i]? = image[i]?

theorem Protects.refl (lo hi : ℕ) (image : Bytes) : Protects lo hi image image :=
  ⟨rfl, fun _ _ => rfl⟩

/-- The image with one bit flipped. -/
def flipBit (image : Bytes) (bitIndex : ℕ) : Bytes :=
  image.modify (bitIndex / 8) fun byte => byte ^^^ 1#8 <<< (bitIndex % 8)

/-- The front of one image and the rest of another. -/
def splice (image other : Bytes) (at_ : ℕ) : Bytes := image.take at_ ++ other.drop at_

theorem xor_bit_ne (byte : BitVec 8) {k : ℕ} (h : k < 8) : byte ^^^ 1#8 <<< k ≠ byte := by
  intro heq
  have hbit := congrArg (fun b : BitVec 8 => b.getLsbD k) heq
  simp [h] at hbit

/-- **A flipped bit is protected against exactly when it lies inside.** -/
theorem flipBit_protects_iff {lo hi bitIndex : ℕ} {image : Bytes}
    (h : bitIndex / 8 < image.length) :
    Protects lo hi image (flipBit image bitIndex) ↔ lo ≤ bitIndex / 8 ∧ bitIndex / 8 < hi := by
  constructor
  · intro hprotects
    have hflipped : (flipBit image bitIndex)[bitIndex / 8]? ≠ image[bitIndex / 8]? := by
      rw [flipBit, List.getElem?_modify_eq, List.getElem?_eq_getElem h]
      exact fun heq => xor_bit_ne _ (Nat.mod_lt _ (by decide)) (Option.some.inj heq)
    by_cases hlow : lo ≤ bitIndex / 8
    · by_cases hhigh : bitIndex / 8 < hi
      · exact ⟨hlow, hhigh⟩
      · exact absurd (hprotects.2 _ (Or.inr (by omega))) hflipped
    · exact absurd (hprotects.2 _ (Or.inl (by omega))) hflipped
  · intro hinside
    refine ⟨List.length_modify .., fun i hi => ?_⟩
    rw [flipBit, List.getElem?_modify_ne]
    omega

/-- **A splice protects exactly when the two images have one length and agree outside the interval
from the splice on.** -/
theorem splice_protects_iff {lo hi at_ : ℕ} {image other : Bytes} (h : at_ ≤ image.length)
    (h' : at_ ≤ other.length) :
    Protects lo hi image (splice image other at_) ↔
      other.length = image.length ∧ ∀ i, at_ ≤ i → i < lo ∨ hi ≤ i → other[i]? = image[i]? := by
  have hfront : (image.take at_).length = at_ := List.length_take_of_le h
  have hlength : (splice image other at_).length = other.length := by
    rw [splice, List.length_append, hfront, List.length_drop]
    omega
  have hbehind : ∀ i, at_ ≤ i → (splice image other at_)[i]? = other[i]? := by
    intro i hi
    rw [splice, List.getElem?_append_right (by omega), hfront, List.getElem?_drop,
      Nat.add_sub_cancel' hi]
  constructor
  · rintro ⟨hlen, hout⟩
    refine ⟨by rw [← hlength, hlen], fun i hi hoff => ?_⟩
    rw [← hbehind i hi, hout i hoff]
  · rintro ⟨hlen, hagree⟩
    refine ⟨by rw [hlength, hlen], fun i hoff => ?_⟩
    by_cases hi : at_ ≤ i
    · rw [hbehind i hi, hagree i hi hoff]
    · rw [splice, List.getElem?_append_left (by omega), List.getElem?_take_of_lt (by omega)]

/-- A patch inside the interval protects. -/
theorem patch_protects {lo hi i : ℕ} {image bytes : Bytes} (hlow : lo ≤ i)
    (hhigh : i + bytes.length ≤ hi) (hend : hi ≤ image.length) :
    Protects lo hi image (patch image i bytes) := by
  refine ⟨length_patch (by omega), fun j hj => ?_⟩
  rcases hj with hj | hj
  · exact getElem?_patch_of_lt (by omega) (by omega)
  · exact getElem?_patch_of_le (by omega) (by omega)

/-! ### The operators -/

/-- `absl::Uniform(gen, lo, hi)` draws from the half-open interval, and gives `lo` when that is
empty. -/
structure Uniform (G : Prng) where
  draw : ℕ → ℕ → G.State → ℕ × G.State
  draw_mem : ∀ {lo hi : ℕ} (rng : G.State), lo < hi →
    lo ≤ (draw lo hi rng).1 ∧ (draw lo hi rng).1 < hi
  draw_of_le : ∀ {lo hi : ℕ} (rng : G.State), hi ≤ lo → (draw lo hi rng).1 = lo

/-- `absl::Status`. -/
inductive MutationStatus where
  | ok
  | internalError (message : Text)
  deriving DecidableEq

/-- The operators, with what they hold. -/
inductive MutationOperator where
  | randomBitFlip
  | crossover (otherSeq : CompiledSequence)
  /-- the decoder knows the opcode of a word -/
  | randomInstruction (isValid : Word → Bool)

section Operators

variable {G : Prng} (U : Uniform G)

/-- `RandomBitFlipMutator::Mutate`. -/
def mutateBitFlip (seq : CompiledSequence) (rng : G.State) :
    MutationStatus × CompiledSequence × G.State :=
  if seq.itcmBinary.isEmpty then (.ok, seq, rng)
  else
    let (bitIndex, rng) := U.draw 0 (seq.itcmBinary.length * 8) rng
    (.ok, { seq with itcmBinary := flipBit seq.itcmBinary bitIndex }, rng)

/-- `CrossoverMutator::Mutate`. -/
def mutateCrossover (otherSeq seq : CompiledSequence) (rng : G.State) :
    MutationStatus × CompiledSequence × G.State :=
  if seq.itcmBinary.isEmpty || otherSeq.itcmBinary.isEmpty then (.ok, seq, rng)
  else
    let minLen := min seq.itcmBinary.length otherSeq.itcmBinary.length
    if minLen < 4 then (.ok, seq, rng)
    else
      let (crossoverInst, rng) := U.draw 1 (minLen / 4) rng
      (.ok, { seq with
        itcmBinary := splice seq.itcmBinary otherSeq.itcmBinary (crossoverInst * 4) }, rng)

/-- The loop that draws words until the decoder knows one. -/
def drawInstruction (G : Prng) (isValid : Word → Bool) : ℕ → G.State → Option Word × G.State
  | 0, rng => (none, rng)
  | attempts + 1, rng =>
      let (draw, rng) := G.next rng
      if isValid (draw.setWidth 32) then (some (draw.setWidth 32), rng)
      else drawInstruction G isValid attempts rng

/-- `RandomInstructionMutator::Mutate`. -/
def mutateInstruction (isValid : Word → Bool) (seq : CompiledSequence) (rng : G.State) :
    MutationStatus × CompiledSequence × G.State :=
  let start := seq.mutableStart
  let stop := seq.mutableEnd
  if seq.itcmBinary.length < 4 then (.ok, seq, rng)
  else if start ≥ stop ∨ stop.toNat > seq.itcmBinary.length then
    (.internalError "Invalid mutation bounds in TestSequence.".toList, seq, rng)
  else
    let numMutableInst := (stop - start).toNat / 4
    if numMutableInst = 0 then (.ok, seq, rng)
    else
      let (targetIdx, rng) := U.draw 0 numMutableInst rng
      match drawInstruction G isValid 1000000 rng with
      | (none, rng) => (.internalError
          "Failed to generate a valid random instruction after 1000000 attempts.".toList, seq, rng)
      | (some word, rng) => (.ok, { seq with
          itcmBinary := patch seq.itcmBinary (start.toNat + targetIdx * 4) (bytesOfWord word) },
          rng)

/-- `Mutate`. -/
def MutationOperator.mutate (op : MutationOperator) (seq : CompiledSequence) (rng : G.State) :
    MutationStatus × CompiledSequence × G.State :=
  match op with
  | .randomBitFlip => mutateBitFlip U seq rng
  | .crossover otherSeq => mutateCrossover U otherSeq seq rng
  | .randomInstruction isValid => mutateInstruction U isValid seq rng

/-- The operator protects the interval of the test: the flipped bit lies inside, or the spliced
images have one length and agree outside from the splice on. -/
def MutationOperator.StaysInside (op : MutationOperator) (seq : CompiledSequence)
    (rng : G.State) : Prop :=
  let lo := seq.mutableStart.toNat
  let hi := seq.mutableEnd.toNat
  match op with
  | .randomBitFlip =>
      let bitIndex := (U.draw 0 (seq.itcmBinary.length * 8) rng).1
      seq.itcmBinary = [] ∨ lo ≤ bitIndex / 8 ∧ bitIndex / 8 < hi
  | .crossover otherSeq =>
      let minLen := min seq.itcmBinary.length otherSeq.itcmBinary.length
      let crossoverByte := (U.draw 1 (minLen / 4) rng).1 * 4
      minLen < 4 ∨ otherSeq.itcmBinary.length = seq.itcmBinary.length ∧
        ∀ i, crossoverByte ≤ i → i < lo ∨ hi ≤ i → otherSeq.itcmBinary[i]? = seq.itcmBinary[i]?
  | .randomInstruction _ => True

theorem mutateBitFlip_protects_iff (seq : CompiledSequence) (rng : G.State) :
    Protects seq.mutableStart.toNat seq.mutableEnd.toNat seq.itcmBinary
        (mutateBitFlip U seq rng).2.1.itcmBinary ↔
      MutationOperator.randomBitFlip.StaysInside U seq rng := by
  simp only [mutateBitFlip, MutationOperator.StaysInside]
  by_cases hempty : seq.itcmBinary = []
  · simp only [hempty, List.isEmpty_nil, if_true, true_or, iff_true]
    exact Protects.refl _ _ []
  · have hpos : 0 < seq.itcmBinary.length := List.length_pos_of_ne_nil hempty
    have hdraw := U.draw_mem rng (show 0 < seq.itcmBinary.length * 8 by omega)
    have hbyte : (U.draw 0 (seq.itcmBinary.length * 8) rng).1 / 8 < seq.itcmBinary.length := by
      omega
    simp only [List.isEmpty_iff, hempty, if_false, false_or]
    exact flipBit_protects_iff hbyte

theorem mutateCrossover_protects_iff (otherSeq seq : CompiledSequence) (rng : G.State) :
    Protects seq.mutableStart.toNat seq.mutableEnd.toNat seq.itcmBinary
        (mutateCrossover U otherSeq seq rng).2.1.itcmBinary ↔
      (MutationOperator.crossover otherSeq).StaysInside U seq rng := by
  simp only [mutateCrossover, MutationOperator.StaysInside]
  by_cases hshort : min seq.itcmBinary.length otherSeq.itcmBinary.length < 4
  · simp only [hshort, if_true, ite_self, true_or, iff_true]
    exact Protects.refl _ _ _
  · have hne : (seq.itcmBinary.isEmpty || otherSeq.itcmBinary.isEmpty) = false := by
      rw [Bool.or_eq_false_iff, List.isEmpty_eq_false_iff, List.isEmpty_eq_false_iff]
      exact ⟨List.ne_nil_of_length_pos (by omega), List.ne_nil_of_length_pos (by omega)⟩
    -- the splice point lies inside both images, also when there is nothing to draw from
    have hdraw : (U.draw 1 (min seq.itcmBinary.length otherSeq.itcmBinary.length / 4) rng).1 * 4 ≤
        min seq.itcmBinary.length otherSeq.itcmBinary.length := by
      by_cases hone : 1 < min seq.itcmBinary.length otherSeq.itcmBinary.length / 4
      · have := (U.draw_mem rng hone).2
        omega
      · rw [U.draw_of_le rng (by omega)]
        omega
    simp only [hne, Bool.false_eq_true, hshort, if_false, false_or]
    exact splice_protects_iff (hdraw.trans (Nat.min_le_left ..)) (hdraw.trans (Nat.min_le_right ..))

theorem mutateInstruction_protects (isValid : Word → Bool) (seq : CompiledSequence)
    (rng : G.State) :
    Protects seq.mutableStart.toNat seq.mutableEnd.toNat seq.itcmBinary
      (mutateInstruction U isValid seq rng).2.1.itcmBinary := by
  simp only [mutateInstruction]
  split
  · exact Protects.refl _ _ _
  · split
    · exact Protects.refl _ _ _
    · rename_i hbounds
      rw [not_or, BitVec.not_le, BitVec.lt_def] at hbounds
      split
      · exact Protects.refl _ _ _
      · rename_i hcount
        have hdraw := U.draw_mem rng (Nat.pos_of_ne_zero hcount)
        have hsub := BitVec.toNat_sub_of_le (BitVec.le_def.2 hbounds.1.le)
        have hlast : seq.mutableStart.toNat +
            (U.draw 0 ((seq.mutableEnd - seq.mutableStart).toNat / 4) rng).1 * 4 + 4 ≤
              seq.mutableEnd.toNat := by omega
        split
        · exact Protects.refl _ _ _
        · exact patch_protects (Nat.le_add_right ..) hlast (by omega)

/-- **An operator protects the interval exactly when it stays inside.** -/
theorem mutate_protects_iff (op : MutationOperator) (seq : CompiledSequence) (rng : G.State) :
    Protects seq.mutableStart.toNat seq.mutableEnd.toNat seq.itcmBinary
        (op.mutate U seq rng).2.1.itcmBinary ↔
      op.StaysInside U seq rng := by
  cases op with
  | randomBitFlip => exact mutateBitFlip_protects_iff U seq rng
  | crossover otherSeq => exact mutateCrossover_protects_iff U otherSeq seq rng
  | randomInstruction isValid =>
      exact iff_of_true (mutateInstruction_protects U isValid seq rng) trivial

end Operators

/-! ### The unprotected preamble -/

/-- The generator that counts. -/
def countingPrng : Prng where
  State := ℕ
  seed value := value.toNat
  next n := (BitVec.ofNat 64 n, n + 1)

/-- Draws by the remainder of the count. -/
def countingUniform : Uniform countingPrng where
  draw lo hi (n : ℕ) := (if lo < hi then lo + n % (hi - lo) else lo, n + 1)
  draw_mem {lo hi} (n : ℕ) h := by
    have hmod := Nat.mod_lt n (Nat.sub_pos_of_lt h)
    simp only [if_pos h]
    omega
  draw_of_le {lo hi} (n : ℕ) h := if_neg (Nat.not_lt.2 h)

/-- A draw of zero flips the first bit of the preamble. -/
theorem not_protects_threeWords :
    ¬ ∀ (G : Prng) (U : Uniform G) (op : MutationOperator) (seq : CompiledSequence)
        (rng : G.State), seq.mutableStart.toNat ≤ seq.mutableEnd.toNat →
      seq.mutableEnd.toNat ≤ seq.itcmBinary.length →
      Protects seq.mutableStart.toNat seq.mutableEnd.toNat seq.itcmBinary
        (op.mutate U seq rng).2.1.itcmBinary := by
  intro h
  have hfirst := (h countingPrng countingUniform .randomBitFlip threeWords (0 : ℕ) (by decide)
    (by decide)).2 0 (Or.inl (by decide))
  exact absurd hfirst (by decide)

end CoralNpu
