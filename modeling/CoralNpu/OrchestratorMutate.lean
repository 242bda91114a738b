/-
**The orchestrator: mutation by insertion and deletion.**

A test in the archive is bred from by editing the words between its mutable bounds.  Each word is
dropped with a small chance, words of a freshly generated test are inserted at random places, and
the image is filled up again with nops to the final `mpause`.  A child that does not fit is given up
for the parent.

The generator of the fresh test and the compiler of tests without an image are parameters.

Main definitions:

* `CoralNpu.CompiledSequence` — a test with its image and mutable bounds;
* `CoralNpu.keepWords`, `CoralNpu.injectWords` — the two edits, on a stream of random numbers;
* `CoralNpu.mutateSequence` — `Orchestrator::MutateSequence`;
* `CoralNpu.Inserts` — a list made of another by inserting given elements;
* `CoralNpu.IsChild` — the layout of a child.

Main results:

* `CoralNpu.keepWords_sublist`, `CoralNpu.injectWords_inserts` — what the edits do to the words;
* `CoralNpu.mutateSequence_isChild` — **the parent or a child with the layout comes back**.
-/

import Mathlib.Data.List.Perm.Basic
import CoralNpu.CodeImage
import CoralNpu.IsgEngine

set_option relaxedAutoImplicit false
set_option autoImplicit false

namespace CoralNpu

open CodeImage

/-! ### Insertion -/

section Inserts

variable {α : Type}

/-- The last list comes from the first by inserting the elements of the second one by one. -/
inductive Inserts : List α → List α → List α → Prop where
  | done (words : List α) : Inserts words [] words
  | insert {words chosen result : List α} {word : α} (i : ℕ) (h : i ≤ words.length) :
      Inserts (words.insertIdx i word) chosen result → Inserts words (word :: chosen) result

theorem Inserts.perm {words chosen result : List α} (h : Inserts words chosen result) :
    result.Perm (words ++ chosen) := by
  induction h with
  | done words => rw [List.append_nil]
  | insert i hi _ ih =>
      refine ih.trans ?_
      exact ((List.perm_insertIdx _ _ hi).append_right _).trans List.perm_middle.symm

theorem Inserts.length_eq {words chosen result : List α} (h : Inserts words chosen result) :
    result.length = words.length + chosen.length := by
  rw [h.perm.length_eq, List.length_append]

end Inserts

/-! ### Tests with an image -/

/-- `TestSequence`, with the fields of a compiled test. -/
structure CompiledSequence extends TestSequence where
  itcmBinary : Bytes
  mutableStart : BitVec 32
  mutableEnd : BitVec 32
  deriving DecidableEq

namespace CompiledSequence

/-- The mutable bounds are word offsets in the image, one behind the other.  The image is a field
of a protocol buffer message, and those stay below two GiB. -/
structure IsMutable (s : CompiledSequence) : Prop where
  start_dvd : 4 ∣ s.mutableStart.toNat
  end_dvd : 4 ∣ s.mutableEnd.toNat
  start_le : s.mutableStart.toNat ≤ s.mutableEnd.toNat
  end_le : s.mutableEnd.toNat ≤ s.itcmBinary.length
  size_lt : s.itcmBinary.length < 2 ^ 31

/-- The number of words between the bounds. -/
def mutableCount (s : CompiledSequence) : ℕ := (s.mutableEnd.toNat - s.mutableStart.toNat) / 4

/-- The words between the bounds. -/
def mutableWords (s : CompiledSequence) : List Word :=
  wordsFrom s.itcmBinary s.mutableStart.toNat s.mutableCount

theorem IsMutable.four_mul_mutableCount {s : CompiledSequence} (h : s.IsMutable) :
    4 * s.mutableCount = s.mutableEnd.toNat - s.mutableStart.toNat :=
  Nat.mul_div_cancel' (Nat.dvd_sub h.end_dvd h.start_dvd)

theorem IsMutable.size_mutableWords {s : CompiledSequence} (h : s.IsMutable) :
    4 * s.mutableWords.length < 2 ^ 31 := by
  have hcount := h.four_mul_mutableCount
  have hend := h.end_le
  have hlt := h.size_lt
  rw [mutableWords, length_wordsFrom]
  omega

end CompiledSequence

/-! ### The edits -/

/-- `addi x0, x0, 0`. -/
def nop : Word := 0x00000013

/-- `mpause`. -/
def mpause : Word := 0x08000073

/-- `substr` throws when it starts behind the end. -/
def substr (s : Bytes) (pos n : ℕ) : Option Bytes :=
  if pos ≤ s.length then some ((s.drop pos).take n) else none

/-- The words a loop reads at `start`, `start + 4`, … below `stop`; `none` when it leaves the
image. -/
def readWords (image : Bytes) (start stop : ℕ) : Option (List Word) :=
  let n := (stop - start + 3) / 4
  if n = 0 ∨ start + 4 * n ≤ image.length then some (wordsFrom image start n) else none

section Edits

variable (G : Prng)

/-- The loop that drops a word with a chance of 5 %. -/
def keepWords : List Word → G.State → List Word × G.State
  | [], rng => ([], rng)
  | word :: words, rng =>
      let (chance, rng) := G.next rng
      if chance % 100 < 5 then keepWords words rng
      else
        let (kept, rng) := keepWords words rng
        (word :: kept, rng)

/-- The loop that inserts an offered word with a chance of 10 %, at a random place. -/
def injectWords : List Word → List Word → G.State → List Word × G.State
  | [], mutated, rng => (mutated, rng)
  | word :: offered, mutated, rng =>
      let (chance, rng) := G.next rng
      if chance % 100 < 10 then
        if mutated.isEmpty then injectWords offered (mutated.insertIdx 0 word) rng
        else
          let (place, rng) := G.next rng
          injectWords offered (mutated.insertIdx (place.toNat % mutated.length) word) rng
      else injectWords offered mutated rng

/-- **The words kept are some of the words, in order.** -/
theorem keepWords_sublist (words : List Word) (rng : G.State) :
    (keepWords G words rng).1.Sublist words := by
  induction words generalizing rng with
  | nil => exact List.Sublist.refl []
  | cons word words ih =>
      simp only [keepWords]
      split
      · exact (ih _).cons word
      · exact (ih _).cons_cons word

/-- **The words offered are inserted, each at most once.** -/
theorem injectWords_inserts (offered mutated : List Word) (rng : G.State) :
    ∃ chosen, chosen.Sublist offered ∧
    Inserts mutated chosen (injectWords G offered mutated rng).1 := by
  induction offered generalizing mutated rng with
  | nil => exact ⟨[], List.Sublist.refl [], Inserts.done mutated⟩
  | cons word offered ih =>
      have hinsert : ∀ i rng', i ≤ mutated.length → ∃ chosen, chosen.Sublist (word :: offered) ∧
          Inserts mutated chosen (injectWords G offered (mutated.insertIdx i word) rng').1 := by
        intro i rng' hi
        obtain ⟨chosen, hsub, hins⟩ := ih (mutated.insertIdx i word) rng'
        exact ⟨word :: chosen, hsub.cons_cons word, Inserts.insert i hi hins⟩
      simp only [injectWords]
      split
      · split
        · exact hinsert 0 _ (Nat.zero_le _)
        · rename_i hne
          have hpos : 0 < mutated.length := List.length_pos_of_ne_nil fun h => hne (by rw [h]; rfl)
          exact hinsert _ _ (Nat.mod_lt _ hpos).le
      · obtain ⟨chosen, hsub, hins⟩ := ih mutated (G.next rng).2
        exact ⟨chosen, hsub.cons word, hins⟩

/-- The nops and the `mpause` behind the words. -/
def postamble (totalPc : ℕ) : Bytes :=
  encode (List.replicate ((8188 - totalPc + 3) / 4) nop) ++ bytesOfWord mpause

/-- The child with these words, or the parent when they do not fit. -/
def childOf (parent : CompiledSequence) (preamble : Bytes) (mutated : List Word) :
    CompiledSequence :=
  let totalPc := parent.mutableStart + BitVec.ofNat 32 (encode mutated).length
  if totalPc > 8188 then parent
  else
    { parent with
      itcmBinary := preamble ++ encode mutated ++ postamble totalPc.toNat
      mutableEnd := totalPc
      assemblyText := [] }

/-- `MutateSequence` of a parent with an image; `none` when it reads outside an image. -/
def mutateCompiled (generate : BitVec 64 → CompiledSequence) (parent : CompiledSequence)
    (rng : G.State) : Option (CompiledSequence × G.State) := do
  let start := parent.mutableStart.toNat
  let preamble ← substr parent.itcmBinary 0 start
  let bytes ← substr parent.itcmBinary start (parent.mutableEnd - parent.mutableStart).toNat
  let words ← readWords parent.itcmBinary start (start + bytes.length)
  let (kept, rng) := keepWords G words rng
  let (seed, rng) := G.next rng
  let injection := generate seed
  let offered ← readWords injection.itcmBinary injection.mutableStart.toNat
    injection.mutableEnd.toNat
  let (mutated, rng) := injectWords G offered kept rng
  return (childOf parent preamble mutated, rng)

/-- `MutateSequence`.  A parent without an image is compiled first; a compiler that leaves it
without one sends the source into an endless recursion, which is `none` here. -/
def mutateSequence (generate : BitVec 64 → CompiledSequence)
    (compileInMemory : CompiledSequence → Option CompiledSequence) (parent : CompiledSequence)
    (rng : G.State) : Option (CompiledSequence × G.State) :=
  if parent.itcmBinary.isEmpty then
    match compileInMemory parent with
    | none => some (parent, rng)
    | some compiled =>
        if compiled.itcmBinary.isEmpty then none else mutateCompiled G generate compiled rng
  else mutateCompiled G generate parent rng

end Edits

/-! ### The layout of a child -/

/-- The layout of a child: the parent's preamble, words of the parent and of the offer, nops, and
the `mpause`. -/
structure IsChild (parent : CompiledSequence) (offered : List Word) (child : CompiledSequence) :
    Prop where
  length_eq : child.itcmBinary.length = 8192
  preamble_eq : child.itcmBinary.take parent.mutableStart.toNat =
    parent.itcmBinary.take parent.mutableStart.toNat
  start_eq : child.mutableStart = parent.mutableStart
  words : ∃ kept chosen, kept.Sublist parent.mutableWords ∧ chosen.Sublist offered ∧
    Inserts kept chosen child.mutableWords ∧
    child.mutableEnd.toNat = parent.mutableStart.toNat + 4 * (kept.length + chosen.length)
  nops : ∀ i, 4 ∣ i → child.mutableEnd.toNat ≤ i → i < 8188 → wordAt child.itcmBinary i = nop
  mpause_eq : wordAt child.itcmBinary 8188 = mpause

theorem readWords_mutable {s : CompiledSequence} (h : s.IsMutable) :
    readWords s.itcmBinary s.mutableStart.toNat s.mutableEnd.toNat = some s.mutableWords := by
  have hcount := h.four_mul_mutableCount
  have hstart := h.start_le
  have hend := h.end_le
  have hn : (s.mutableEnd.toNat - s.mutableStart.toNat + 3) / 4 = s.mutableCount := by omega
  rw [readWords, hn]
  exact if_pos (Or.inr (by omega))

theorem length_postamble (totalPc : ℕ) :
    (postamble totalPc).length = 4 * ((8188 - totalPc + 3) / 4) + 4 := by
  rw [postamble, List.length_append, length_encode, List.length_replicate, length_bytesOfWord]

/-- The words of a postamble that starts at a word offset. -/
theorem wordAt_postamble {before : Bytes} {totalPc : ℕ} (hbefore : before.length = totalPc)
    (hdvd : 4 ∣ totalPc) (hle : totalPc ≤ 8188) :
    (∀ i, 4 ∣ i → totalPc ≤ i → i < 8188 → wordAt (before ++ postamble totalPc) i = nop) ∧
      wordAt (before ++ postamble totalPc) 8188 = mpause := by
  have hcount : totalPc + 4 * ((8188 - totalPc + 3) / 4) = 8188 := by omega
  rw [postamble, ← List.append_assoc]
  constructor
  · intro i hi hlow hhigh
    obtain ⟨k, rfl⟩ : ∃ k, i = totalPc + 4 * k := ⟨(i - totalPc) / 4, by omega⟩
    rw [wordAt_encode_append _ _ _ hbefore (by rw [List.length_replicate]; omega),
      List.getElem_replicate]
  · rw [wordAt_append _ _ (by rw [List.length_append, length_encode, List.length_replicate,
      hbefore, hcount]), ← List.append_nil (bytesOfWord mpause), wordAt_bytesOfWord]

/-- Edited words, when they fit, make a child. -/
theorem childOf_isChild {parent : CompiledSequence} (h : parent.IsMutable)
    {offered kept chosen mutated : List Word} (hkept : kept.Sublist parent.mutableWords)
    (hchosen : chosen.Sublist offered) (hinserts : Inserts kept chosen mutated)
    (hsize : 4 * offered.length < 2 ^ 31) :
    let child := childOf parent (parent.itcmBinary.take parent.mutableStart.toNat) mutated
    child = parent ∨ IsChild parent offered child := by
  have hcount := h.four_mul_mutableCount
  have hstart := h.start_le
  have hend := h.end_le
  have hlt := h.size_lt
  have hstartDvd := h.start_dvd
  have hkeptLength : kept.length ≤ parent.mutableCount := by
    have := hkept.length_le
    rwa [CompiledSequence.mutableWords, length_wordsFrom] at this
  have hlength := hinserts.length_eq
  have hchosenLength := hchosen.length_le
  -- neither addition of the source wraps, as both images are shorter than `2 ^ 31`
  have htotal : (parent.mutableStart + BitVec.ofNat 32 (encode mutated).length).toNat =
      parent.mutableStart.toNat + 4 * mutated.length := by
    rw [BitVec.toNat_add, BitVec.toNat_ofNat, length_encode]
    omega
  have hpreamble : (parent.itcmBinary.take parent.mutableStart.toNat).length =
      parent.mutableStart.toNat := List.length_take_of_le (by omega)
  intro child
  by_cases hfit : parent.mutableStart + BitVec.ofNat 32 (encode mutated).length > 8188
  · exact Or.inl (if_pos hfit)
  · have hle : parent.mutableStart.toNat + 4 * mutated.length ≤ 8188 := by
      rw [← htotal]
      exact BitVec.not_lt.1 hfit
    have hchild : child =
        { parent with
          itcmBinary := parent.itcmBinary.take parent.mutableStart.toNat ++ encode mutated ++
            postamble (parent.mutableStart.toNat + 4 * mutated.length)
          mutableEnd := parent.mutableStart + BitVec.ofNat 32 (encode mutated).length
          assemblyText := [] } := by
      rw [← htotal]
      exact if_neg hfit
    have hfront : (parent.itcmBinary.take parent.mutableStart.toNat ++ encode mutated).length =
        parent.mutableStart.toNat + 4 * mutated.length := by
      rw [List.length_append, hpreamble, length_encode]
    have htail := wordAt_postamble hfront (by omega) hle
    have hwords : child.mutableWords = mutated := by
      rw [hchild, CompiledSequence.mutableWords, CompiledSequence.mutableCount]
      simp only [htotal]
      rw [Nat.add_sub_cancel_left, Nat.mul_div_cancel_left _ (by decide)]
      exact wordsFrom_encode _ _ _ hpreamble
    refine Or.inr ⟨?_, ?_, ?_, ⟨kept, chosen, hkept, hchosen, ?_, ?_⟩, ?_, ?_⟩
    · rw [hchild]
      simp only [List.length_append, length_postamble, hpreamble, length_encode]
      omega
    · rw [hchild, List.append_assoc]
      exact List.take_left' hpreamble
    · rw [hchild]
    · rwa [hwords]
    · rw [hchild]
      simp only [htotal, hlength]
    · rw [hchild]
      simp only [htotal]
      exact htail.1
    · rw [hchild]
      exact htail.2

/-- **The parent comes back unchanged, or a child with the layout.**  Deletion, insertion and
padding never read outside an image, whatever the random numbers. -/
theorem mutateSequence_isChild (G : Prng) (generate : BitVec 64 → CompiledSequence)
    (compileInMemory : CompiledSequence → Option CompiledSequence) {parent : CompiledSequence}
    (hne : parent.itcmBinary ≠ []) (hparent : parent.IsMutable)
    (hgenerate : ∀ seed, (generate seed).IsMutable) (rng : G.State) :
    ∃ child rng', mutateSequence G generate compileInMemory parent rng = some (child, rng') ∧
      (child = parent ∨ ∃ seed, IsChild parent (generate seed).mutableWords child) := by
  have hstart := hparent.start_le
  have hend := hparent.end_le
  have hempty : parent.itcmBinary.isEmpty = false := by
    rw [List.isEmpty_eq_false_iff]
    exact hne
  have hpreamble : substr parent.itcmBinary 0 parent.mutableStart.toNat =
      some (parent.itcmBinary.take parent.mutableStart.toNat) := if_pos (Nat.zero_le _)
  have hlength : parent.mutableStart.toNat + ((parent.itcmBinary.drop
      parent.mutableStart.toNat).take (parent.mutableEnd - parent.mutableStart).toNat).length =
      parent.mutableEnd.toNat := by
    rw [List.length_take, List.length_drop, BitVec.toNat_sub_of_le (BitVec.le_def.2 hstart)]
    omega
  have hbytes : substr parent.itcmBinary parent.mutableStart.toNat
      (parent.mutableEnd - parent.mutableStart).toNat = some ((parent.itcmBinary.drop
        parent.mutableStart.toNat).take (parent.mutableEnd - parent.mutableStart).toNat) :=
    if_pos (by omega)
  simp only [mutateSequence, hempty, Bool.false_eq_true, if_false, mutateCompiled, hpreamble,
    Option.bind_eq_bind, Option.bind_some, hbytes, hlength, readWords_mutable hparent,
    readWords_mutable (hgenerate _)]
  refine ⟨_, _, rfl, ?_⟩
  obtain ⟨chosen, hchosen, hinserts⟩ := injectWords_inserts G (generate _).mutableWords _ _
  rcases childOf_isChild hparent (keepWords_sublist G _ rng) hchosen hinserts
    (hgenerate _).size_mutableWords with h | h
  · exact Or.inl h
  · exact Or.inr ⟨_, h⟩

/-- A test of three words, the middle one mutable. -/
def threeWords : CompiledSequence where
  assemblyText := []
  prngSeed := 0
  trapEvent := none
  expectedTerminalState := []
  assertionCount := 0
  hazardTags := []
  itcmBinary := encode [nop, 0x00108093, mpause]
  mutableStart := 4
  mutableEnd := 8

theorem threeWords_isMutable : threeWords.IsMutable :=
  ⟨by decide, by decide, by decide, by decide, by decide⟩

theorem mutateSequence_threeWords :
    ∃ child rng', mutateSequence mt19937_64 (fun _ => threeWords) (fun _ => none) threeWords
        (mt19937_64.seed 1) = some (child, rng') ∧
      (child = threeWords ∨ ∃ _ : BitVec 64, IsChild threeWords threeWords.mutableWords child) :=
  mutateSequence_isChild mt19937_64 (fun _ => threeWords) (fun _ => none) (by decide)
    threeWords_isMutable (fun _ => threeWords_isMutable) (mt19937_64.seed 1)

end CoralNpu
