/-
**The convolutions.**

`CoralNPUVConv` adds a matrix product of bytes to an accumulator of eight by eight words: the bytes
of the narrow registers, by fours, times those of the wide registers.  `CoralNPUVDwconv` adds three
products of bytes to each of the 32 words of another accumulator.  Both interleave the words of
their accumulator.  A command word says which registers are used, how bytes are extended and what is
added to them.

Main definitions:

* `CoralNpu.CoralNPUVConvCmd`, `CoralNpu.CoralNPUVDwconvCmd` — the commands, as fields of their
  word;
* `CoralNpu.coralNPUVConv`, `CoralNpu.coralNPUVDwconv` — the instructions;
* `CoralNpu.convCell`, `CoralNpu.dwWord` — where the products go;
* `CoralNpu.activation` — the activation vectors of a depthwise convolution;
* `CoralNpu.DwconvCorrect`, `CoralNpu.DwconvHolds` — what it should do, and when it does.

Main results:

* `CoralNpu.convCell_bijOn` — every cell takes one pair of a narrow register and a group of four
  bytes;
* `CoralNpu.vConv_accumulates` — **a convolution adds a matrix product, or traps**;
* `CoralNpu.dwLoops_eq` — what the loops of a depthwise convolution add, if no sum overflows;
* `CoralNpu.dwWeight_of_correct` — an illegal command that changes nothing has no weights;
* `CoralNpu.correct_iff_of_illegal`, `CoralNpu.correct_iff_of_legal` — illegal and legal commands;
* `CoralNpu.vDwconv_correct_iff` — **when a depthwise convolution adds three taps, or traps
  cleanly**.
-/

import CoralNpu.Accumulate
import CoralNpu.CoralNpuVectorExecute
import CoralNpu.SimulatorState
import Mathlib.Tactic.IntervalCases

set_option relaxedAutoImplicit false
set_option autoImplicit false

namespace CoralNpu

open Accumulate Finset Lanes

/-- `kVectorLenInByte`. -/
def kVectorLenInByte : ℕ := kVectorLengthInBits / 8

/-- `kVectorLenInWord`. -/
def kVectorLenInWord : ℕ := kVectorLenInByte / 4

/-- `kInterleave`. -/
def kInterleave (i : ℕ) : ℕ := [0, 2, 1, 3].getD i 0

/-- A byte as an `int32_t`, extended by its sign or by zeros. -/
def byteValue (isSigned : BitVec 1) (x : BitVec 8) : ℤ := if isSigned ≠ 0 then x.toInt else x.toNat

/-- The trap of an illegal command. -/
def illegalCommand (address : BitVec 32) : TrapRecord := ⟨false, 0, .illegalInstruction, address⟩

/-! ### The matrix product -/

/-- `CoralNPUVConvCmd`; the first field has the low bits of the word. -/
structure CoralNPUVConvCmd where
  mode : BitVec 2
  start : BitVec 5
  stop : BitVec 5
  sbias1 : BitVec 9
  sdata1 : BitVec 1
  sbias2 : BitVec 9
  sdata2 : BitVec 1

namespace CoralNPUVConvCmd

/-- The fields of a word. -/
def ofWord (word : BitVec 32) : CoralNPUVConvCmd where
  mode := word.extractLsb' 0 2
  start := word.extractLsb' 2 5
  stop := word.extractLsb' 7 5
  sbias1 := word.extractLsb' 12 9
  sdata1 := word.extractLsb' 21 1
  sbias2 := word.extractLsb' 22 9
  sdata2 := word.extractLsb' 31 1

/-- A command that is not supported. -/
def Illegal (cmd : CoralNPUVConvCmd) : Prop :=
  cmd.mode ≠ 0 ∨ cmd.start > cmd.stop ∨ cmd.start.toNat ≥ 8 ∨ cmd.stop.toNat ≥ 8

end CoralNPUVConvCmd

/-- The state of a convolution: its accumulator, by rows, and the traps raised so far. -/
structure ConvState where
  accRegister : ℕ × ℕ → BitVec 32
  traps : List TrapRecord

/-- `Trap`, of an illegal instruction. -/
def ConvState.trap (s : ConvState) (address : BitVec 32) : ConvState :=
  { s with traps := s.traps ++ [illegalCommand address] }

/-- `(static_cast<int32_t>(sbias) << 23) >> 23`. -/
def extendBias (sbias : BitVec 9) : ℤ := ((sbias.setWidth 32 <<< 23).sshiftRight 23).toInt

section Conv

variable (convCmd : CoralNPUVConvCmd) (vecNarrow vecWide : ℕ → BitVec kVectorLengthInBits)

/-- One multiplication of `CoralNPUVConv`, of byte `j` of a wide register. -/
def convMac (k i : ℕ) (accumulator : ℕ × ℕ → BitVec 32) (j : ℕ) : ℕ × ℕ → BitVec 32 :=
  let sdata1 := byteValue convCmd.sdata1 (lane 8 (vecNarrow i) (4 * k + j % 4))
  let sdata2 := byteValue convCmd.sdata2 (lane 8 (vecWide (k - convCmd.start.toNat)) j)
  let rbase := i / 4 * 4
  let rquad := i % 4
  let word := j / 4
  let idxI := rbase + kInterleave (word % 4)
  let idxJ := rquad * (kVectorLenInWord / 4) + word / 4
  Function.update accumulator (idxI, idxJ) (accumulator (idxI, idxJ) +
    BitVec.ofInt 32 ((sdata1 + extendBias convCmd.sbias1) * (sdata2 + extendBias convCmd.sbias2)))

/-- The loops of `CoralNPUVConv`. -/
def convLoops (accumulator : ℕ × ℕ → BitVec 32) : ℕ × ℕ → BitVec 32 :=
  (List.range (convCmd.stop.toNat + 1 - convCmd.start.toNat)).foldl (fun accumulator turn =>
      (List.range kVectorLenInWord).foldl (fun accumulator i =>
          (List.range kVectorLenInByte).foldl
            (convMac convCmd vecNarrow vecWide (convCmd.start.toNat + turn) i) accumulator)
        accumulator)
    accumulator

end Conv

/-- `CoralNPUVConv`. -/
def coralNPUVConv (address : BitVec 32) (vs1 vs3 : ℕ) (regData : BitVec 32) (file : VectorFile)
    (s : ConvState) : ConvState :=
  let convCmd := CoralNPUVConvCmd.ofWord regData
  if convCmd.mode ≠ 0 then s.trap address
  else if convCmd.start > convCmd.stop then s.trap address
  else if convCmd.start.toNat ≥ kVectorLenInWord ∨ convCmd.stop.toNat ≥ kVectorLenInWord then
    s.trap address
  else
    { s with
      accRegister :=
        convLoops convCmd (fun i => file (vs1 + i)) (fun i => file (vs3 + i)) s.accRegister }

/-- The cell for a narrow register and a group of four bytes of a wide one. -/
def convCell (p : ℕ × ℕ) : ℕ × ℕ := (4 * (p.1 / 4) + kInterleave (p.2 % 4), 2 * (p.1 % 4) + p.2 / 4)

/-- The pair that a cell is for. -/
def convSource (c : ℕ × ℕ) : ℕ × ℕ :=
  (4 * (c.1 / 4) + c.2 / 2, 4 * (c.2 % 2) + kInterleave (c.1 % 4))

/-- The pairs of a narrow register and a group, and the cells. -/
def convPairs : Finset (ℕ × ℕ) := range 8 ×ˢ range 8

/-- **Every cell takes one pair.** -/
theorem convCell_bijOn : Set.BijOn convCell convPairs convPairs := by
  have hcell : ∀ p ∈ convPairs, convCell p ∈ convPairs ∧ convSource (convCell p) = p := by decide
  have hsource : ∀ c ∈ convPairs, convSource c ∈ convPairs ∧ convCell (convSource c) = c := by
    decide
  exact Set.InvOn.bijOn ⟨fun p hp => (hcell p hp).2, fun c hc => (hsource c hc).2⟩
    (fun p hp => (hcell p hp).1) fun c hc => (hsource c hc).1

/-- A bias is a signed value of nine bits. -/
theorem extendBias_eq (sbias : BitVec 9) : extendBias sbias = sbias.toInt := by
  revert sbias
  decide

/-- The product of two bytes that a convolution adds. -/
def convProduct (cmd : CoralNPUVConvCmd) (vecNarrow vecWide : ℕ → BitVec kVectorLengthInBits)
    (k i j : ℕ) : ℤ :=
  (byteValue cmd.sdata1 (lane 8 (vecNarrow i) (4 * k + j % 4)) + cmd.sbias1.toInt) *
    (byteValue cmd.sdata2 (lane 8 (vecWide (k - cmd.start.toNat)) j) + cmd.sbias2.toInt)

/-- The matrix product of a command, for a narrow register and a group of four bytes of the wide
ones. -/
def convSum (cmd : CoralNPUVConvCmd) (vecNarrow vecWide : ℕ → BitVec kVectorLengthInBits)
    (i w : ℕ) : ℤ :=
  ∑ k ∈ Icc cmd.start.toNat cmd.stop.toNat, ∑ b ∈ range 4,
    (byteValue cmd.sdata1 (lane 8 (vecNarrow i) (4 * k + b)) + cmd.sbias1.toInt) *
      (byteValue cmd.sdata2 (lane 8 (vecWide (k - cmd.start.toNat)) (4 * w + b)) + cmd.sbias2.toInt)

section Conv

variable (cmd : CoralNPUVConvCmd) (vecNarrow vecWide : ℕ → BitVec kVectorLengthInBits)

/-- What one multiplication adds. -/
theorem convMac_eq (k i : ℕ) (accumulator : ℕ × ℕ → BitVec 32) (j : ℕ) :
    convMac cmd vecNarrow vecWide k i accumulator j =
      accumulator + Pi.single (convCell (i, j / 4))
        (BitVec.ofInt 32 (convProduct cmd vecNarrow vecWide k i j)) := by
  have hcell : (i / 4 * 4 + kInterleave (j / 4 % 4), i % 4 * (kVectorLenInWord / 4) + j / 4 / 4) =
      convCell (i, j / 4) := by
    rw [convCell, Nat.mul_comm, Nat.mul_comm (i % 4)]
    rfl
  rw [convMac, hcell, update_add, extendBias_eq, extendBias_eq]
  rfl

/-- What a narrow register adds. -/
theorem convRow_eq (k i : ℕ) (accumulator : ℕ × ℕ → BitVec 32) :
    (List.range kVectorLenInByte).foldl (convMac cmd vecNarrow vecWide k i) accumulator =
      accumulator + ∑ w ∈ range 8, Pi.single (convCell (i, w))
        (∑ b ∈ range 4, BitVec.ofInt 32 (convProduct cmd vecNarrow vecWide k i (w * 4 + b))) := by
  have hgroup : ∀ w, ∑ b ∈ range 4, (Pi.single (convCell (i, (w * 4 + b) / 4))
      (BitVec.ofInt 32 (convProduct cmd vecNarrow vecWide k i (w * 4 + b))) : ℕ × ℕ → BitVec 32) =
        Pi.single (convCell (i, w))
          (∑ b ∈ range 4, BitVec.ofInt 32 (convProduct cmd vecNarrow vecWide k i (w * 4 + b))) := by
    intro w
    rw [← sum_single]
    refine sum_congr rfl fun b hb => ?_
    have hlt := mem_range.1 hb
    rw [show (w * 4 + b) / 4 = w by omega]
  rw [foldl_add (convMac_eq cmd vecNarrow vecWide k i)]
  refine congrArg (accumulator + ·) ((sum_range_mul _ 8 4).trans ?_)
  exact sum_congr rfl fun w _ => hgroup w

/-- **What the loops add to a cell.** -/
theorem convLoops_apply (accumulator : ℕ × ℕ → BitVec 32) {p : ℕ × ℕ} (hp : p ∈ convPairs) :
    convLoops cmd vecNarrow vecWide accumulator (convCell p) =
      accumulator (convCell p) + BitVec.ofInt 32 (convSum cmd vecNarrow vecWide p.1 p.2) := by
  have hsum : convSum cmd vecNarrow vecWide p.1 p.2 = ∑ k ∈ Icc cmd.start.toNat cmd.stop.toNat,
      ∑ b ∈ range 4, convProduct cmd vecNarrow vecWide k p.1 (p.2 * 4 + b) := by
    refine sum_congr rfl fun k _ => sum_congr rfl fun b hb => ?_
    have hlt := mem_range.1 hb
    rw [convProduct, show (p.2 * 4 + b) % 4 = b by omega, Nat.mul_comm 4 p.2]
  have hturn : ∀ (acc : ℕ × ℕ → BitVec 32) (turn : ℕ), (List.range kVectorLenInWord).foldl
      (fun acc i => (List.range kVectorLenInByte).foldl
        (convMac cmd vecNarrow vecWide (cmd.start.toNat + turn) i) acc) acc =
        acc + ∑ q ∈ convPairs, Pi.single (convCell q) (∑ b ∈ range 4,
          BitVec.ofInt 32
            (convProduct cmd vecNarrow vecWide (cmd.start.toNat + turn) q.1 (q.2 * 4 + b))) := by
    intro acc turn
    rw [foldl_add fun acc i => convRow_eq cmd vecNarrow vecWide (cmd.start.toNat + turn) i acc]
    exact congrArg (acc + ·) (sum_product' ..).symm
  rw [convLoops, foldl_add hturn, Pi.add_apply, Finset.sum_apply, hsum, ofInt_sum,
    ← Finset.Ico_add_one_right_eq_Icc, sum_Ico_eq_sum_range]
  refine congrArg (accumulator (convCell p) + ·) (sum_congr rfl fun turn _ => ?_)
  rw [sum_single_apply convCell_bijOn.injOn _ hp, ofInt_sum]

end Conv

/-- **A convolution adds a matrix product, or traps.**  A command that is not supported raises one
trap and leaves the accumulator as it is. -/
theorem vConv_accumulates (address : BitVec 32) (vs1 vs3 : ℕ) (regData : BitVec 32)
    (file : VectorFile) (s : ConvState) :
    ((CoralNPUVConvCmd.ofWord regData).Illegal →
        coralNPUVConv address vs1 vs3 regData file s =
          { s with traps := s.traps ++ [illegalCommand address] }) ∧
      (¬ (CoralNPUVConvCmd.ofWord regData).Illegal →
        (coralNPUVConv address vs1 vs3 regData file s).traps = s.traps ∧
        ∀ i < 8, ∀ w < 8,
          (coralNPUVConv address vs1 vs3 regData file s).accRegister (convCell (i, w)) =
            s.accRegister (convCell (i, w)) + BitVec.ofInt 32
              (convSum (CoralNPUVConvCmd.ofWord regData)
              (fun i => file (vs1 + i)) (fun i => file (vs3 + i)) i w)) ∧
      Set.BijOn convCell convPairs convPairs := by
  refine ⟨fun h => ?_, fun h => ?_, convCell_bijOn⟩
  · rw [coralNPUVConv]
    split
    · rfl
    split
    · rfl
    split
    · rfl
    rename_i hmode hstart hlength
    rcases h with h | h | h | h
    exacts [absurd h hmode, absurd h hstart, absurd (Or.inl h) hlength, absurd (Or.inr h) hlength]
  · have hlength : ¬ ((CoralNPUVConvCmd.ofWord regData).start.toNat ≥ kVectorLenInWord ∨
        (CoralNPUVConvCmd.ofWord regData).stop.toNat ≥ kVectorLenInWord) := fun hlength =>
      h (Or.inr (Or.inr hlength))
    rw [coralNPUVConv, if_neg fun hmode => h (Or.inl hmode),
      if_neg fun hstart => h (Or.inr (Or.inl hstart)), if_neg hlength]
    refine ⟨rfl, fun i hi w hw => ?_⟩
    exact convLoops_apply _ _ _ s.accRegister (mem_product.2 ⟨mem_range.2 hi, mem_range.2 hw⟩)

/-! ### The depthwise convolution -/

/-- `CoralNPUVDwconvCmd`; two fields of it are not looked at. -/
structure CoralNPUVDwconvCmd where
  sparsity : BitVec 2
  regbase : BitVec 4
  sbias1 : BitVec 9
  sdata1 : BitVec 1
  sbias2 : BitVec 9
  sdata2 : BitVec 1

/-- The fields of a word. -/
def CoralNPUVDwconvCmd.ofWord (word : BitVec 32) : CoralNPUVDwconvCmd where
  sparsity := word.extractLsb' 2 2
  regbase := word.extractLsb' 4 4
  sbias1 := word.extractLsb' 12 9
  sdata1 := word.extractLsb' 21 1
  sbias2 := word.extractLsb' 22 9
  sdata2 := word.extractLsb' 31 1

/-- The state of a depthwise convolution: the vector registers, the accumulator and the traps raised
so far. -/
structure DwState where
  file : VectorFile
  dwAccRegister : ℕ → BitVec 32
  traps : List TrapRecord

/-- Words copied to a buffer, from a place on. -/
def copyWords (buffer : ℕ → BitVec 32) (start : ℕ) (source : ℕ → BitVec 32) (n : ℕ) :
    ℕ → BitVec 32 :=
  fun q => if start ≤ q ∧ q < start + n then source (q - start) else buffer q

/-- `a_data`, which nothing clears and which an illegal command leaves as it is. -/
def aData (sparsity : BitVec 2) (vs10 vs11 vs12 : ℕ → BitVec 32) (stack : ℕ → BitVec 32) :
    ℕ → BitVec 32 :=
  if sparsity = 0 then copyWords (copyWords (copyWords stack 0 vs10 8) 8 vs11 8) 16 vs12 8
  else if sparsity = 1 then
    Function.update
      (copyWords
        (copyWords (copyWords (Function.update stack 0 (vs10 7)) 1 vs11 7) 8 vs11 8)
        16 (fun j => vs11 (1 + j)) 7)
      23 (vs12 0)
  else if sparsity = 2 then
    Function.update
      (Function.update
        (copyWords
          (Function.update (copyWords (copyWords stack 0 vs10 8) 8 (fun j => vs10 (1 + j)) 7) 15
            (vs11 0))
          16 (fun j => vs10 (2 + j)) 6)
        22 (vs11 0))
      23 (vs11 1)
  else stack

/-- `acc += z` on a word read as an `int32_t`.  An overflow wraps around where the compiler is told
so, and has no result elsewhere. -/
def addInt32 (wrapv : Bool) (x : BitVec 32) (z : ℤ) : Option (BitVec 32) :=
  if wrapv = true ∨ CInt.Fits 32 (x.toInt + z) then some (x + BitVec.ofInt 32 z) else none

section Dwconv

variable (wrapv : Bool) (cmd : CoralNPUVDwconvCmd) (a : ℕ → ℕ → BitVec 32)
  (b : ℕ → BitVec kVectorLengthInBits)

/-- One multiplication of `CoralNPUVDwconv`, of byte `i` of words `a r` and of register `b r`. -/
def dwMac (r : ℕ) (acc : ℕ → BitVec 32) (i : ℕ) : Option (ℕ → BitVec 32) :=
  let a := byteValue cmd.sdata1 (lane 8 (a r (i / 4)) (i % 4)) + cmd.sbias1.toInt
  let b := byteValue cmd.sdata2 (lane 8 (b r) i) + cmd.sbias2.toInt
  let accReg := kInterleave (i % 4)
  let regOffset := i / 4
  (addInt32 wrapv (acc (kVectorLenInWord * accReg + regOffset)) (a * b)).map
    (Function.update acc (kVectorLenInWord * accReg + regOffset))

/-- The loops of `CoralNPUVDwconv`. -/
def dwLoops (acc : ℕ → BitVec 32) : Option (ℕ → BitVec 32) :=
  (List.range 3).foldlM
    (fun acc r => (List.range kVectorLenInByte).foldlM (dwMac wrapv cmd a b r) acc) acc

end Dwconv

/-- The words of a register that `regbase` selects. -/
def dwSource (cmd : CoralNPUVDwconvCmd) (vs1 : ℕ) (file : VectorFile) (i : ℕ) : ℕ → BitVec 32 :=
  lane 32 (file (vs1 + (vs1Idx cmd.regbase.toFin).getD i 0))

/-- `CoralNPUVDwconv`.  The trap of an illegal command does not end it. -/
def coralNPUVDwconv (wrapv writeAcc : Bool) (address : BitVec 32) (vs1 vs3 vd : ℕ)
    (regData : BitVec 32) (stack : ℕ → BitVec 32) (s : DwState) : Option DwState := do
  let dwconvCmd := CoralNPUVDwconvCmd.ofWord regData
  let vs1Span := dwSource dwconvCmd vs1 s.file
  let aData := aData dwconvCmd.sparsity (vs1Span 0) (vs1Span 1) (vs1Span 2) stack
  let traps := if dwconvCmd.sparsity = 3 then s.traps ++ [illegalCommand address] else s.traps
  let acc ← dwLoops wrapv dwconvCmd (fun r j => aData (r * kVectorLenInWord + j))
    (fun r => s.file (vs3 + r)) s.dwAccRegister
  let file :=
    if writeAcc then
      submit s.file (vd + ·)
        (fun i => ofLanes kVectorLengthInBits 32 fun j => acc (i * kVectorLenInWord + j)) 4
    else s.file
  return ⟨file, acc, traps⟩

/-- The word of the accumulator for a lane. -/
def dwWord (l : ℕ) : ℕ := 8 * kInterleave (l % 4) + l / 4

/-- A product that a depthwise convolution adds, of lane `l` of tap `r`. -/
def dwProduct (cmd : CoralNPUVDwconvCmd) (a : ℕ → ℕ → BitVec 32)
    (b : ℕ → BitVec kVectorLengthInBits) (r l : ℕ) : ℤ :=
  (byteValue cmd.sdata1 (lane 8 (a r (l / 4)) (l % 4)) + cmd.sbias1.toInt) *
    (byteValue cmd.sdata2 (lane 8 (b r) l) + cmd.sbias2.toInt)

/-- The three activation vectors, by their words: the registers themselves, windows around the
second of three, or windows from the first of two on. -/
def activation (sparsity : BitVec 2) (v : ℕ → ℕ → BitVec 32) (r : ℕ) : ℕ → BitVec 32 :=
  if sparsity = 0 then v r
  else if sparsity = 1 then fun j => appendRow 8 (v 0) (appendRow 8 (v 1) (v 2)) (7 + r + j)
  else fun j => appendRow 8 (v 0) (v 1) (r + j)

/-- The words that are copied are the activation vectors. -/
theorem aData_eq_activation {sparsity : BitVec 2} (h : sparsity ≠ 3) (v : ℕ → ℕ → BitVec 32)
    (stack : ℕ → BitVec 32) {r j : ℕ} (hr : r < 3) (hj : j < 8) :
    aData sparsity (v 0) (v 1) (v 2) stack (r * kVectorLenInWord + j) =
      activation sparsity v r j := by
  have hcases : sparsity = 0 ∨ sparsity = 1 ∨ sparsity = 2 := by
    revert sparsity
    decide
  rcases hcases with rfl | rfl | rfl <;> interval_cases r <;> interval_cases j <;> rfl

/-- Lanes have different words. -/
theorem dwWord_injOn (n : ℕ) (hn : n ≤ 32) : Set.InjOn dwWord (range n : Set ℕ) := by
  have hinverse : ∀ l < 32, 4 * (dwWord l % 8) + kInterleave (dwWord l / 8) = l := by decide
  intro l hl l' hl' heq
  have hlt := mem_range.1 (mem_coe.1 hl)
  have hlt' := mem_range.1 (mem_coe.1 hl')
  rw [← hinverse l (by omega), ← hinverse l' (by omega), heq]

section Dwconv

variable (wrapv : Bool) (cmd : CoralNPUVDwconvCmd) (a : ℕ → ℕ → BitVec 32)
  (b : ℕ → BitVec kVectorLengthInBits)

/-- What the lanes of one tap add. -/
def dwTap (r : ℕ) : ℕ → BitVec 32 :=
  ∑ l ∈ range 32, Pi.single (dwWord l) (BitVec.ofInt 32 (dwProduct cmd a b r l))

/-- The lane of a word. -/
theorem dwTap_apply (r : ℕ) {l : ℕ} (hl : l < 32) :
    dwTap cmd a b r (dwWord l) = BitVec.ofInt 32 (dwProduct cmd a b r l) :=
  sum_single_apply (dwWord_injOn 32 le_rfl) _ (mem_range.2 hl)

/-- Several taps. -/
theorem sum_dwTap_apply (n : ℕ) {l : ℕ} (hl : l < 32) :
    (∑ r ∈ range n, dwTap cmd a b r) (dwWord l) =
      BitVec.ofInt 32 (∑ r ∈ range n, dwProduct cmd a b r l) := by
  rw [Finset.sum_apply, ofInt_sum]
  exact sum_congr rfl fun r _ => dwTap_apply cmd a b r hl

/-- What one multiplication adds. -/
theorem dwMac_eq (r : ℕ) (acc : ℕ → BitVec 32) (i : ℕ) :
    dwMac wrapv cmd a b r acc i =
      if wrapv = true ∨ CInt.Fits 32 ((acc (dwWord i)).toInt + dwProduct cmd a b r i) then
        some (acc + Pi.single (dwWord i) (BitVec.ofInt 32 (dwProduct cmd a b r i)))
      else none := by
  have hmac : dwMac wrapv cmd a b r acc i =
      (addInt32 wrapv (acc (dwWord i)) (dwProduct cmd a b r i)).map
        (Function.update acc (dwWord i)) := rfl
  rw [hmac, addInt32]
  split
  · exact congrArg some (update_add acc _ _)
  · rfl

/-- What one tap adds, if no sum of it overflows. -/
theorem dwTaps_eq (r : ℕ) (acc : ℕ → BitVec 32) :
    (List.range kVectorLenInByte).foldlM (dwMac wrapv cmd a b r) acc =
      if ∀ l < 32, wrapv = true ∨
          CInt.Fits 32 ((acc (dwWord l)).toInt + dwProduct cmd a b r l) then
        some (acc + dwTap cmd a b r)
      else none := by
  refine (foldlM_add (dwMac_eq wrapv cmd a b r) 32 acc).trans ?_
  refine if_congr (forall₂_congr fun l hl => ?_) rfl rfl
  -- the lanes before have other words
  have hother : (∑ l' ∈ range l, (Pi.single (dwWord l')
      (BitVec.ofInt 32 (dwProduct cmd a b r l')) : ℕ → BitVec 32)) (dwWord l) = 0 := by
    refine sum_single_apply_of_forall_ne _ fun l' hl' heq => ?_
    have hlt := mem_range.1 hl'
    have hinj :=
      dwWord_injOn 32 le_rfl (mem_coe.2 (mem_range.2 hl)) (mem_coe.2 (mem_range.2 (hlt.trans hl)))
      heq
    omega
  rw [Pi.add_apply, hother, add_zero]

/-- No sum of a word with its products, one after the other, overflows. -/
def NoOverflow (acc : ℕ → BitVec 32) : Prop :=
  ∀ l < 32, ∀ r < 3,
    CInt.Fits 32 ((acc (dwWord l)).toInt + ∑ r' ∈ range (r + 1), dwProduct cmd a b r' l)

instance decidableNoOverflow (acc : ℕ → BitVec 32) : Decidable (NoOverflow cmd a b acc) :=
  inferInstanceAs (Decidable (∀ l < 32, ∀ r < 3, _))

/-- A word is its value as long as this does not overflow. -/
theorem toInt_add_ofInt {x : BitVec 32} {z : ℤ} (h : CInt.Fits 32 (x.toInt + z)) :
    (x + BitVec.ofInt 32 z).toInt = x.toInt + z := by
  rw [BitVec.toInt_add, BitVec.toInt_ofInt, Int.add_bmod_bmod]
  exact CInt.toSigned_of_fits (by decide) h

theorem fits_toInt (x : BitVec 32) : CInt.Fits 32 x.toInt := ⟨BitVec.le_toInt x, BitVec.toInt_lt⟩

/-- Sums of words overflow where the sums of their values do. -/
theorem noOverflow_iff (acc : ℕ → BitVec 32) :
    NoOverflow cmd a b acc ↔ ∀ r < 3, ∀ l < 32,
      CInt.Fits 32 (((acc + ∑ r' ∈ range r, dwTap cmd a b r') (dwWord l)).toInt +
        dwProduct cmd a b r l) := by
  have hstep : ∀ l < 32, ∀ r,
      CInt.Fits 32 ((acc (dwWord l)).toInt + ∑ r' ∈ range r, dwProduct cmd a b r' l) →
      ((acc + ∑ r' ∈ range r, dwTap cmd a b r') (dwWord l)).toInt + dwProduct cmd a b r l =
        (acc (dwWord l)).toInt + ∑ r' ∈ range (r + 1), dwProduct cmd a b r' l := by
    intro l hl r hfits
    rw [Pi.add_apply, sum_dwTap_apply cmd a b r hl, toInt_add_ofInt hfits,
      sum_range_succ, add_assoc]
  constructor
  · intro h r hr l hl
    rw [hstep l hl r]
    · exact h l hl r hr
    · cases r with
      | zero => simpa using fits_toInt _
      | succ r => exact h l hl r (by omega)
  · intro h l hl r
    induction r with
    | zero =>
        intro hr
        rw [← hstep l hl 0 (by simpa using fits_toInt _)]
        exact h 0 hr l hl
    | succ r ih =>
        intro hr
        rw [← hstep l hl (r + 1) (ih (by omega))]
        exact h (r + 1) hr l hl

/-- **What the loops add**, if no sum overflows. -/
theorem dwLoops_eq (acc : ℕ → BitVec 32) :
    dwLoops wrapv cmd a b acc =
      if wrapv = true ∨ NoOverflow cmd a b acc then some (acc + ∑ r ∈ range 3, dwTap cmd a b r)
      else none := by
  rw [dwLoops, foldlM_add (fun acc r => dwTaps_eq wrapv cmd a b r acc)]
  refine if_congr ?_ rfl rfl
  rw [noOverflow_iff]
  cases wrapv <;> simp

end Dwconv

/-! ### Three taps, or a trap -/

section Correct

variable (wrapv writeAcc : Bool) (address : BitVec 32) (vs1 vs3 vd : ℕ) (regData : BitVec 32)
    (s : DwState)

/-- The words of `a_data` by activation vectors. -/
def dwData (stack : ℕ → BitVec 32) (r j : ℕ) : BitVec 32 :=
  aData (CoralNPUVDwconvCmd.ofWord regData).sparsity
    (dwSource (CoralNPUVDwconvCmd.ofWord regData) vs1 s.file 0)
    (dwSource (CoralNPUVDwconvCmd.ofWord regData) vs1 s.file 1)
    (dwSource (CoralNPUVDwconvCmd.ofWord regData) vs1 s.file 2) stack (r * kVectorLenInWord + j)

/-- The activation vectors of a command. -/
def dwActivation : ℕ → ℕ → BitVec 32 :=
  activation (CoralNPUVDwconvCmd.ofWord regData).sparsity
    (dwSource (CoralNPUVDwconvCmd.ofWord regData) vs1 s.file)

/-- The weight of lane `l` of tap `r`. -/
def dwWeight (r l : ℕ) : ℤ :=
  byteValue (CoralNPUVDwconvCmd.ofWord regData).sdata2 (lane 8 (s.file (vs3 + r)) l) +
    (CoralNPUVDwconvCmd.ofWord regData).sbias2.toInt

/-- The accumulator is in the registers of the destination. -/
def HoldsWords (file : VectorFile) (acc : ℕ → BitVec 32) : Prop :=
  ∀ i < 4, ∀ j < 8, lane 32 (file (vd + i)) j = acc (8 * i + j)

/-- **Three taps are added, or the command traps and changes nothing**, whatever the stack holds. -/
def DwconvCorrect : Prop :=
  ∀ stack, ∃ s', coralNPUVDwconv wrapv writeAcc address vs1 vs3 vd regData stack s = some s' ∧
    if (CoralNPUVDwconvCmd.ofWord regData).sparsity = 3 then
      s'.traps = s.traps ++ [illegalCommand address] ∧
        (∀ c < 32, s'.dwAccRegister c = s.dwAccRegister c) ∧
        ∀ i < 4, s'.file (vd + i) = s.file (vd + i)
    else
      s'.traps = s.traps ∧
        (∀ l < 32, s'.dwAccRegister (8 * kInterleave (l % 4) + l / 4) =
          s.dwAccRegister (8 * kInterleave (l % 4) + l / 4) + BitVec.ofInt 32 (∑ r ∈ range 3,
            (byteValue (CoralNPUVDwconvCmd.ofWord regData).sdata1
                (lane 8 (dwActivation vs1 regData s r (l / 4)) (l % 4)) +
              (CoralNPUVDwconvCmd.ofWord regData).sbias1.toInt) * dwWeight vs3 regData s r l)) ∧
        (writeAcc = true → HoldsWords vd s'.file s'.dwAccRegister)

/-- When it does: a command that is legal and no sum overflows (or overflows wrap around), or an
illegal one whose products are all zero and that writes the accumulator only where it is already. -/
def DwconvHolds : Prop :=
  if (CoralNPUVDwconvCmd.ofWord regData).sparsity = 3 then
    (∀ r < 3, ∀ l < 32, dwWeight vs3 regData s r l = 0) ∧
      (writeAcc = true → HoldsWords vd s.file s.dwAccRegister)
  else
    wrapv = true ∨ NoOverflow (CoralNPUVDwconvCmd.ofWord regData) (dwActivation vs1 regData s)
      (fun r => s.file (vs3 + r)) s.dwAccRegister

/-- The registers afterwards. -/
def dwWritten (acc : ℕ → BitVec 32) : VectorFile :=
  if writeAcc then
    submit s.file (vd + ·)
      (fun i => ofLanes kVectorLengthInBits 32 fun j => acc (i * kVectorLenInWord + j)) 4
  else s.file

theorem holdsWords_dwWritten (acc : ℕ → BitVec 32) :
    HoldsWords vd (dwWritten true vd s acc) acc := by
  intro i hi j hj
  rw [dwWritten, if_pos rfl, submit_consecutive hi, lane_ofLanes, Nat.mul_comm]
  · rfl
  · rw [kVectorLengthInBits]
    omega

/-- Registers that hold the same words are the same. -/
theorem eq_of_holdsWords {file file' : VectorFile} {acc : ℕ → BitVec 32}
    (h : HoldsWords vd file acc) (h' : HoldsWords vd file' acc) {i : ℕ} (hi : i < 4) :
    file (vd + i) = file' (vd + i) :=
  ext_of_lanes (m := 8) rfl fun j hj => (h i hi j hj).trans (h' i hi j hj).symm

/-- The state afterwards, for a new accumulator. -/
def dwResult (acc : ℕ → BitVec 32) : DwState where
  file := dwWritten writeAcc vd s acc
  dwAccRegister := acc
  traps :=
    if (CoralNPUVDwconvCmd.ofWord regData).sparsity = 3 then s.traps ++ [illegalCommand address]
    else s.traps

@[simp] theorem dwAccRegister_dwResult (acc : ℕ → BitVec 32) :
    (dwResult writeAcc address vd regData s acc).dwAccRegister = acc := rfl

/-- **What the instruction does.** -/
theorem vDwconv_eq (stack : ℕ → BitVec 32) :
    coralNPUVDwconv wrapv writeAcc address vs1 vs3 vd regData stack s =
      if wrapv = true ∨ NoOverflow (CoralNPUVDwconvCmd.ofWord regData) (dwData vs1 regData s stack)
          (fun r => s.file (vs3 + r)) s.dwAccRegister then
        some (dwResult writeAcc address vd regData s (s.dwAccRegister +
          ∑ r ∈ range 3, dwTap (CoralNPUVDwconvCmd.ofWord regData) (dwData vs1 regData s stack)
            (fun r => s.file (vs3 + r)) r))
      else none := by
  have hmap : coralNPUVDwconv wrapv writeAcc address vs1 vs3 vd regData stack s =
      (dwLoops wrapv (CoralNPUVDwconvCmd.ofWord regData) (dwData vs1 regData s stack)
        (fun r => s.file (vs3 + r)) s.dwAccRegister).map
          (dwResult writeAcc address vd regData s) := by
    rw [Option.map_eq_bind]
    rfl
  rw [hmap, dwLoops_eq]
  split <;> rfl

/-- The words of a stack whose byte for lane `l` of tap `r` is one, and all others zero. -/
def stackWithOne (r l : ℕ) : ℕ → BitVec 32 := fun q =>
  if q = r * kVectorLenInWord + l / 4 then ofLanes 32 8 fun j => if j = l % 4 then 1 else 0 else 0

end Correct

section Illegal

variable {wrapv writeAcc : Bool} {address : BitVec 32} {vs1 vs3 vd : ℕ} {regData : BitVec 32}
    {s : DwState}

/-- The stack is all that an illegal command finds in `a_data`. -/
theorem dwData_of_illegal (h : (CoralNPUVDwconvCmd.ofWord regData).sparsity = 3)
    (stack : ℕ → BitVec 32) (r j : ℕ) :
    dwData vs1 regData s stack r j = stack (r * kVectorLenInWord + j) := by
  rw [dwData, aData, h, if_neg (by decide), if_neg (by decide), if_neg (by decide)]

/-- The value that an illegal command finds for a lane. -/
theorem byteValue_stackWithOne (isSigned : BitVec 1) (r r' l : ℕ) :
    byteValue isSigned (lane 8 (stackWithOne r l (r' * kVectorLenInWord + l / 4)) (l % 4)) =
      if r' = r then 1 else 0 := by
  rw [stackWithOne]
  by_cases heq : r' = r
  · subst heq
    rw [if_pos rfl, lane_ofLanes _ (by omega), if_pos rfl, if_pos rfl]
    revert isSigned
    decide
  · have hword : ¬ r' * kVectorLenInWord + l / 4 = r * kVectorLenInWord + l / 4 := by
      have hlength : kVectorLenInWord = 8 := rfl
      rw [hlength]
      omega
    rw [if_neg hword, if_neg heq]
    have hzero : lane 8 (0 : BitVec 32) (l % 4) = 0 := by simp [lane]
    rw [hzero]
    revert isSigned
    decide

theorem byteValue_bounds (isSigned : BitVec 1) (x : BitVec 8) :
    -128 ≤ byteValue isSigned x ∧ byteValue isSigned x ≤ 255 := by
  have hlt := x.isLt
  have hlo := BitVec.le_toInt x
  have hhi := BitVec.toInt_lt (x := x)
  rw [byteValue]
  split <;> omega

/-- A weight is small. -/
theorem dwWeight_fits (r l : ℕ) : CInt.Fits 32 (dwWeight vs3 regData s r l) := by
  have hbyte :=
    byteValue_bounds (CoralNPUVDwconvCmd.ofWord regData).sdata2 (lane 8 (s.file (vs3 + r)) l)
  have hlo := BitVec.le_toInt (CoralNPUVDwconvCmd.ofWord regData).sbias2
  have hhi := BitVec.toInt_lt (x := (CoralNPUVDwconvCmd.ofWord regData).sbias2)
  constructor <;> rw [dwWeight] <;> omega

/-- An illegal command that keeps the accumulator adds zero. -/
theorem sum_products_of_correct (h3 : (CoralNPUVDwconvCmd.ofWord regData).sparsity = 3)
    (h : DwconvCorrect wrapv writeAcc address vs1 vs3 vd regData s) (stack : ℕ → BitVec 32) {l : ℕ}
    (hl : l < 32) :
    BitVec.ofInt 32 (∑ r ∈ range 3,
      (byteValue (CoralNPUVDwconvCmd.ofWord regData).sdata1
          (lane 8 (stack (r * kVectorLenInWord + l / 4)) (l % 4)) +
        (CoralNPUVDwconvCmd.ofWord regData).sbias1.toInt) * dwWeight vs3 regData s r l) = 0 := by
  obtain ⟨s', hrun, hs'⟩ := h stack
  rw [if_pos h3] at hs'
  obtain ⟨-, hacc, -⟩ := hs'
  rw [vDwconv_eq] at hrun
  split at hrun
  · obtain rfl := Option.some.inj hrun
    have hword : dwWord l < 32 := by
      revert l
      decide
    have hkept := hacc (dwWord l) hword
    rw [dwAccRegister_dwResult, Pi.add_apply, sum_dwTap_apply _ _ _ 3 hl] at hkept
    have hzero := BitVec.add_right_eq_self.1 hkept
    simp only [dwProduct, dwData_of_illegal h3] at hzero
    exact hzero
  · cases hrun

/-- **An illegal command that changes nothing has no weights.** -/
theorem dwWeight_of_correct (h3 : (CoralNPUVDwconvCmd.ofWord regData).sparsity = 3)
    (h : DwconvCorrect wrapv writeAcc address vs1 vs3 vd regData s) :
    ∀ r < 3, ∀ l < 32, dwWeight vs3 regData s r l = 0 := by
  intro r hr l hl
  -- the stack of zeros, and the one that differs from it in the byte of this lane
  have hzeros := sum_products_of_correct h3 h (stackWithOne 3 l) hl
  have hone := sum_products_of_correct h3 h (stackWithOne r l) hl
  simp only [byteValue_stackWithOne, add_mul, sum_add_distrib, ite_mul, one_mul, zero_mul,
    sum_ite_eq', mem_range, hr, if_true, Nat.lt_irrefl, if_false, zero_add] at hzeros hone
  rw [BitVec.ofInt_add, hzeros, add_zero] at hone
  have hvalue := congrArg BitVec.toInt hone
  rw [BitVec.toInt_ofInt] at hvalue
  exact (CInt.toSigned_of_fits (by decide) (dwWeight_fits r l)).symm.trans hvalue

/-- An illegal command without weights adds nothing. -/
theorem dwProduct_of_weight {r l : ℕ} (h : dwWeight vs3 regData s r l = 0) (a : ℕ → ℕ → BitVec 32) :
    dwProduct (CoralNPUVDwconvCmd.ofWord regData) a (fun r => s.file (vs3 + r)) r l = 0 := by
  rw [dwProduct]
  exact mul_eq_zero_of_right _ h

end Illegal

section Legal

variable {vs1 : ℕ} {regData : BitVec 32} {s : DwState}

/-- The products of a legal command. -/
theorem dwProduct_of_legal (h3 : (CoralNPUVDwconvCmd.ofWord regData).sparsity ≠ 3)
    (b : ℕ → BitVec kVectorLengthInBits) (stack : ℕ → BitVec 32) {r l : ℕ} (hr : r < 3)
    (hl : l < 32) :
    dwProduct (CoralNPUVDwconvCmd.ofWord regData) (dwData vs1 regData s stack) b r l =
      dwProduct (CoralNPUVDwconvCmd.ofWord regData) (dwActivation vs1 regData s) b r l := by
  have hword : dwData vs1 regData s stack r (l / 4) = dwActivation vs1 regData s r (l / 4) :=
    aData_eq_activation h3 (dwSource (CoralNPUVDwconvCmd.ofWord regData) vs1 s.file) stack hr
      (by omega)
  rw [dwProduct, hword]
  rfl

/-- The sums of a legal command. -/
theorem sum_dwProduct_of_legal (h3 : (CoralNPUVDwconvCmd.ofWord regData).sparsity ≠ 3)
    (b : ℕ → BitVec kVectorLengthInBits) (stack : ℕ → BitVec 32) {n l : ℕ} (hn : n ≤ 3)
    (hl : l < 32) :
    ∑ r ∈ range n, dwProduct (CoralNPUVDwconvCmd.ofWord regData)
      (dwData vs1 regData s stack) b r l =
      ∑ r ∈ range n, dwProduct (CoralNPUVDwconvCmd.ofWord regData)
        (dwActivation vs1 regData s) b r l :=
  sum_congr rfl fun _ hr => dwProduct_of_legal h3 b stack ((mem_range.1 hr).trans_le hn) hl

/-- A legal command does not look at the stack. -/
theorem noOverflow_of_legal (h3 : (CoralNPUVDwconvCmd.ofWord regData).sparsity ≠ 3)
    (b : ℕ → BitVec kVectorLengthInBits) (acc stack : ℕ → BitVec 32) :
    NoOverflow (CoralNPUVDwconvCmd.ofWord regData) (dwData vs1 regData s stack) b acc ↔
      NoOverflow (CoralNPUVDwconvCmd.ofWord regData) (dwActivation vs1 regData s) b acc := by
  refine forall₂_congr fun l hl => forall₂_congr fun r hr => ?_
  rw [sum_dwProduct_of_legal h3 b stack hr hl]

end Legal

section Iff

variable {wrapv writeAcc : Bool} {address : BitVec 32} {vs1 vs3 vd : ℕ} {regData : BitVec 32}
    {s : DwState}

/-- An illegal command traps cleanly if it has no weights. -/
theorem correct_iff_of_illegal (h3 : (CoralNPUVDwconvCmd.ofWord regData).sparsity = 3) :
    DwconvCorrect wrapv writeAcc address vs1 vs3 vd regData s ↔
      (∀ r < 3, ∀ l < 32, dwWeight vs3 regData s r l = 0) ∧
        (writeAcc = true → HoldsWords vd s.file s.dwAccRegister) := by
  constructor
  · intro h
    refine ⟨dwWeight_of_correct h3 h, ?_⟩
    rintro rfl
    obtain ⟨s', hrun, hs'⟩ := h fun _ => 0
    rw [if_pos h3] at hs'
    obtain ⟨-, hacc, hfile⟩ := hs'
    rw [vDwconv_eq] at hrun
    split at hrun
    · obtain rfl := Option.some.inj hrun
      intro i hi j hj
      rw [← hfile i hi, ← hacc (8 * i + j) (by omega)]
      exact holdsWords_dwWritten vd s _ i hi j hj
    · cases hrun
  · rintro ⟨hweight, hwrite⟩ stack
    have hzero : ∀ r < 3, ∀ l < 32, dwProduct (CoralNPUVDwconvCmd.ofWord regData)
        (dwData vs1 regData s stack) (fun r => s.file (vs3 + r)) r l = 0 := fun r hr l hl =>
      dwProduct_of_weight (hweight r hr l hl) _
    have hfits : NoOverflow (CoralNPUVDwconvCmd.ofWord regData) (dwData vs1 regData s stack)
        (fun r => s.file (vs3 + r)) s.dwAccRegister := by
      intro l hl r hr
      rw [sum_eq_zero fun r' hr' => hzero r' ((mem_range.1 hr').trans_le hr) l hl, add_zero]
      exact fits_toInt _
    have hsum : ∑ r ∈ range 3, dwTap (CoralNPUVDwconvCmd.ofWord regData)
        (dwData vs1 regData s stack) (fun r => s.file (vs3 + r)) r = 0 := by
      refine sum_eq_zero fun r hr => sum_eq_zero fun l hl => ?_
      rw [hzero r (mem_range.1 hr) l (mem_range.1 hl)]
      exact Pi.single_zero _
    refine ⟨_, (vDwconv_eq ..).trans (if_pos (Or.inr hfits)), ?_⟩
    rw [hsum, add_zero, if_pos h3]
    refine ⟨if_pos h3, fun _ _ => rfl, fun i hi => ?_⟩
    cases writeAcc with
    | false => rfl
    | true => exact eq_of_holdsWords vd (holdsWords_dwWritten vd s _) (hwrite rfl) hi

/-- A legal command adds three taps if no sum overflows. -/
theorem correct_iff_of_legal (h3 : (CoralNPUVDwconvCmd.ofWord regData).sparsity ≠ 3) :
    DwconvCorrect wrapv writeAcc address vs1 vs3 vd regData s ↔
      wrapv = true ∨ NoOverflow (CoralNPUVDwconvCmd.ofWord regData) (dwActivation vs1 regData s)
        (fun r => s.file (vs3 + r)) s.dwAccRegister := by
  constructor
  · intro h
    obtain ⟨s', hrun, -⟩ := h fun _ => 0
    rw [vDwconv_eq] at hrun
    split at hrun
    · rename_i hfits
      exact hfits.imp_right (noOverflow_of_legal h3 _ _ _).1
    · cases hrun
  · intro h stack
    have hfits :=
      h.imp_right (noOverflow_of_legal h3 (fun r => s.file (vs3 + r)) s.dwAccRegister stack).2
    refine ⟨_, (vDwconv_eq ..).trans (if_pos hfits), ?_⟩
    rw [if_neg h3]
    refine ⟨if_neg h3, fun l hl => ?_, ?_⟩
    · have hlane := sum_dwTap_apply (CoralNPUVDwconvCmd.ofWord regData) (dwData vs1 regData s stack)
        (fun r => s.file (vs3 + r)) 3 hl
      rw [sum_dwProduct_of_legal h3 _ stack le_rfl hl] at hlane
      exact congrArg (s.dwAccRegister (dwWord l) + ·) hlane
    · rintro rfl
      exact holdsWords_dwWritten vd s _

end Iff

/-- **When a depthwise convolution adds three taps or traps cleanly.** -/
theorem vDwconv_correct_iff (wrapv writeAcc : Bool) (address : BitVec 32) (vs1 vs3 vd : ℕ)
    (regData : BitVec 32) (s : DwState) :
    DwconvCorrect wrapv writeAcc address vs1 vs3 vd regData s ↔
      DwconvHolds wrapv writeAcc vs1 vs3 vd regData s := by
  rw [DwconvHolds]
  split
  · rename_i h3
    exact correct_iff_of_illegal h3
  · rename_i h3
    exact correct_iff_of_legal h3

/-- A command with the illegal sparsity that adds to the accumulator all the same. -/
theorem not_vDwconvCorrect_sparsityThree :
    ¬ DwconvCorrect true false 0 0 16 48 0x0040000c ⟨fun _ => 0, fun _ => 0, []⟩ := by
  intro h
  have hweight := dwWeight_of_correct (by decide) h 0 (by decide) 0 (by decide)
  revert hweight
  decide

end CoralNpu
