/-
**The orchestrator: finalising a test.**

A test that is kept gets its own checks.  The run of nops and `mpause` words at the end of the image
is overwritten by one check for each register the terminal state records: the check compares the
register with the recorded value and reaches an `ebreak` when they differ.  Before each check the
room left is tested against the size of the check alone, and the `mpause` behind the checks is
written when a word is left for it.

Main definitions:

* `CoralNpu.nopStart` — where the trailing run starts;
* `CoralNpu.checkX`, `CoralNpu.checkF`, `CoralNpu.checkV` — the words of a check;
* `CoralNpu.emitChecks` — the loop that writes the checks of one kind;
* `CoralNpu.performPhase2Finalize` — `Orchestrator::PerformPhase2Finalize`;
* `CoralNpu.IsFinalized` — the image is well formed;
* `CoralNpu.FillsExactly` — the checks that fit leave no word for the `mpause`.

Main results:

* `CoralNpu.emitChecks_eq` — a loop writes the checks that fit, one behind the other;
* `CoralNpu.finalized_eq` — the image finalised, in closed form;
* `CoralNpu.isFinalized_iff` — **finalising keeps the image well formed exactly when a word is
  left**.
-/

import CoralNpu.OrchestratorMutate

set_option relaxedAutoImplicit false
set_option autoImplicit false

namespace CoralNpu

open AsciiText CodeImage

/-! ### The trailing run -/

/-- The loop that steps back over nops and `mpause` words. -/
def nopStart (binary : Bytes) : ℕ → ℕ
  | n + 4 =>
      if wordAt binary n = 0x08000073 ∨ wordAt binary n = 0x00000013 then nopStart binary n
      else n + 4
  | n => n

/-! ### The checks -/

/-- `TerminalState`, with the registers recorded by name. -/
structure TerminalState where
  registers : Text → Option Word
  vectorRegisters : Text → Option Bytes

/-- `lui rd, upper20`. -/
def luiWord (rd golden : Word) : Word :=
  let upper20 := (golden + 0x800) >>> 12
  upper20 <<< 12 ||| rd <<< 7 ||| 0x37

/-- `addi rd, rd, lower12`. -/
def addiWord (rd golden : Word) : Word :=
  let upper20 := (golden + 0x800) >>> 12
  let lower12 := golden - upper20 <<< 12
  let uLower12 := lower12 &&& 0xFFF
  uLower12 <<< 20 ||| rd <<< 15 ||| 0 <<< 12 ||| rd <<< 7 ||| 0x13

/-- `beq rs1, rs2, +8`. -/
def beqWord (rs1 rs2 : Word) : Word :=
  let offset : Word := 8
  let bit12 := offset >>> 12 &&& 0x1
  let bit11 := offset >>> 11 &&& 0x1
  let bits10_5 := offset >>> 5 &&& 0x3F
  let bits4_1 := offset >>> 1 &&& 0xF
  bit12 <<< 31 ||| bits10_5 <<< 25 ||| rs2 <<< 20 ||| rs1 <<< 15 ||| 0 <<< 12 |||
    bits4_1 <<< 8 ||| bit11 <<< 7 ||| 0x63

/-- `ebreak`. -/
def ebreakWord : Word := 0x00100073

/-- The check of a register `x`. -/
def checkX (i golden : Word) : List Word :=
  let scratch : Word := 31
  [luiWord scratch golden, addiWord scratch golden, beqWord i scratch, ebreakWord]

/-- The check of what `extract` moves to `x31`. -/
def checkExtracted (extract golden : Word) : List Word :=
  let scratchGolden : Word := 30
  let scratchExtract : Word := 31
  [extract, luiWord scratchGolden golden, addiWord scratchGolden golden,
    beqWord scratchExtract scratchGolden, ebreakWord]

/-- The check of a register `f`, by `fmv.x.w`. -/
def checkF (i golden : Word) : List Word :=
  let scratchExtract : Word := 31
  checkExtracted (0b1110000 <<< 25 ||| 0 <<< 20 ||| i <<< 15 ||| 0 <<< 12 |||
    scratchExtract <<< 7 ||| 0x53) golden

/-- The check of element 0 of a register `v`, by `vmv.x.s`. -/
def checkV (i golden : Word) : List Word :=
  let scratchExtract : Word := 31
  checkExtracted (0b010000 <<< 26 ||| 1 <<< 25 ||| i <<< 20 ||| 0 <<< 15 ||| 2 <<< 12 |||
    scratchExtract <<< 7 ||| 0x57) golden

/-- The name of a register. -/
def registerName (kind : Char) (i : ℕ) : Text := kind :: decimal i

namespace TerminalState

/-- The checks of the registers `x1` to `x29` that are recorded. -/
def checksX (terminal : TerminalState) : List (List Word) :=
  (List.range' 1 29).filterMap fun i =>
    (terminal.registers (registerName 'x' i)).map (checkX (BitVec.ofNat 32 i))

/-- The checks of the registers `f` that are recorded. -/
def checksF (terminal : TerminalState) : List (List Word) :=
  (List.range 32).filterMap fun i =>
    (terminal.registers (registerName 'f' i)).map (checkF (BitVec.ofNat 32 i))

/-- The checks of the registers `v` that are recorded with at least four bytes. -/
def checksV (terminal : TerminalState) : List (List Word) :=
  (List.range 32).filterMap fun i =>
    match terminal.vectorRegisters (registerName 'v' i) with
    | some bytes =>
        if bytes.length ≥ 4 then some (checkV (BitVec.ofNat 32 i) (wordAt bytes 0)) else none
    | none => none

end TerminalState

/-! ### Emission -/

/-- The image under work and the place of the next word.  The checks emitted so far are recorded for
the proofs only. -/
structure Finalizer where
  binary : Bytes
  currentPc : ℕ
  emitted : List (List Word)

/-- `emit_inst`. -/
def Finalizer.emitInst (f : Finalizer) (inst : Word) : Finalizer :=
  if f.currentPc + 4 ≤ f.binary.length then
    { f with
      binary := patch f.binary f.currentPc (bytesOfWord inst)
      currentPc := f.currentPc + 4 }
  else f

/-- The loop over the checks of one kind; it ends where a check does not fit. -/
def emitChecks (size : ℕ) : List (List Word) → Finalizer → Finalizer
  | [], f => f
  | check :: checks, f =>
      if f.currentPc + size > f.binary.length then f
      else
        emitChecks size checks
          { check.foldl Finalizer.emitInst f with emitted := f.emitted ++ [check] }

/-- The three loops. -/
def emitAllChecks (binary : Bytes) (terminal : TerminalState) : Finalizer :=
  emitChecks 20 terminal.checksV <| emitChecks 20 terminal.checksF <|
    emitChecks 16 terminal.checksX ⟨binary, nopStart binary binary.length, []⟩

/-- The image after `PerformPhase2Finalize`. -/
def finalizedBinary (binary : Bytes) (terminal : TerminalState) : Bytes :=
  let f := emitAllChecks binary terminal
  if f.currentPc + 4 ≤ f.binary.length then (f.emitInst 0x08000073).binary else f.binary

/-- `PerformPhase2Finalize`. -/
def performPhase2Finalize (seq : CompiledSequence) (terminal : TerminalState) : CompiledSequence :=
  { seq with itcmBinary := finalizedBinary seq.itcmBinary terminal }

/-! ### What the loops write -/

theorem foldl_emitInst {words : List Word} {f : Finalizer}
    (h : f.currentPc + 4 * words.length ≤ f.binary.length) :
    words.foldl Finalizer.emitInst f =
      ⟨patch f.binary f.currentPc (encode words), f.currentPc + 4 * words.length, f.emitted⟩ := by
  induction words generalizing f with
  | nil => rw [List.foldl_nil, encode_nil, patch_nil]; rfl
  | cons w words ih =>
      rw [List.length_cons] at h
      have hfit : f.currentPc + (bytesOfWord w).length ≤ f.binary.length := by
        rw [length_bytesOfWord]
        omega
      have hone : f.emitInst w =
          ⟨patch f.binary f.currentPc (bytesOfWord w), f.currentPc + 4, f.emitted⟩ := if_pos hfit
      have hrest : f.currentPc + 4 + 4 * words.length ≤
          (patch f.binary f.currentPc (bytesOfWord w)).length := by
        rw [length_patch hfit]
        omega
      rw [List.foldl_cons, hone, ih hrest]
      simp only [encode_cons, List.length_cons, Nat.mul_add_one, Finalizer.mk.injEq, and_true]
      exact ⟨patch_patch (by omega), by omega⟩

/-- The number of checks of one kind that fit. -/
def fitCount (size room : ℕ) (checks : List (List Word)) : ℕ := min checks.length (room / size)

/-- The bytes of several checks. -/
def checkBytes (checks : List (List Word)) : Bytes := encode checks.flatten

theorem length_checkBytes {size : ℕ} {checks : List (List Word)}
    (h : ∀ check ∈ checks, 4 * check.length = size) :
    (checkBytes checks).length = size * checks.length := by
  induction checks with
  | nil => rfl
  | cons check checks ih =>
      rw [List.forall_mem_cons] at h
      have hrest := ih h.2
      rw [checkBytes, length_encode] at hrest ⊢
      rw [List.flatten_cons, List.length_append, List.length_cons, Nat.mul_add, h.1, hrest,
        Nat.mul_add_one, Nat.add_comm]

namespace Finalizer

/-- The bytes left. -/
def room (f : Finalizer) : ℕ := f.binary.length - f.currentPc

/-- The image with checks written. -/
def extend (f : Finalizer) (checks : List (List Word)) : Finalizer :=
  ⟨patch f.binary f.currentPc (checkBytes checks), f.currentPc + (checkBytes checks).length,
    f.emitted ++ checks⟩

/-- The place of the next word is in the image or at its end. -/
def InImage (f : Finalizer) : Prop := f.currentPc ≤ f.binary.length

theorem currentPc_extend (f : Finalizer) (checks : List (List Word)) :
    (f.extend checks).currentPc = f.currentPc + (checkBytes checks).length := rfl

theorem extend_nil (f : Finalizer) : f.extend [] = f := by
  rw [extend, checkBytes, List.flatten_nil, encode_nil, patch_nil, List.append_nil]
  rfl

theorem extend_extend {f : Finalizer} (h : f.InImage) (checks checks' : List (List Word)) :
    (f.extend checks).extend checks' = f.extend (checks ++ checks') := by
  have hadjacent : patch (patch f.binary f.currentPc (checkBytes checks))
      (f.currentPc + (checkBytes checks).length) (checkBytes checks') =
      patch f.binary f.currentPc (checkBytes checks ++ checkBytes checks') := patch_patch h
  simp only [extend, checkBytes, List.flatten_append, encode_append, List.length_append,
    List.append_assoc, Nat.add_assoc] at hadjacent ⊢
  rw [hadjacent]

theorem length_binary_extend {f : Finalizer} {checks : List (List Word)} (h : f.InImage)
    (hfit : (checkBytes checks).length ≤ f.room) :
    (f.extend checks).binary.length = f.binary.length := by
  rw [InImage] at h
  rw [room] at hfit
  exact length_patch (by omega)

theorem InImage.extend {f : Finalizer} {checks : List (List Word)} (h : f.InImage)
    (hfit : (checkBytes checks).length ≤ f.room) : (f.extend checks).InImage := by
  have hlength := length_binary_extend h hfit
  rw [room] at hfit
  rw [InImage] at h ⊢
  rw [hlength, currentPc_extend]
  omega

theorem room_extend {f : Finalizer} {checks : List (List Word)} (h : f.InImage)
    (hfit : (checkBytes checks).length ≤ f.room) :
    (f.extend checks).room = f.room - (checkBytes checks).length := by
  rw [room, length_binary_extend h hfit, room, currentPc_extend]
  omega

end Finalizer

/-- The bytes of the checks that fit are within the room. -/
theorem length_checkBytes_take_fitCount {size : ℕ} {checks : List (List Word)} (room : ℕ)
    (hchecks : ∀ check ∈ checks, 4 * check.length = size) :
    (checkBytes (checks.take (fitCount size room checks))).length =
      size * fitCount size room checks := by
  rw [length_checkBytes fun check h => hchecks check (List.mem_of_mem_take h),
    List.length_take_of_le (by rw [fitCount]; omega)]

theorem mul_fitCount_le (size room : ℕ) (checks : List (List Word)) :
    size * fitCount size room checks ≤ room :=
  (Nat.mul_le_mul_left _ (Nat.min_le_right ..)).trans (Nat.mul_div_le ..)

/-- One more check fits. -/
theorem fitCount_cons {size room : ℕ} (hsize : 0 < size) (h : size ≤ room) (check : List Word)
    (checks : List (List Word)) :
    fitCount size room (check :: checks) = fitCount size (room - size) checks + 1 := by
  have hdiv : room / size = (room - size) / size + 1 := by
    rw [← Nat.add_div_right _ hsize, Nat.sub_add_cancel h]
  rw [fitCount, fitCount, List.length_cons, hdiv, Nat.add_min_add_right]

/-- **A loop writes the checks that fit, one behind the other.** -/
theorem emitChecks_eq {size : ℕ} (hsize : 0 < size) {checks : List (List Word)}
    (hchecks : ∀ check ∈ checks, 4 * check.length = size) {f : Finalizer} (hf : f.InImage) :
    emitChecks size checks f = f.extend (checks.take (fitCount size f.room checks)) := by
  induction checks generalizing f with
  | nil => rw [emitChecks, List.take_nil, f.extend_nil]
  | cons check checks ih =>
      rw [List.forall_mem_cons] at hchecks
      have hcheck := hchecks.1
      by_cases hroom : f.currentPc + size > f.binary.length
      · have hcount : fitCount size f.room (check :: checks) = 0 := by
          rw [fitCount, Finalizer.room, Nat.div_eq_of_lt (by omega), Nat.min_zero]
        rw [emitChecks, if_pos hroom, hcount, List.take_zero, f.extend_nil]
      · have hfit : size ≤ f.room := by
          rw [Finalizer.room]
          omega
        have hbytes : checkBytes [check] = encode check := by
          rw [checkBytes, List.flatten_singleton]
        have hlength : (checkBytes [check]).length = size := by rw [hbytes, length_encode, hcheck]
        -- the check itself is written whole
        have hone : { check.foldl Finalizer.emitInst f with emitted := f.emitted ++ [check] } =
            f.extend [check] := by
          rw [foldl_emitInst (by omega), Finalizer.extend, hbytes, length_encode]
        rw [emitChecks, if_neg hroom, hone, ih hchecks.2 (hf.extend (by rw [hlength]; exact hfit)),
          Finalizer.room_extend hf (by rw [hlength]; exact hfit), hlength,
          Finalizer.extend_extend hf, fitCount_cons hsize hfit, List.take_succ_cons,
          List.singleton_append]

/-- A loop without room for a check does nothing. -/
theorem emitChecks_of_full {size : ℕ} {f : Finalizer} (h : f.currentPc + size > f.binary.length)
    (checks : List (List Word)) : emitChecks size checks f = f := by
  cases checks with
  | nil => rfl
  | cons check checks => exact if_pos h

/-- Two loops over checks of one size are one loop: after a check that does not fit none does. -/
theorem emitChecks_append (size : ℕ) (checks checks' : List (List Word)) (f : Finalizer) :
    emitChecks size (checks ++ checks') f = emitChecks size checks' (emitChecks size checks f) := by
  induction checks generalizing f with
  | nil => rfl
  | cons check checks ih =>
      by_cases hroom : f.currentPc + size > f.binary.length
      · rw [emitChecks_of_full hroom, emitChecks_of_full hroom, emitChecks_of_full hroom]
      · rw [List.cons_append, emitChecks, if_neg hroom, ih, emitChecks, if_neg hroom]

/-! ### The finalised image -/

theorem nopStart_le (binary : Bytes) (n : ℕ) : nopStart binary n ≤ n := by
  fun_induction nopStart binary n with
  | case1 n _ ih => omega
  | case2 n _ => exact Nat.le_refl _
  | case3 n _ => exact Nat.le_refl _

theorem dvd_nopStart (binary : Bytes) {n : ℕ} (h : 4 ∣ n) : 4 ∣ nopStart binary n := by
  fun_induction nopStart binary n with
  | case1 n _ ih => exact ih (by omega)
  | case2 n _ => exact h
  | case3 n _ => exact h

namespace TerminalState

variable (terminal : TerminalState)

theorem exists_of_mem_checksX {check : List Word} (h : check ∈ terminal.checksX) :
    ∃ i golden, check = checkX i golden := by
  obtain ⟨i, -, hi⟩ := List.mem_filterMap.1 h
  obtain ⟨golden, -, rfl⟩ := Option.map_eq_some_iff.1 hi
  exact ⟨_, golden, rfl⟩

theorem length_of_mem_checksX : ∀ check ∈ terminal.checksX, 4 * check.length = 16 := by
  intro check hmem
  obtain ⟨i, golden, rfl⟩ := terminal.exists_of_mem_checksX hmem
  rfl

/-- The checks of the registers `f` and `v`. -/
def checksFV : List (List Word) := terminal.checksF ++ terminal.checksV

theorem exists_of_mem_checksFV {check : List Word} (h : check ∈ terminal.checksFV) :
    ∃ extract golden, check = checkExtracted extract golden := by
  rcases List.mem_append.1 h with h | h
  · obtain ⟨i, -, hi⟩ := List.mem_filterMap.1 h
    obtain ⟨golden, -, rfl⟩ := Option.map_eq_some_iff.1 hi
    exact ⟨_, golden, rfl⟩
  · obtain ⟨i, -, hi⟩ := List.mem_filterMap.1 h
    split at hi
    · split at hi
      · cases hi
        exact ⟨_, _, rfl⟩
      · cases hi
    · cases hi

theorem length_of_mem_checksFV : ∀ check ∈ terminal.checksFV, 4 * check.length = 20 := by
  intro check hmem
  obtain ⟨extract, golden, rfl⟩ := terminal.exists_of_mem_checksFV hmem
  rfl

/-- A check ends in an `ebreak`. -/
theorem ends_of_mem : ∀ check ∈ terminal.checksX ++ terminal.checksFV,
    ∃ words, check = words ++ [ebreakWord] := by
  intro check hmem
  rcases List.mem_append.1 hmem with hmem | hmem
  · obtain ⟨i, golden, rfl⟩ := terminal.exists_of_mem_checksX hmem
    exact ⟨[_, _, _], rfl⟩
  · obtain ⟨extract, golden, rfl⟩ := terminal.exists_of_mem_checksFV hmem
    exact ⟨[_, _, _, _], rfl⟩

/-- The number of checks of the registers `x` that fit. -/
def countX (room : ℕ) : ℕ := fitCount 16 room terminal.checksX

/-- The number of checks of the registers `f` and `v` that fit behind them. -/
def countFV (room : ℕ) : ℕ := fitCount 20 (room - 16 * terminal.countX room) terminal.checksFV

/-- The checks that fit. -/
def fitting (room : ℕ) : List (List Word) :=
  terminal.checksX.take (terminal.countX room) ++ terminal.checksFV.take (terminal.countFV room)

/-- The bytes of the checks that fit. -/
def fittingSize (room : ℕ) : ℕ := 16 * terminal.countX room + 20 * terminal.countFV room

theorem fittingSize_le (room : ℕ) : terminal.fittingSize room ≤ room := by
  have hx := mul_fitCount_le 16 room terminal.checksX
  have hfv := mul_fitCount_le 20 (room - 16 * terminal.countX room) terminal.checksFV
  rw [fittingSize, countFV]
  rw [← countX] at hx
  omega

theorem length_checkBytes_fitting (room : ℕ) :
    (checkBytes (terminal.fitting room)).length = terminal.fittingSize room := by
  have hx := length_checkBytes_take_fitCount room terminal.length_of_mem_checksX
  have hfv := length_checkBytes_take_fitCount (room - 16 * terminal.countX room)
    terminal.length_of_mem_checksFV
  rw [checkBytes] at hx hfv ⊢
  rw [fitting, List.flatten_append, encode_append, List.length_append, fittingSize]
  exact congrArg₂ _ hx hfv

end TerminalState

/-- The loops write the checks that fit. -/
theorem emitChecks_emitChecks (terminal : TerminalState) {f : Finalizer} (hf : f.InImage) :
    emitChecks 20 terminal.checksFV (emitChecks 16 terminal.checksX f) =
      f.extend (terminal.fitting f.room) := by
  have hlength := length_checkBytes_take_fitCount f.room terminal.length_of_mem_checksX
  have hfit := mul_fitCount_le 16 f.room terminal.checksX
  rw [← hlength] at hfit
  rw [emitChecks_eq (by decide) terminal.length_of_mem_checksX hf,
    emitChecks_eq (by decide) terminal.length_of_mem_checksFV (hf.extend hfit),
    Finalizer.extend_extend hf, Finalizer.room_extend hf hfit, hlength]
  rfl

/-- **The loops write the checks that fit from the start of the trailing run on.** -/
theorem emitAllChecks_eq (binary : Bytes) (terminal : TerminalState) :
    let f : Finalizer := ⟨binary, nopStart binary binary.length, []⟩
    emitAllChecks binary terminal = f.extend (terminal.fitting f.room) := by
  intro f
  rw [emitAllChecks, ← emitChecks_append]
  exact emitChecks_emitChecks terminal (nopStart_le binary _)

/-! ### Well-formed images -/

/-- **The image is well formed**: the size and the bytes before the trailing run are kept, the
checks emitted are there, and an `mpause` follows them and is at the address the trap handler
returns to. -/
structure IsFinalized (binary : Bytes) (terminal : TerminalState) : Prop where
  length_eq : (finalizedBinary binary terminal).length = binary.length
  take_eq : (finalizedBinary binary terminal).take (nopStart binary binary.length) =
    binary.take (nopStart binary binary.length)
  checks : let words := (emitAllChecks binary terminal).emitted.flatten
    wordsFrom (finalizedBinary binary terminal) (nopStart binary binary.length) words.length = words
  terminator : let words := (emitAllChecks binary terminal).emitted.flatten
    wordAt (finalizedBinary binary terminal)
      (nopStart binary binary.length + 4 * words.length) = mpause
  trapReturn : wordAt (finalizedBinary binary terminal) 8188 = mpause

/-- The checks that fit take all the room of the trailing run. -/
def FillsExactly (binary : Bytes) (terminal : TerminalState) : Prop :=
  let room := binary.length - nopStart binary binary.length
  terminal.fittingSize room = room

section Finalized

/-- The room of the trailing run. -/
def tailRoom (binary : Bytes) : ℕ := binary.length - nopStart binary binary.length

variable {binary : Bytes} {terminal : TerminalState}

theorem emitted_emitAllChecks (binary : Bytes) (terminal : TerminalState) :
    (emitAllChecks binary terminal).emitted = terminal.fitting (tailRoom binary) := by
  rw [emitAllChecks_eq]
  rfl

theorem currentPc_emitAllChecks (binary : Bytes) (terminal : TerminalState) :
    (emitAllChecks binary terminal).currentPc =
      nopStart binary binary.length + terminal.fittingSize (tailRoom binary) := by
  rw [emitAllChecks_eq, Finalizer.currentPc_extend, TerminalState.length_checkBytes_fitting]
  rfl

theorem binary_emitAllChecks (binary : Bytes) (terminal : TerminalState) :
    (emitAllChecks binary terminal).binary = patch binary (nopStart binary binary.length)
      (encode (terminal.fitting (tailRoom binary)).flatten) := by
  rw [emitAllChecks_eq]
  rfl

theorem length_binary_emitAllChecks (binary : Bytes) (terminal : TerminalState) :
    (emitAllChecks binary terminal).binary.length = binary.length := by
  have hstart := nopStart_le binary binary.length
  have hle := terminal.fittingSize_le (tailRoom binary)
  have hsize := terminal.length_checkBytes_fitting (tailRoom binary)
  rw [tailRoom] at hle hsize
  rw [binary_emitAllChecks]
  exact length_patch (by rw [← checkBytes, tailRoom, hsize]; omega)

/-- The finalised image when a word is left: the checks and an `mpause` in the trailing run. -/
theorem finalizedBinary_of_room
    (h : terminal.fittingSize (tailRoom binary) + 4 ≤ tailRoom binary) :
    finalizedBinary binary terminal = patch binary (nopStart binary binary.length)
      (encode ((terminal.fitting (tailRoom binary)).flatten ++ [mpause])) := by
  have hstart := nopStart_le binary binary.length
  have hsize := terminal.length_checkBytes_fitting (tailRoom binary)
  have hroom : (emitAllChecks binary terminal).currentPc + 4 ≤
      (emitAllChecks binary terminal).binary.length := by
    rw [currentPc_emitAllChecks, length_binary_emitAllChecks]
    rw [tailRoom] at h ⊢
    omega
  rw [checkBytes] at hsize
  simp only [finalizedBinary, if_pos hroom, Finalizer.emitInst]
  rw [binary_emitAllChecks, currentPc_emitAllChecks, ← hsize, patch_patch hstart, encode_append]
  rfl

/-- The finalised image when no word is left: the checks alone. -/
theorem finalizedBinary_of_fillsExactly (h : FillsExactly binary terminal) :
    finalizedBinary binary terminal = patch binary (nopStart binary binary.length)
      (encode (terminal.fitting (tailRoom binary)).flatten) := by
  have hstart := nopStart_le binary binary.length
  have hroom : ¬ (emitAllChecks binary terminal).currentPc + 4 ≤
      (emitAllChecks binary terminal).binary.length := by
    rw [currentPc_emitAllChecks, length_binary_emitAllChecks]
    rw [FillsExactly] at h
    rw [tailRoom]
    omega
  rw [finalizedBinary, ← binary_emitAllChecks]
  exact if_neg hroom

theorem nopStart_le_of_mpause (hlength : binary.length = 8192)
    (hpause : wordAt binary 8188 = mpause) : nopStart binary binary.length ≤ 8188 := by
  have hstep : nopStart binary 8192 = nopStart binary 8188 := if_pos (Or.inl hpause)
  rw [hlength, hstep]
  exact nopStart_le binary 8188

/-- **A word left for the terminator keeps the image well formed.** -/
theorem isFinalized_of_room (hlength : binary.length = 8192)
    (hpause : wordAt binary 8188 = mpause) (h : ¬ FillsExactly binary terminal) :
    IsFinalized binary terminal := by
  have hstart := nopStart_le_of_mpause hlength hpause
  have hdvd : 4 ∣ nopStart binary binary.length := dvd_nopStart binary (by rw [hlength]; decide)
  have hle := terminal.fittingSize_le (tailRoom binary)
  have hroom : tailRoom binary = 8192 - nopStart binary binary.length := by rw [tailRoom, hlength]
  have hne : terminal.fittingSize (tailRoom binary) ≠ tailRoom binary := h
  have hsize := terminal.length_checkBytes_fitting (tailRoom binary)
  rw [checkBytes, length_encode] at hsize
  have hleft : terminal.fittingSize (tailRoom binary) + 4 ≤ tailRoom binary := by omega
  have hbinary := finalizedBinary_of_room hleft
  have hin : nopStart binary binary.length ≤ binary.length := by omega
  have hwindow : nopStart binary binary.length +
      (encode ((terminal.fitting (tailRoom binary)).flatten ++ [mpause])).length ≤ 8192 := by
    rw [length_encode, List.length_append, List.length_singleton]
    omega
  have hterminator : ∀ i,
      i = nopStart binary binary.length + 4 * (terminal.fitting (tailRoom binary)).flatten.length →
      wordAt (finalizedBinary binary terminal) i = mpause := by
    rintro i rfl
    rw [hbinary, wordAt_patch hin (by rw [List.length_append, List.length_singleton]; omega)]
    simp
  refine ⟨?_, ?_, ?_, ?_, ?_⟩
  · rw [hbinary, length_patch (by omega)]
  · rw [hbinary, take_patch hin]
  · rw [emitted_emitAllChecks, hbinary]
    exact wordsFrom_patch_append hin _ _
  · rw [emitted_emitAllChecks]
    exact hterminator _ rfl
  · by_cases hlast : nopStart binary binary.length +
        4 * (terminal.fitting (tailRoom binary)).flatten.length = 8188
    · exact hterminator _ hlast.symm
    · rw [hbinary, wordAt_patch_of_le hin, hpause]
      rw [length_encode, List.length_append, List.length_singleton]
      omega

/-- When a check fits, the last word is an `ebreak`. -/
theorem TerminalState.exists_fitting_eq (terminal : TerminalState) {room : ℕ}
    (h : 0 < terminal.fittingSize room) :
    ∃ words, (terminal.fitting room).flatten = words ++ [ebreakWord] := by
  rcases List.eq_nil_or_concat' (terminal.fitting room) with hnil | ⟨checks, check, hchecks⟩
  · have hsize := terminal.length_checkBytes_fitting room
    rw [hnil, checkBytes, List.flatten_nil, encode_nil, List.length_nil] at hsize
    omega
  have hmem : check ∈ terminal.checksX ++ terminal.checksFV := by
    have hcheck : check ∈ terminal.fitting room := by rw [hchecks]; simp
    rcases List.mem_append.1 hcheck with hcheck | hcheck
    · exact List.mem_append_left _ (List.mem_of_mem_take hcheck)
    · exact List.mem_append_right _ (List.mem_of_mem_take hcheck)
  obtain ⟨words, rfl⟩ := terminal.ends_of_mem check hmem
  exact ⟨checks.flatten ++ words, by rw [hchecks, List.flatten_append]; simp⟩

/-- Checks that take all the room end in the place of the final `mpause`. -/
theorem not_isFinalized_of_fillsExactly (hlength : binary.length = 8192)
    (hpause : wordAt binary 8188 = mpause) (h : FillsExactly binary terminal) :
    ¬ IsFinalized binary terminal := by
  have hstart := nopStart_le_of_mpause hlength hpause
  have hroom : tailRoom binary = 8192 - nopStart binary binary.length := by rw [tailRoom, hlength]
  have hfills : terminal.fittingSize (tailRoom binary) = tailRoom binary := h
  have hsize := terminal.length_checkBytes_fitting (tailRoom binary)
  rw [checkBytes, length_encode] at hsize
  have hpos : 0 < terminal.fittingSize (tailRoom binary) := by omega
  obtain ⟨words, hwords⟩ := terminal.exists_fitting_eq hpos
  intro hfinal
  have hreturn := hfinal.trapReturn
  rw [finalizedBinary_of_fillsExactly h, hwords] at hreturn
  rw [hwords, List.length_append, List.length_singleton] at hsize
  have hplace : 8188 = nopStart binary binary.length + 4 * words.length := by omega
  rw [hplace, wordAt_patch (by omega) (by simp)] at hreturn
  simp [ebreakWord, mpause] at hreturn

end Finalized

/-- **Finalising keeps the image well formed exactly when the checks that fit leave a word.** -/
theorem isFinalized_iff {binary : Bytes} (hlength : binary.length = 8192)
    (hpause : wordAt binary 8188 = mpause) (terminal : TerminalState) :
    IsFinalized binary terminal ↔ ¬ FillsExactly binary terminal :=
  ⟨fun h hfills => not_isFinalized_of_fillsExactly hlength hpause hfills h,
    isFinalized_of_room hlength hpause⟩

/-- An image with room for one check of a register `x` and a word behind other bytes. -/
def fiveWordTail : Bytes := List.replicate 8172 0xFF ++ encode [nop, nop, nop, nop, mpause]

/-- An image with room for the check only. -/
def fourWordTail : Bytes := List.replicate 8176 0xFF ++ encode [nop, nop, nop, mpause]

/-- A state that records `x1`. -/
def onlyX1 : TerminalState :=
  ⟨fun name => if name = registerName 'x' 1 then some 0 else none, fun _ => none⟩

/-- A run of words is gone through. -/
theorem nopStart_of_run {binary : Bytes} {n m : ℕ}
    (h : ∀ k < m, wordAt binary (n + 4 * k) = mpause ∨ wordAt binary (n + 4 * k) = nop) :
    nopStart binary (n + 4 * m) = nopStart binary n := by
  induction m with
  | zero => rfl
  | succ m ih =>
      rw [Nat.mul_succ, ← Nat.add_assoc, ← ih fun k hk => h k (Nat.lt_succ_of_lt hk)]
      exact if_pos (h m (Nat.lt_succ_self m))

/-- The trailing run of an image of other bytes and these words. -/
theorem nopStart_tail {n : ℕ} (hn : 4 ≤ n) {words : List Word}
    (hwords : ∀ w ∈ words, w = mpause ∨ w = nop) :
    nopStart (List.replicate n 0xFF ++ encode words) (n + 4 * words.length) = n := by
  have hrun : ∀ k < words.length,
      wordAt (List.replicate n 0xFF ++ encode words) (n + 4 * k) = mpause ∨
        wordAt (List.replicate n 0xFF ++ encode words) (n + 4 * k) = nop := by
    intro k hk
    have hword := wordAt_encode_append (List.replicate n 0xFF) [] words List.length_replicate hk
    rw [List.append_nil] at hword
    rw [hword]
    exact hwords _ (List.getElem_mem hk)
  have hbyte : ∀ k, k < n → (List.replicate n (0xFF : BitVec 8)).getD k 0 = 0xFF := by
    intro k hk
    rw [List.getD_eq_getElem?_getD, List.getElem?_replicate_of_lt hk]
    rfl
  have hword : wordAt (List.replicate n 0xFF ++ encode words) (n - 4) = 0xFFFFFFFF := by
    rw [wordAt_append_left _ _ (by rw [List.length_replicate]; omega), wordAt,
      hbyte _ (by omega), hbyte _ (by omega), hbyte _ (by omega), hbyte _ (by omega)]
    rfl
  rw [nopStart_of_run hrun]
  obtain ⟨m, rfl⟩ := Nat.exists_eq_add_of_le' hn
  rw [Nat.add_sub_cancel] at hword
  exact if_neg (by rw [hword]; decide)

/-- The check of `x1` fits, with an `mpause` behind it. -/
theorem isFinalized_iff_onlyX1 :
    IsFinalized fiveWordTail onlyX1 ∧ (emitAllChecks fiveWordTail onlyX1).emitted.length = 1 := by
  have hlength : fiveWordTail.length = 8192 := by
    rw [fiveWordTail, List.length_append, List.length_replicate, length_encode]
    rfl
  have hpause : wordAt fiveWordTail 8188 = mpause := by
    have hword := wordAt_encode_append (List.replicate 8172 0xFF) [] [nop, nop, nop, nop, mpause]
      List.length_replicate (k := 4) (by decide)
    rwa [List.append_nil] at hword
  have hroom : tailRoom fiveWordTail = 20 := by
    have hstart : nopStart fiveWordTail (8172 + 4 * 5) = 8172 :=
      nopStart_tail (by decide) (by simp)
    rw [tailRoom, hlength, hstart]
  refine ⟨(isFinalized_iff hlength hpause onlyX1).2 fun hfills => ?_, ?_⟩
  · have hsize : onlyX1.fittingSize (tailRoom fiveWordTail) = tailRoom fiveWordTail := hfills
    rw [hroom] at hsize
    exact absurd hsize (by decide)
  · rw [emitted_emitAllChecks, hroom]
    decide

/-- The one check ends in the place of the `mpause`. -/
theorem not_isFinalized_fourWordTail :
    ¬ ∀ (binary : Bytes) (terminal : TerminalState), binary.length = 8192 →
      wordAt binary 8188 = mpause → IsFinalized binary terminal := by
  intro h
  have hlength : fourWordTail.length = 8192 := by
    rw [fourWordTail, List.length_append, List.length_replicate, length_encode]
    rfl
  have hpause : wordAt fourWordTail 8188 = mpause := by
    have hword := wordAt_encode_append (List.replicate 8176 0xFF) [] [nop, nop, nop, mpause]
      List.length_replicate (k := 3) (by decide)
    rwa [List.append_nil] at hword
  have hstart : nopStart fourWordTail (8176 + 4 * 4) = 8176 :=
    nopStart_tail (by decide) (by simp)
  have hfills : FillsExactly fourWordTail onlyX1 := by
    rw [FillsExactly, hlength, hstart]
    decide
  exact not_isFinalized_of_fillsExactly hlength hpause hfills (h _ _ hlength hpause)

end CoralNpu
