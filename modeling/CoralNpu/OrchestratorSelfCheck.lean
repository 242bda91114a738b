/-
**The orchestrator: the checks of a finalised test.**

The checks behind the mutable region compare the registers of the machine with the recorded terminal
state.  This module executes them, from any state in which the machine comes to the end of the
mutable region.  A check of a register `v` reads its first element in the vector configuration that
the test has left behind: under an illegal `vtype` the read traps, and the test leaves the checks
for its trap handler; with elements narrower than a word the element, sign extended, is compared
with the word that was recorded.

Main definitions:

* `CoralNpu.TerminalState.Agrees` — the machine holds what is recorded;
* `CoralNpu.ReachesMpause`, `CoralNpu.ReachesEbreak` — where the execution of the checks comes to;
* `CoralNpu.SelfCheckCorrect` — the checks tell whether the machine agrees;
* `CoralNpu.RegisterCheck`, `CoralNpu.verdict` — the checks one by one, and what they come to;
* `CoralNpu.ReadsWhatMatters` — what the checks read of the registers `v` decides the comparison.

Main results:

* `CoralNpu.stops_of_verdict` — **the checks run to their verdict**;
* `CoralNpu.selfCheck_iff` — **when the checks tell whether the machine agrees**.
-/

import CoralNpu.OrchestratorFinalize
import CoralNpu.Rv32Code

set_option relaxedAutoImplicit false
set_option autoImplicit false

namespace CoralNpu

open AsciiText CodeImage Rv32

variable {flen vlen : ℕ}

/-! ### Agreement -/

namespace TerminalState

variable (terminal : TerminalState)

/-- The value of a register `x1` to `x29` is recorded. -/
def RecordsX (i : Reg) (golden : Word) : Prop :=
  1 ≤ i.val ∧ i.val < 30 ∧ terminal.registers (registerName 'x' i) = some golden

/-- The value of a register `f` is recorded. -/
def RecordsF (i : Reg) (golden : Word) : Prop :=
  terminal.registers (registerName 'f' i) = some golden

/-- The first four bytes of a register `v` are recorded. -/
def RecordsV (i : Reg) (golden : Word) : Prop :=
  ∃ bytes, terminal.vectorRegisters (registerName 'v' i) = some bytes ∧ 4 ≤ bytes.length ∧
    wordAt bytes 0 = golden

/-- The registers `x` are as recorded. -/
def AgreesX (c : Core flen vlen) : Prop :=
  ∀ i golden, terminal.RecordsX i golden → c.hart.get i = golden

/-- The lower 32 bits of the registers `f` are as recorded. -/
def AgreesF (c : Core flen vlen) : Prop :=
  ∀ i golden, terminal.RecordsF i golden → (c.f i).setWidth 32 = golden

/-- The first four bytes of the registers `v` are as recorded. -/
def AgreesV (c : Core flen vlen) : Prop :=
  ∀ i golden, terminal.RecordsV i golden → (c.v i).setWidth 32 = golden

/-- **The machine agrees with the terminal state.** -/
def Agrees (c : Core flen vlen) : Prop :=
  terminal.AgreesX c ∧ terminal.AgreesF c ∧ terminal.AgreesV c

end TerminalState

/-- The execution comes to the `mpause` behind the checks. -/
def ReachesMpause (ram : Word → Bool) (binary : Bytes) (terminal : TerminalState)
    (c : Core flen vlen) : Prop :=
  ∃ c', Core.Steps ram (finalizedBinary binary terminal) c c' ∧
    c'.pc = (emitAllChecks binary terminal).currentPc ∧
    wordAt (finalizedBinary binary terminal) c'.pc = mpause

/-- The execution comes to an `ebreak`. -/
def ReachesEbreak (ram : Word → Bool) (binary : Bytes) (terminal : TerminalState)
    (c : Core flen vlen) : Prop :=
  ∃ c', Core.Steps ram (finalizedBinary binary terminal) c c' ∧
    wordAt (finalizedBinary binary terminal) c'.pc = ebreakWord

/-- **The checks tell whether the machine agrees with the terminal state.** -/
structure SelfCheckCorrect (ram : Word → Bool) (binary : Bytes) (terminal : TerminalState)
    (c : Core flen vlen) : Prop where
  sound : terminal.Agrees c →
    ReachesMpause ram binary terminal c ∧ ¬ ReachesEbreak ram binary terminal c
  complete : ¬ terminal.Agrees c → ReachesEbreak ram binary terminal c

/-- The trailing run has room for all checks and the `mpause` behind them. -/
def RoomForChecks (binary : Bytes) (terminal : TerminalState) : Prop :=
  16 * terminal.checksX.length + 20 * terminal.checksFV.length + 4 ≤ tailRoom binary

instance (binary : Bytes) (terminal : TerminalState) : Decidable (RoomForChecks binary terminal) :=
  inferInstanceAs (Decidable (_ ≤ _))

/-! ### The checks one by one -/

/-- A register that is checked.  The registers `x30` and `x31` are used by the checks. -/
inductive CheckedRegister where
  | x (i : Reg) (hi : i.val < 30)
  | f (i : Reg)
  | v (i : Reg)

/-- A register and the value recorded for it. -/
structure RegisterCheck where
  register : CheckedRegister
  golden : Word

namespace RegisterCheck

/-- The words of a check. -/
def words (check : RegisterCheck) : List Word :=
  match check.register with
  | .x i _ => checkX (BitVec.ofNat 32 i) check.golden
  | .f i => checkF (BitVec.ofNat 32 i) check.golden
  | .v i => checkV (BitVec.ofNat 32 i) check.golden

/-- What the machine holds. -/
def held (check : RegisterCheck) (c : Core flen vlen) : Word :=
  match check.register with
  | .x i _ => c.hart.get i
  | .f i => (c.f i).setWidth 32
  | .v i => (c.v i).setWidth 32

/-- What the check reads; `none` when it traps. -/
def observed (check : RegisterCheck) (c : Core flen vlen) : Option Word :=
  match check.register with
  | .x i _ => some (c.hart.get i)
  | .f i => some ((c.f i).setWidth 32)
  | .v i => if c.config.vill then none else some (c.config.sew.firstElement ((c.v i).setWidth 32))

end RegisterCheck

namespace TerminalState

variable (terminal : TerminalState)

/-- The recorded registers `x1` to `x29`. -/
def recordedX : List RegisterCheck :=
  (List.range' 1 29).filterMap fun i =>
    (terminal.registers (registerName 'x' i)).bind fun golden =>
      if hi : i < 30 then some ⟨.x ⟨i, by omega⟩ hi, golden⟩ else none

/-- The recorded registers `f`. -/
def recordedF : List RegisterCheck :=
  (List.finRange 32).filterMap fun (i : Reg) =>
    (terminal.registers (registerName 'f' i)).map fun golden => ⟨.f i, golden⟩

/-- The recorded registers `v`. -/
def recordedV : List RegisterCheck :=
  (List.finRange 32).filterMap fun (i : Reg) =>
    match terminal.vectorRegisters (registerName 'v' i) with
    | some bytes => if 4 ≤ bytes.length then some ⟨.v i, wordAt bytes 0⟩ else none
    | none => none

theorem checksX_eq : terminal.checksX = terminal.recordedX.map RegisterCheck.words := by
  rw [checksX, recordedX, List.map_filterMap]
  refine List.filterMap_congr fun i hi => ?_
  have hlt : i < 30 := by
    have := List.mem_range'_1.1 hi
    omega
  cases hrecord : terminal.registers (registerName 'x' i) with
  | none => simp
  | some golden => simp [hlt, RegisterCheck.words]

theorem checksF_eq : terminal.checksF = terminal.recordedF.map RegisterCheck.words := by
  rw [checksF, recordedF, List.map_filterMap, ← List.map_coe_finRange_eq_range, List.filterMap_map]
  refine List.filterMap_congr fun i _ => ?_
  cases hrecord : terminal.registers (registerName 'f' i) with
  | none => simp [hrecord]
  | some golden => simp [hrecord, RegisterCheck.words]

theorem checksV_eq : terminal.checksV = terminal.recordedV.map RegisterCheck.words := by
  rw [checksV, recordedV, List.map_filterMap, ← List.map_coe_finRange_eq_range, List.filterMap_map]
  refine List.filterMap_congr fun i _ => ?_
  cases hrecord : terminal.vectorRegisters (registerName 'v' i) with
  | none => simp [hrecord]
  | some bytes =>
      by_cases hlength : 4 ≤ bytes.length
      · simp [hrecord, hlength, RegisterCheck.words]
      · simp [hrecord, hlength]

theorem mem_recordedX {check : RegisterCheck} :
    check ∈ terminal.recordedX ↔
      ∃ i hi, terminal.RecordsX i check.golden ∧ check.register = .x i hi := by
  rw [recordedX, List.mem_filterMap]
  constructor
  · rintro ⟨i, hi, hcheck⟩
    obtain ⟨golden, hrecord, hcheck⟩ := Option.bind_eq_some_iff.1 hcheck
    have hrange := List.mem_range'_1.1 hi
    rw [dif_pos (by omega)] at hcheck
    cases hcheck
    exact ⟨⟨i, by omega⟩, by simp; omega, ⟨hrange.1, by simp; omega, hrecord⟩, rfl⟩
  · rintro ⟨i, hi, ⟨hpos, -, hrecord⟩, hregister⟩
    refine ⟨i.val, List.mem_range'_1.2 (by omega), ?_⟩
    rw [hrecord, Option.bind_some, dif_pos hi, ← hregister]

theorem mem_recordedF {check : RegisterCheck} :
    check ∈ terminal.recordedF ↔ ∃ i, terminal.RecordsF i check.golden ∧ check.register = .f i := by
  rw [recordedF, List.mem_filterMap]
  constructor
  · rintro ⟨i, -, hcheck⟩
    obtain ⟨golden, hrecord, rfl⟩ := Option.map_eq_some_iff.1 hcheck
    exact ⟨i, hrecord, rfl⟩
  · rintro ⟨i, hrecord, hregister⟩
    refine ⟨i, List.mem_finRange i, ?_⟩
    rw [RecordsF] at hrecord
    rw [hrecord, Option.map_some, ← hregister]

theorem mem_recordedV {check : RegisterCheck} :
    check ∈ terminal.recordedV ↔ ∃ i, terminal.RecordsV i check.golden ∧ check.register = .v i := by
  rw [recordedV, List.mem_filterMap]
  constructor
  · rintro ⟨i, -, hcheck⟩
    cases hrecord : terminal.vectorRegisters (registerName 'v' i) with
    | none =>
        rw [hrecord] at hcheck
        cases hcheck
    | some bytes =>
        simp only [hrecord] at hcheck
        split at hcheck
        · rename_i hlength
          cases hcheck
          exact ⟨i, ⟨bytes, hrecord, hlength, rfl⟩, rfl⟩
        · cases hcheck
  · rintro ⟨i, ⟨bytes, hrecord, hlength, hword⟩, hregister⟩
    refine ⟨i, List.mem_finRange i, ?_⟩
    simp only [hrecord, if_pos hlength, hword, ← hregister]

end TerminalState

/-! ### The words of a check -/

theorem luiWord_eq (rd : BitVec 5) (golden : Word) :
    luiWord (rd.setWidth 32) golden = hi20 golden ++ rd ++ 0x37#7 := by
  rw [luiWord, hi20]
  generalize (golden + 0x800) >>> 12 = upper
  ext i hi
  have hopcode : (0x37#32)[i] = (if h : i < 7 then (0x37#7)[i] else false) := by
    revert i
    decide
  simp [hopcode]
  grind

theorem addiWord_eq (rd : BitVec 5) (golden : Word) :
    addiWord (rd.setWidth 32) golden = lo12 golden ++ rd ++ 0#3 ++ rd ++ 0x13#7 := by
  rw [addiWord, lo12]
  generalize golden - (golden + 0x800) >>> 12 <<< 12 = lower
  apply BitVec.eq_of_getLsbD_eq
  intro i hi
  have hopcode : (0x13#32).getLsbD i = (0x13#7).getLsbD i := by
    revert i
    decide
  have hmask : (0xFFF#32).getLsbD (i - 20) = decide (i - 20 < 12) := by
    revert i
    decide
  have hfunct3 : ((0 <<< 12 : ℕ) : BitVec 32).getLsbD i = false := by simp
  -- the bits of a field lie in its window only
  have hbits := BitVec.getLsbD_of_ge (0x13#7) i
  have hrd := BitVec.getLsbD_of_ge rd (i - 7)
  have hrs1 := BitVec.getLsbD_of_ge rd (i - 15)
  simp only [BitVec.getLsbD_or, BitVec.getLsbD_append, BitVec.getLsbD_shiftLeft, BitVec.getLsbD_and,
    BitVec.getLsbD_setWidth, BitVec.getLsbD_zero, BitVec.ofNat_eq_ofNat, hopcode, hmask, hfunct3]
  generalize (0x13#7).getLsbD i = opcode at *
  grind

theorem decode_luiWord (rd : BitVec 5) (golden : Word) :
    decode (luiWord (rd.setWidth 32) golden) =
      some (.base (.lui ⟨rd.toNat, rd.isLt⟩ (hi20 golden))) := by
  rw [luiWord_eq, decode_lui]

theorem decode_addiWord (rd : BitVec 5) (golden : Word) :
    decode (addiWord (rd.setWidth 32) golden) =
      some (.base (.opImm .addi ⟨rd.toNat, rd.isLt⟩ ⟨rd.toNat, rd.isLt⟩ (lo12 golden))) := by
  rw [addiWord_eq, decode_addi]

theorem decode_beqWord_x31 (i : Reg) :
    decode (beqWord (BitVec.ofNat 32 i) 31) = some (.beq i 31 8) := by
  revert i
  decide +kernel

theorem decode_beqWord_x30 : decode (beqWord 31 30) = some (.beq 31 30 8) := by decide +kernel

/-- `fmv.x.w x31, fi`. -/
def fmvWord (i : Word) : Word :=
  0b1110000 <<< 25 ||| 0 <<< 20 ||| i <<< 15 ||| 0 <<< 12 ||| (31 : Word) <<< 7 ||| 0x53

/-- `vmv.x.s x31, vi`. -/
def vmvWord (i : Word) : Word :=
  0b010000 <<< 26 ||| 1 <<< 25 ||| i <<< 20 ||| 0 <<< 15 ||| 2 <<< 12 ||| (31 : Word) <<< 7 ||| 0x57

theorem decode_fmvWord (i : Reg) : decode (fmvWord (BitVec.ofNat 32 i)) = some (.fmvXW 31 i) := by
  revert i
  decide +kernel

theorem decode_vmvWord (i : Reg) : decode (vmvWord (BitVec.ofNat 32 i)) = some (.vmvXS 31 i) := by
  revert i
  decide +kernel

theorem decode_ebreakWord : decode ebreakWord = none := by decide

theorem decode_mpause : decode mpause = none := by decide

/-! ### Running a check -/

section Run

variable {ram : Word → Bool} {image : Bytes} {c c' : Core flen vlen}

/-- What the checks read is the same: all registers but `x30` and `x31`. -/
structure SameObserved (c c' : Core flen vlen) : Prop where
  x : ∀ i : Reg, i.val < 30 → c'.hart.get i = c.hart.get i
  f : c'.f = c.f
  v : c'.v = c.v
  config : c'.config = c.config

theorem SameObserved.refl (c : Core flen vlen) : SameObserved c c := ⟨fun _ _ => rfl, rfl, rfl, rfl⟩

theorem SameObserved.observed (h : SameObserved c c') (check : RegisterCheck) :
    check.observed c' = check.observed c := by
  obtain ⟨register, golden⟩ := check
  cases register with
  | x i hi => exact congrArg some (h.x i hi)
  | f i => simp only [RegisterCheck.observed, h.f]
  | v i => simp only [RegisterCheck.observed, h.v, h.config]

/-- The core stands at these words. -/
def StandsAt (image : Bytes) (c : Core flen vlen) (words : List Word) : Prop :=
  wordsFrom image c.pc words.length = words

theorem StandsAt.cons {w : Word} {words : List Word} (h : StandsAt image c (w :: words)) :
    wordAt image c.pc = w ∧ wordsFrom image (c.pc + 4) words.length = words := by
  rw [StandsAt, List.length_cons, wordsFrom] at h
  exact List.cons.inj h

theorem StandsAt.append {words words' : List Word} (h : StandsAt image c (words ++ words')) :
    StandsAt image c words ∧
      wordsFrom image (c.pc + 4 * words.length) words'.length = words' := by
  rw [StandsAt, List.length_append, wordsFrom_add] at h
  exact List.append_inj h (length_wordsFrom _ _ _)

/-- The place behind a comparison: over the `ebreak`, or at it. -/
structure Compared (image : Bytes) (c c' : Core flen vlen) (size : ℕ) (equal : Prop) : Prop where
  same : SameObserved c c'
  passed : equal → c'.pc = c.pc + size
  failed : ¬ equal → wordAt image c'.pc = ebreakWord

theorem ne_of_lt {i : Reg} (hi : i.val < 30) : i ≠ 30 ∧ i ≠ 31 := by
  constructor
  · rintro rfl
    exact absurd hi (by decide)
  · rintro rfl
    exact absurd hi (by decide)

/-- The check of a register `x`: the recorded value goes to `x31`. -/
theorem steps_checkX {i : Reg} (hi : i.val < 30) {golden : Word}
    (h : StandsAt image c (checkX (BitVec.ofNat 32 i) golden)) :
    ∃ c', Core.Steps ram image c c' ∧ Compared image c c' 16 (c.hart.get i = golden) := by
  obtain ⟨hlui, h⟩ := h.cons
  obtain ⟨haddi, h⟩ := List.cons.inj h
  obtain ⟨hbeq, h⟩ := List.cons.inj h
  obtain ⟨hebreak, -⟩ := List.cons.inj h
  have hconstant : Core.Steps ram image c
      { c with pc := c.pc + 8, hart := c.hart.set 31 golden } :=
    Core.steps_constant (by decide) (by rw [hlui]; exact decode_luiWord 31 golden)
      (by rw [haddi]; exact decode_addiWord 31 golden)
  have hdecode : decode (wordAt image (c.pc + 8)) = some (.beq i 31 8) := by
    rw [← decode_beqWord_x31, ← hbeq]
  have hbranch := Core.steps_beq ram (c := { c with pc := c.pc + 8, hart := c.hart.set 31 golden })
    hdecode
  have hvalue : (c.hart.set 31 golden).get 31 = golden := by simp
  have hother : (c.hart.set 31 golden).get i = c.hart.get i :=
    Hart.get_set_of_ne _ _ (ne_of_lt hi).2
  simp only [hvalue, hother] at hbranch
  refine ⟨_, hconstant.trans hbranch, ⟨?_, rfl, rfl, rfl⟩, fun hequal => ?_, fun hne => ?_⟩
  · exact fun j hj => Hart.get_set_of_ne _ _ (ne_of_lt hj).2
  · exact if_pos hequal
  · simp only [if_neg hne]
    exact hebreak

/-- The check of a value that an instruction moves to `x31`: the recorded value goes to `x30`. -/
theorem steps_checkExtracted (extract : Word) {value golden : Word}
    (hextract : wordAt image c.pc = extract →
      c.step ram image = some (c.next (c.hart.set 31 value)))
    (h : StandsAt image c (checkExtracted extract golden)) :
    ∃ c', Core.Steps ram image c c' ∧ Compared image c c' 20 (value = golden) := by
  obtain ⟨hword, h⟩ := h.cons
  obtain ⟨hlui, h⟩ := List.cons.inj h
  obtain ⟨haddi, h⟩ := List.cons.inj h
  obtain ⟨hbeq, h⟩ := List.cons.inj h
  obtain ⟨hebreak, -⟩ := List.cons.inj h
  have hmove : Core.Steps ram image c (c.next (c.hart.set 31 value)) := .single (hextract hword)
  have hconstant : Core.Steps ram image (c.next (c.hart.set 31 value))
      { c with pc := c.pc + 12, hart := (c.hart.set 31 value).set 30 golden } :=
    Core.steps_constant (c := c.next (c.hart.set 31 value)) (by decide)
      (by rw [Core.next, hlui]; exact decode_luiWord 30 golden)
      (by rw [Core.next, haddi]; exact decode_addiWord 30 golden)
  have hdecode : decode (wordAt image (c.pc + 12)) = some (.beq 31 30 8) := by
    rw [← decode_beqWord_x30, ← hbeq]
  have hbranch := Core.steps_beq ram
    (c := { c with pc := c.pc + 12, hart := (c.hart.set 31 value).set 30 golden }) hdecode
  have hgolden : ((c.hart.set 31 value).set 30 golden).get 30 = golden := by simp
  have hvalue : ((c.hart.set 31 value).set 30 golden).get 31 = value := by simp
  simp only [hgolden, hvalue] at hbranch
  refine ⟨_, (hmove.trans hconstant).trans hbranch, ⟨?_, rfl, rfl, rfl⟩, fun hequal => ?_,
    fun hne => ?_⟩
  · intro j hj
    obtain ⟨h30, h31⟩ := ne_of_lt hj
    exact (Hart.get_set_of_ne _ _ h30).trans (Hart.get_set_of_ne _ _ h31)
  · exact if_pos hequal
  · simp only [if_neg hne]
    exact hebreak

/-- **A check that reads a value compares it.** -/
theorem steps_check (ram : Word → Bool) {check : RegisterCheck} {value : Word}
    (hvalue : check.observed c = some value) (h : StandsAt image c check.words) :
    ∃ c', Core.Steps ram image c c' ∧
      Compared image c c' (4 * check.words.length) (value = check.golden) := by
  obtain ⟨register, golden⟩ := check
  cases register with
  | x i hi =>
      cases hvalue
      exact steps_checkX hi h
  | f i =>
      cases hvalue
      refine steps_checkExtracted (fmvWord (BitVec.ofNat 32 i)) (fun hword => ?_) h
      exact Core.step_of_decode (by rw [hword, decode_fmvWord])
  | v i =>
      simp only [RegisterCheck.observed] at hvalue
      split at hvalue
      · cases hvalue
      · rename_i hvill
        cases hvalue
        refine steps_checkExtracted (vmvWord (BitVec.ofNat 32 i)) (fun hword => ?_) h
        rw [Core.step_of_decode (by rw [hword, decode_vmvWord]), Core.execute, if_neg hvill]

/-- **A check that traps** is the check of a register `v`. -/
theorem step_check_eq_none (ram : Word → Bool) {check : RegisterCheck}
    (hnone : check.observed c = none) (h : StandsAt image c check.words) :
    c.step ram image = none ∧ ∃ i, decode (wordAt image c.pc) = some (.vmvXS 31 i) := by
  obtain ⟨register, golden⟩ := check
  cases register with
  | x i hi => cases hnone
  | f i => cases hnone
  | v i =>
      have hword : decode (wordAt image c.pc) = some (.vmvXS 31 i) := by
        rw [h.cons.1]
        exact decode_vmvWord i
      simp only [RegisterCheck.observed] at hnone
      split at hnone
      · rename_i hvill
        exact ⟨by rw [Core.step_of_decode hword, Core.execute, if_pos hvill], i, hword⟩
      · cases hnone

end Run

/-! ### The verdict -/

/-- What the checks come to. -/
inductive Verdict where
  | pass | ebreak | trap
  deriving DecidableEq

/-- The verdict of some checks: the first that does not pass decides. -/
def verdict (c : Core flen vlen) : List RegisterCheck → Verdict
  | [] => .pass
  | check :: checks =>
      match check.observed c with
      | none => .trap
      | some value => if value = check.golden then verdict c checks else .ebreak

/-- The word at which a verdict is reached, behind `size` bytes of checks when they pass. -/
def Verdict.At (image : Bytes) (c c' : Core flen vlen) (size : ℕ) : Verdict → Prop
  | pass => c'.pc = c.pc + size
  | ebreak => wordAt image c'.pc = ebreakWord
  | trap => ∃ i, decode (wordAt image c'.pc) = some (.vmvXS 31 i)

section Verdict

variable {ram : Word → Bool} {image : Bytes} {c c' : Core flen vlen}

theorem verdict_congr (h : SameObserved c c') (checks : List RegisterCheck) :
    verdict c' checks = verdict c checks := by
  induction checks with
  | nil => rfl
  | cons check checks ih => rw [verdict, verdict, h.observed, ih]

theorem verdict_append (checks checks' : List RegisterCheck) :
    verdict c (checks ++ checks') =
      if verdict c checks = .pass then verdict c checks' else verdict c checks := by
  induction checks with
  | nil => rfl
  | cons check checks ih =>
      rw [List.cons_append, verdict, verdict]
      cases check.observed c with
      | none => rfl
      | some value =>
          by_cases hequal : value = check.golden
          · simp only [if_pos hequal, ih]
          · simp only [if_neg hequal]
            rfl

/-- Checks that read something do not trap. -/
theorem verdict_of_observed {seen : RegisterCheck → Word} {checks : List RegisterCheck}
    (h : ∀ check ∈ checks, check.observed c = some (seen check)) :
    (verdict c checks = .pass ↔ ∀ check ∈ checks, seen check = check.golden) ∧
      (verdict c checks = .ebreak ↔ ¬ ∀ check ∈ checks, seen check = check.golden) := by
  induction checks with
  | nil => simp [verdict]
  | cons check checks ih =>
      rw [List.forall_mem_cons] at h
      obtain ⟨hpass, hebreak⟩ := ih h.2
      rw [verdict, h.1, List.forall_mem_cons]
      by_cases hequal : seen check = check.golden
      · simp only [hequal, true_and]
        exact ⟨hpass, hebreak⟩
      · simp [hequal]

/-- Checks that read nothing trap. -/
theorem verdict_of_trap {checks : List RegisterCheck} (hne : checks ≠ [])
    (h : ∀ check ∈ checks, check.observed c = none) : verdict c checks = .trap := by
  cases checks with
  | nil => exact absurd rfl hne
  | cons check checks => rw [verdict, h check List.mem_cons_self]

/-- **The checks run to their verdict.** -/
theorem stops_of_verdict (ram : Word → Bool) {checks : List RegisterCheck} {terminator : Word}
    (hterminator : decode terminator = none)
    (h : StandsAt image c ((checks.map RegisterCheck.words).flatten ++ [terminator])) :
    ∃ c', Core.Stops ram image c c' ∧
      (verdict c checks).At image c c' (4 * (checks.map RegisterCheck.words).flatten.length) := by
  induction checks generalizing c with
  | nil =>
      have hstop : c.step ram image = none := by
        rw [Core.step, h.cons.1, hterminator, Option.bind_none]
      exact ⟨c, ⟨.refl, hstop⟩, rfl⟩
  | cons check checks ih =>
      rw [List.map_cons, List.flatten_cons, List.append_assoc] at h
      obtain ⟨hcheck, hrest⟩ := h.append
      cases hobserved : check.observed c with
      | none =>
          obtain ⟨hstop, hword⟩ := step_check_eq_none ram hobserved hcheck
          exact ⟨c, ⟨.refl, hstop⟩, by rw [verdict, hobserved]; exact hword⟩
      | some value =>
          obtain ⟨c₁, hsteps, hsame, hpassed, hfailed⟩ := steps_check ram hobserved hcheck
          by_cases hequal : value = check.golden
          · -- the next check starts behind the `ebreak`
            obtain ⟨c', hstops, hat⟩ := ih (c := c₁) (by rw [StandsAt, hpassed hequal]; exact hrest)
            refine ⟨c', hsteps.stops_iff.2 hstops, ?_⟩
            have hverdict : verdict c (check :: checks) = verdict c₁ checks := by
              rw [verdict, hobserved, verdict_congr hsame]
              exact if_pos hequal
            rw [hverdict, List.map_cons, List.flatten_cons, List.length_append]
            cases hv : verdict c₁ checks with
            | pass =>
                rw [hv] at hat
                refine hat.trans ?_
                rw [hpassed hequal, Nat.mul_add, Nat.add_assoc]
            | ebreak | trap =>
                rw [hv] at hat
                exact hat
          · have hstop : c₁.step ram image = none := by
              rw [Core.step, hfailed hequal, decode_ebreakWord, Option.bind_none]
            refine ⟨c₁, ⟨hsteps, hstop⟩, ?_⟩
            rw [verdict, hobserved]
            simp only [if_neg hequal]
            exact hfailed hequal

end Verdict

/-! ### The finalised image -/

namespace TerminalState

variable (terminal : TerminalState)

/-- All checks. -/
def recorded : List RegisterCheck :=
  terminal.recordedX ++ terminal.recordedF ++ terminal.recordedV

theorem flatten_words_recorded :
    (terminal.recorded.map RegisterCheck.words).flatten =
      (terminal.checksX ++ terminal.checksFV).flatten := by
  rw [recorded, List.map_append, List.map_append, ← checksX_eq, ← checksF_eq, ← checksV_eq,
    List.append_assoc, checksFV]

end TerminalState

section Image

variable {ram : Word → Bool} {binary : Bytes} {terminal : TerminalState} {c : Core flen vlen}

/-- With room for all checks all are written. -/
theorem fitting_of_room (h : RoomForChecks binary terminal) :
    terminal.fitting (tailRoom binary) = terminal.checksX ++ terminal.checksFV ∧
      terminal.fittingSize (tailRoom binary) =
        16 * terminal.checksX.length + 20 * terminal.checksFV.length := by
  rw [RoomForChecks] at h
  have hx : terminal.countX (tailRoom binary) = terminal.checksX.length := by
    rw [TerminalState.countX, fitCount]
    omega
  have hfv : terminal.countFV (tailRoom binary) = terminal.checksFV.length := by
    rw [TerminalState.countFV, fitCount, hx]
    omega
  rw [TerminalState.fitting, TerminalState.fittingSize, hx, hfv, List.take_length, List.take_length]
  exact ⟨rfl, rfl⟩

/-- The machine stands at the checks and the `mpause`. -/
theorem standsAt_finalizedBinary (h : RoomForChecks binary terminal)
    (hpc : c.pc = nopStart binary binary.length) :
    StandsAt (finalizedBinary binary terminal) c
      ((terminal.recorded.map RegisterCheck.words).flatten ++ [mpause]) := by
  obtain ⟨hfitting, hsize⟩ := fitting_of_room h
  have hroom : terminal.fittingSize (tailRoom binary) + 4 ≤ tailRoom binary := by
    rw [hsize]
    exact h
  have hread := wordsFrom_patch_append (nopStart_le binary binary.length)
    ((terminal.recorded.map RegisterCheck.words).flatten ++ [mpause]) []
  rw [List.append_nil] at hread
  rw [StandsAt, finalizedBinary_of_room hroom, hfitting, hpc, ← terminal.flatten_words_recorded]
  exact hread

/-- The `mpause` is written behind the checks. -/
theorem currentPc_of_room (h : RoomForChecks binary terminal) :
    (emitAllChecks binary terminal).currentPc = nopStart binary binary.length +
      4 * (terminal.recorded.map RegisterCheck.words).flatten.length := by
  have hlength := terminal.length_checkBytes_fitting (tailRoom binary)
  rw [checkBytes, length_encode, (fitting_of_room h).1, ← terminal.flatten_words_recorded]
    at hlength
  rw [currentPc_emitAllChecks, hlength]

/-- **The execution of the checks ends according to the verdict.** -/
theorem reaches_iff_verdict (ram : Word → Bool) (h : RoomForChecks binary terminal)
    (hpc : c.pc = nopStart binary binary.length) :
    (ReachesMpause ram binary terminal c ↔ verdict c terminal.recorded = .pass) ∧
      (ReachesEbreak ram binary terminal c ↔ verdict c terminal.recorded = .ebreak) := by
  obtain ⟨c', hstops, hat⟩ := stops_of_verdict ram decode_mpause
    (standsAt_finalizedBinary h hpc)
  have hstands := standsAt_finalizedBinary h hpc
  obtain ⟨-, hlast⟩ := hstands.append
  have hmpause := (List.cons.inj hlast).1
  -- a word at which the core stops is where it stops
  have hunique : ∀ c'', Core.Steps ram (finalizedBinary binary terminal) c c'' →
      decode (wordAt (finalizedBinary binary terminal) c''.pc) = none → c'' = c' := by
    intro c'' hsteps hnone
    exact (hstops.unique ⟨hsteps, by rw [Core.step, hnone, Option.bind_none]⟩).symm
  have hends : (ReachesMpause ram binary terminal c ↔
        c'.pc = (emitAllChecks binary terminal).currentPc ∧
          wordAt (finalizedBinary binary terminal) c'.pc = mpause) ∧
      (ReachesEbreak ram binary terminal c ↔
        wordAt (finalizedBinary binary terminal) c'.pc = ebreakWord) := by
    refine ⟨⟨?_, fun hword => ⟨c', hstops.1, hword⟩⟩, ⟨?_, fun hword => ⟨c', hstops.1, hword⟩⟩⟩
    · rintro ⟨c'', hsteps, hword⟩
      rwa [← hunique c'' hsteps (by rw [hword.2, decode_mpause])]
    · rintro ⟨c'', hsteps, hword⟩
      rwa [← hunique c'' hsteps (by rw [hword, decode_ebreakWord])]
  have hne : mpause ≠ ebreakWord := by decide
  rw [hends.1, hends.2, currentPc_of_room h, ← hpc]
  cases hv : verdict c terminal.recorded with
  | pass =>
      rw [hv] at hat
      have hpc' : c'.pc = c.pc + 4 * (terminal.recorded.map RegisterCheck.words).flatten.length :=
        hat
      rw [hpc', hmpause]
      simp [hne]
  | ebreak =>
      rw [hv] at hat
      have hword : wordAt (finalizedBinary binary terminal) c'.pc = ebreakWord := hat
      simp [hword, hne.symm]
  | trap =>
      rw [hv] at hat
      obtain ⟨i, hi⟩ := hat
      constructor
      · refine iff_of_false (fun hword => ?_) (by decide)
        rw [hword.2, decode_mpause] at hi
        cases hi
      · refine iff_of_false (fun hword => ?_) (by decide)
        rw [hword, decode_ebreakWord] at hi
        cases hi

end Image

/-! ### When the checks are right -/

/-- **What the checks read of the registers `v` decides the comparison**: the read does not trap;
when the registers agree, the recorded words are first elements themselves, and when they do not,
the first element of one of them differs from what is recorded. -/
structure ReadsWhatMatters (terminal : TerminalState) (c : Core flen vlen) : Prop where
  legal : c.config.vill = false
  fits : terminal.AgreesV c → ∀ i golden, terminal.RecordsV i golden →
    c.config.sew.firstElement golden = golden
  differs : ¬ terminal.AgreesV c → ∃ i golden, terminal.RecordsV i golden ∧
    c.config.sew.firstElement ((c.v i).setWidth 32) ≠ golden

section Verdict

variable {terminal : TerminalState} {c : Core flen vlen}

/-- Elements of a word or more are read well. -/
theorem readsWhatMatters_of_sew (hvill : c.config.vill = false)
    (hsew : c.config.sew = .e32 ∨ c.config.sew = .e64) : ReadsWhatMatters terminal c := by
  have hfirst : ∀ w, c.config.sew.firstElement w = w := by
    intro w
    rcases hsew with hsew | hsew <;> rw [hsew] <;> rfl
  refine ⟨hvill, fun _ _ golden _ => hfirst golden, fun hne => ?_⟩
  simp only [TerminalState.AgreesV, not_forall] at hne
  obtain ⟨i, golden, hrecord, hne⟩ := hne
  exact ⟨i, golden, hrecord, by rwa [hfirst]⟩

/-- The checks of the registers `x` and `f` read what the machine holds. -/
theorem verdict_recordedXF (terminal : TerminalState) (c : Core flen vlen) :
    (verdict c (terminal.recordedX ++ terminal.recordedF) = .pass ↔
        terminal.AgreesX c ∧ terminal.AgreesF c) ∧
      (verdict c (terminal.recordedX ++ terminal.recordedF) = .ebreak ↔
        ¬ (terminal.AgreesX c ∧ terminal.AgreesF c)) := by
  have hobserved : ∀ check ∈ terminal.recordedX ++ terminal.recordedF,
      check.observed c = some (check.held c) := by
    intro check hmem
    rcases List.mem_append.1 hmem with hmem | hmem
    · obtain ⟨i, hi, -, hregister⟩ := terminal.mem_recordedX.1 hmem
      simp only [RegisterCheck.observed, RegisterCheck.held, hregister]
    · obtain ⟨i, -, hregister⟩ := terminal.mem_recordedF.1 hmem
      simp only [RegisterCheck.observed, RegisterCheck.held, hregister]
  have hagrees : (∀ check ∈ terminal.recordedX ++ terminal.recordedF,
      check.held c = check.golden) ↔ terminal.AgreesX c ∧ terminal.AgreesF c := by
    constructor
    · refine fun h => ⟨fun i golden hrecord => ?_, fun i golden hrecord => ?_⟩
      · exact h ⟨.x i hrecord.2.1, golden⟩ (List.mem_append_left _
          (terminal.mem_recordedX.2 ⟨i, hrecord.2.1, hrecord, rfl⟩))
      · exact h ⟨.f i, golden⟩ (List.mem_append_right _
          (terminal.mem_recordedF.2 ⟨i, hrecord, rfl⟩))
    · rintro ⟨hx, hf⟩ check hmem
      rcases List.mem_append.1 hmem with hmem | hmem
      · obtain ⟨i, hi, hrecord, hregister⟩ := terminal.mem_recordedX.1 hmem
        rw [RegisterCheck.held, hregister]
        exact hx i _ hrecord
      · obtain ⟨i, hrecord, hregister⟩ := terminal.mem_recordedF.1 hmem
        rw [RegisterCheck.held, hregister]
        exact hf i _ hrecord
  rw [← hagrees]
  exact verdict_of_observed hobserved

/-- A legal `vtype`: the checks of the registers `v` compare first elements. -/
theorem verdict_recordedV (terminal : TerminalState) (hvill : c.config.vill = false) :
    (verdict c terminal.recordedV = .pass ↔ ∀ i golden, terminal.RecordsV i golden →
        c.config.sew.firstElement ((c.v i).setWidth 32) = golden) ∧
      (verdict c terminal.recordedV = .ebreak ↔ ∃ i golden, terminal.RecordsV i golden ∧
        c.config.sew.firstElement ((c.v i).setWidth 32) ≠ golden) := by
  have hobserved : ∀ check ∈ terminal.recordedV,
      check.observed c = some (c.config.sew.firstElement (check.held c)) := by
    intro check hmem
    obtain ⟨i, -, hregister⟩ := terminal.mem_recordedV.1 hmem
    simp [RegisterCheck.observed, RegisterCheck.held, hregister, hvill]
  have hseen : (∀ check ∈ terminal.recordedV,
      c.config.sew.firstElement (check.held c) = check.golden) ↔
      ∀ i golden, terminal.RecordsV i golden →
        c.config.sew.firstElement ((c.v i).setWidth 32) = golden := by
    constructor
    · intro h i golden hrecord
      exact h ⟨.v i, golden⟩ (terminal.mem_recordedV.2 ⟨i, hrecord, rfl⟩)
    · intro h check hmem
      obtain ⟨i, hrecord, hregister⟩ := terminal.mem_recordedV.1 hmem
      rw [RegisterCheck.held, hregister]
      exact h i _ hrecord
  obtain ⟨hpass, hebreak⟩ := verdict_of_observed hobserved
  refine ⟨hpass.trans hseen, hebreak.trans ?_⟩
  rw [hseen]
  simp only [not_forall, exists_prop, ne_eq]

/-- The verdict on all registers, as long as those of the registers `x` and `f` pass. -/
theorem verdict_recorded_of_agrees (h : terminal.AgreesX c ∧ terminal.AgreesF c) :
    verdict c terminal.recorded = verdict c terminal.recordedV := by
  rw [TerminalState.recorded, verdict_append, if_pos ((verdict_recordedXF terminal c).1.2 h)]

/-- A register `x` or `f` that differs decides. -/
theorem verdict_recorded_of_not_agrees (h : ¬ (terminal.AgreesX c ∧ terminal.AgreesF c)) :
    verdict c terminal.recorded = .ebreak := by
  have hebreak := (verdict_recordedXF terminal c).2.2 h
  rw [TerminalState.recorded, verdict_append, hebreak]
  rfl

/-- **When the verdict is right.** -/
theorem verdict_right_iff :
    ((terminal.Agrees c → verdict c terminal.recorded = .pass) ∧
        (¬ terminal.Agrees c → verdict c terminal.recorded = .ebreak)) ↔
      ¬ (terminal.AgreesX c ∧ terminal.AgreesF c) ∨ (∀ i golden, ¬ terminal.RecordsV i golden) ∨
        ReadsWhatMatters terminal c := by
  by_cases hxf : terminal.AgreesX c ∧ terminal.AgreesF c
  swap
  · refine iff_of_true ⟨fun h => absurd ⟨h.1, h.2.1⟩ hxf, fun _ => ?_⟩ (Or.inl hxf)
    exact verdict_recorded_of_not_agrees hxf
  have hagrees : terminal.Agrees c ↔ terminal.AgreesV c :=
    ⟨fun h => h.2.2, fun h => ⟨hxf.1, hxf.2, h⟩⟩
  rw [hagrees, verdict_recorded_of_agrees hxf]
  by_cases hnone : ∀ i golden, ¬ terminal.RecordsV i golden
  · -- nothing of the registers `v` is recorded
    have hnil : terminal.recordedV = [] := by
      refine List.eq_nil_iff_forall_not_mem.2 fun check hmem => ?_
      obtain ⟨i, hrecord, -⟩ := terminal.mem_recordedV.1 hmem
      exact hnone i _ hrecord
    refine iff_of_true ⟨fun _ => by rw [hnil]; rfl, fun h => ?_⟩ (Or.inr (Or.inl hnone))
    exact absurd (fun i golden hrecord => absurd hrecord (hnone i golden)) h
  simp only [hxf, hnone, not_true_eq_false, false_or, and_self]
  cases hvill : c.config.vill with
  | true =>
      -- the first check of a register `v` traps
      simp only [not_forall, not_not] at hnone
      obtain ⟨i, golden, hrecord⟩ := hnone
      have hmem : (⟨.v i, golden⟩ : RegisterCheck) ∈ terminal.recordedV :=
        terminal.mem_recordedV.2 ⟨i, hrecord, rfl⟩
      have hne : terminal.recordedV ≠ [] := List.ne_nil_of_mem hmem
      have htrap : verdict c terminal.recordedV = .trap := by
        refine verdict_of_trap hne fun check hmem => ?_
        obtain ⟨i, -, hregister⟩ := terminal.mem_recordedV.1 hmem
        simp [RegisterCheck.observed, hregister, hvill]
      rw [htrap]
      refine iff_of_false (fun h => ?_) (fun h => ?_)
      · by_cases hv : terminal.AgreesV c
        · cases h.1 hv
        · cases h.2 hv
      · rw [h.legal] at hvill
        cases hvill
  | false =>
      obtain ⟨hpass, hebreak⟩ := verdict_recordedV terminal hvill
      rw [hpass, hebreak]
      constructor
      · rintro ⟨hfits, hdiffers⟩
        refine ⟨hvill, fun hv i golden hrecord => ?_, hdiffers⟩
        have hword := hfits hv i golden hrecord
        rwa [hv i golden hrecord] at hword
      · rintro ⟨-, hfits, hdiffers⟩
        refine ⟨fun hv i golden hrecord => ?_, hdiffers⟩
        rw [hv i golden hrecord]
        exact hfits hv i golden hrecord

end Verdict

theorem selfCheckCorrect_iff_verdict (ram : Word → Bool) {binary : Bytes} {terminal : TerminalState}
    {c : Core flen vlen} (h : RoomForChecks binary terminal)
    (hpc : c.pc = nopStart binary binary.length) :
    SelfCheckCorrect ram binary terminal c ↔
      (terminal.Agrees c → verdict c terminal.recorded = .pass) ∧
        (¬ terminal.Agrees c → verdict c terminal.recorded = .ebreak) := by
  obtain ⟨hmpause, hebreak⟩ := reaches_iff_verdict ram h hpc
  constructor
  · rintro ⟨hsound, hcomplete⟩
    exact ⟨fun hagrees => hmpause.1 (hsound hagrees).1, fun hne => hebreak.1 (hcomplete hne)⟩
  · rintro ⟨hsound, hcomplete⟩
    refine ⟨fun hagrees => ⟨hmpause.2 (hsound hagrees), ?_⟩, fun hne => hebreak.2 (hcomplete hne)⟩
    rw [hebreak, hsound hagrees]
    exact Verdict.noConfusion

/-- **When the checks tell whether the machine agrees**: a register `x` or `f` differs, or no
register `v` is recorded, or what is read of the registers `v` decides the comparison. -/
theorem selfCheck_iff (ram : Word → Bool) {binary : Bytes} {terminal : TerminalState}
    {c : Core flen vlen} (h : RoomForChecks binary terminal)
    (hpc : c.pc = nopStart binary binary.length) :
    SelfCheckCorrect ram binary terminal c ↔
      ¬ (terminal.AgreesX c ∧ terminal.AgreesF c) ∨ (∀ i golden, ¬ terminal.RecordsV i golden) ∨
        ReadsWhatMatters terminal c :=
  (selfCheckCorrect_iff_verdict ram h hpc).trans verdict_right_iff

/-- A state that records the word 128 in `v0`. -/
def onlyV0 : TerminalState :=
  ⟨fun _ => none, fun name => if name = registerName 'v' 0 then some [0x80, 0, 0, 0] else none⟩

/-- An image with room for one check of a register `v`. -/
def sixNops : Bytes := encode (List.replicate 6 nop)

/-- A machine that holds the word 128 in the registers `v`. -/
def holds128 (sew : Sew) : Core 32 128 :=
  ⟨0, ⟨fun _ => 0, fun _ => 0⟩, fun _ => 0, fun _ => 128, ⟨false, sew, .m1, 4, 0⟩⟩

/-- The check under elements of a word. -/
theorem selfCheck_iff_onlyV0 :
    SelfCheckCorrect (fun _ => true) sixNops onlyV0 (holds128 .e32) ↔
      ¬ (onlyV0.AgreesX (holds128 .e32) ∧ onlyV0.AgreesF (holds128 .e32)) ∨
        (∀ i golden, ¬ onlyV0.RecordsV i golden) ∨ ReadsWhatMatters onlyV0 (holds128 .e32) :=
  selfCheck_iff _ (by decide +kernel) (by decide +kernel)

/-- Under elements of a byte the check of a register that agrees fails. -/
theorem not_selfCheckCorrect_onlyV0 :
    ¬ ∀ (ram : Word → Bool) (binary : Bytes) (terminal : TerminalState) (c : Core 32 128),
      RoomForChecks binary terminal → c.pc = nopStart binary binary.length →
        SelfCheckCorrect ram binary terminal c := by
  intro h
  have hroom : RoomForChecks sixNops onlyV0 := by decide +kernel
  have hpc : (holds128 .e8).pc = nopStart sixNops sixNops.length := by decide +kernel
  have hcorrect := h (fun _ => true) sixNops onlyV0 (holds128 .e8) hroom hpc
  have hagrees : onlyV0.Agrees (holds128 .e8) := by
    refine ⟨fun i golden hrecord => ?_, fun i golden hrecord => ?_, fun i golden hrecord => ?_⟩
    · cases hrecord.2.2
    · cases hrecord
    · obtain ⟨bytes, hbytes, -, rfl⟩ := hrecord
      simp only [onlyV0] at hbytes
      split at hbytes
      · cases hbytes
        exact (by decide : (128 : BitVec 128).setWidth 32 = wordAt [0x80, 0, 0, 0] 0)
      · cases hbytes
  have hverdict : verdict (holds128 .e8) onlyV0.recorded = .ebreak := by decide +kernel
  have hpass := ((selfCheckCorrect_iff_verdict _ hroom hpc).1 hcorrect).1 hagrees
  rw [hverdict] at hpass
  cases hpass

end CoralNpu
