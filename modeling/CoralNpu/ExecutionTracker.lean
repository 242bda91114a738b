/-
**The execution tracker.**

The tracker is told of every instruction that is executed.  It counts opcodes, unusual
floating-point operands, accesses of some control registers, and read-after-write hazards: a
register that is read one, two or three instructions after it was last written.  It knows registers
by their names.  The name of a vector register stands for the group of registers that the multiplier
in force gives it, and for none when the vector length is zero; the tracker takes every name that
starts with a `v` for one of a vector register.

Main definitions:

* `CoralNpu.ExecutionTracker`, `CoralNpu.onInstruction` — the tracker and what it does with an
  instruction;
* `CoralNpu.standsFor` — the registers that a name stands for;
* `CoralNpu.ReadAsNamed` — no other name of an instruction looks like that of a vector register;
* `CoralNpu.CountsHazards` — the counts of a trace are those of its definition.

Main results:

* `CoralNpu.expandVectorReg_eq` — what the tracker makes of a name;
* `CoralNpu.tracks_onInstruction` — one instruction, and `CoralNpu.tracks_run`, a trace;
* `CoralNpu.countsHazards_of_readAsNamed` — **the hazards of a trace are counted**.
-/

import CoralNpu.AsciiText
import CoralNpu.LastWriter
import Mathlib.Data.List.Induction
import Mathlib.Data.List.GetD
import Mathlib.Data.List.ReduceOption
import Mathlib.Logic.Function.Basic

set_option relaxedAutoImplicit false
set_option autoImplicit false

namespace CoralNpu

open AsciiText LastWriter

/-! ### Instructions -/

/-- `kVectorRegNames`. -/
def kVectorRegNames : List Text :=
  ["v0".toList, "v1".toList, "v2".toList, "v3".toList, "v4".toList, "v5".toList, "v6".toList,
    "v7".toList, "v8".toList, "v9".toList, "v10".toList, "v11".toList, "v12".toList, "v13".toList,
    "v14".toList, "v15".toList, "v16".toList, "v17".toList, "v18".toList, "v19".toList,
    "v20".toList, "v21".toList, "v22".toList, "v23".toList, "v24".toList, "v25".toList,
    "v26".toList, "v27".toList, "v28".toList, "v29".toList, "v30".toList, "v31".toList]

/-- The register multipliers, in eighths; zero is that of an encoding without one. -/
def lmulsInEighths : List ℕ := [0, 1, 2, 4, 8, 16, 32, 64]

/-- What the tracker asks of the vector state. -/
structure TracedVector where
  vectorLength : ℕ
  vectorLengthMultiplier : ℕ
  mem_lmuls : vectorLengthMultiplier ∈ lmulsInEighths

/-- An operand: its name, whether there is an object (a register) behind it, and its elements. -/
structure TracedOperand where
  name : Text
  hasObject : Bool
  values : List (BitVec 64)

/-- An instruction as the tracker sees it.  The opcode is its name in `kOpcodeNames`, if it is in
the table; there need not be a vector state, and an operand may be a null pointer. -/
structure TracedInstruction where
  opcode : Option Text
  address : BitVec 32
  vector : Option TracedVector
  sources : List (Option TracedOperand)
  destinations : List (Option TracedOperand)

/-! ### The tracker -/

/-- `ExecutionTracker`, as far as it is about instructions. -/
structure ExecutionTracker where
  instructionCount : ℕ
  lastWrittenCycle : Text → Option ℕ
  coverageSummary : Text → ℕ
  addressToGenerator : BitVec 32 → Option Text
  hazardToGenerator : Text → Option Text
  hazardToAddress : Text → Option (BitVec 32)

/-- A new tracker that knows the generators of some addresses. -/
def ExecutionTracker.new (addressToGenerator : BitVec 32 → Option Text) : ExecutionTracker where
  instructionCount := 0
  lastWrittenCycle _ := none
  coverageSummary _ := 0
  addressToGenerator := addressToGenerator
  hazardToGenerator _ := none
  hazardToAddress _ := none

/-- `coverage_summary_[key]++`. -/
def ExecutionTracker.count (key : Text) (s : ExecutionTracker) : ExecutionTracker :=
  { s with coverageSummary := Function.update s.coverageSummary key (s.coverageSummary key + 1) }

/-- `LogOpcode`. -/
def logOpcode (opcode : Option Text) (s : ExecutionTracker) : ExecutionTracker :=
  let s := { s with instructionCount := s.instructionCount + 1 }
  match opcode with
  | some name => s.count ('k' :: name)
  | none => s.count "kUnknown".toList

/-- A decimal digit. -/
def isDecimalDigit (c : Char) : Bool := '0' ≤ c ∧ c ≤ '9'

/-- The number of registers of a group. -/
def groupSize (vlmulScaled : ℕ) : ℕ :=
  if vlmulScaled = 16 then 2 else if vlmulScaled = 32 then 4 else if vlmulScaled = 64 then 8 else 1

/-- `expand_vector_reg`: the registers the tracker takes a name for. -/
def expandVectorReg (vector : Option TracedVector) (regName : Text) : List Text :=
  let vl := vector.elim 32 TracedVector.vectorLength
  let vlmulScaled := vector.elim 8 TracedVector.vectorLengthMultiplier
  match regName with
  | 'v' :: digits =>
      if vl = 0 then []
      else if digits.all isDecimalDigit ∧ digits ≠ [] then
        let regNum := digits.foldl (fun regNum c => regNum * 10 + (c.toNat - '0'.toNat)) 0
        (List.range (groupSize vlmulScaled)).map fun i =>
          kVectorRegNames.getD ((regNum + i) % 32) []
      else ['v' :: digits]
  | regName => [regName]

/-- `check_csr`. -/
def checkCsr (name : Text) (s : ExecutionTracker) : ExecutionTracker :=
  if name = "fflags".toList then s.count "csr_side_effect_fflags".toList
  else if name = "vstart".toList then s.count "csr_side_effect_vstart".toList
  else if name = "mtvec".toList then
    { s with coverageSummary :=
      Function.update s.coverageSummary "Trap Handler Corrupted".toList 1 }
  else s

/-- The key of a hazard. -/
def hazardName (distance : ℕ) : Text := "RAW_HAZARD_".toList ++ decimal distance

/-- The hazard of a read of a register. -/
def readRegister (address : BitVec 32) (s : ExecutionTracker) (reg : Text) : ExecutionTracker :=
  match s.lastWrittenCycle reg with
  | none => s
  | some lastCycle =>
      let distance := s.instructionCount - lastCycle
      if distance > 0 ∧ distance ≤ 3 then
        let s := s.count (hazardName distance)
        { s with
          hazardToAddress := Function.update s.hazardToAddress (hazardName distance) (some address)
          hazardToGenerator :=
            match s.addressToGenerator address with
            | some generator =>
                Function.update s.hazardToGenerator (hazardName distance) (some generator)
            | none => s.hazardToGenerator }
      else s

/-- A write of a register. -/
def writeRegister (s : ExecutionTracker) (reg : Text) : ExecutionTracker :=
  { s with lastWrittenCycle := Function.update s.lastWrittenCycle reg (some s.instructionCount) }

/-- The body of the loop over the sources. -/
def readSource (inst : TracedInstruction) (s : ExecutionTracker) :
    Option TracedOperand → ExecutionTracker
  | none => s
  | some src =>
      let s :=
        if src.hasObject then
          (expandVectorReg inst.vector src.name).foldl (readRegister inst.address) s
        else s
      checkCsr src.name s

/-- The body of the loop over the destinations. -/
def writeDestination (inst : TracedInstruction) (s : ExecutionTracker) :
    Option TracedOperand → ExecutionTracker
  | none => s
  | some dest =>
      let s :=
        if dest.hasObject then (expandVectorReg inst.vector dest.name).foldl writeRegister s else s
      checkCsr dest.name s

/-- `CalculateHazardDistance`. -/
def calculateHazardDistance (inst : TracedInstruction) (s : ExecutionTracker) : ExecutionTracker :=
  inst.destinations.foldl (writeDestination inst) (inst.sources.foldl (readSource inst) s)

/-- The body of the loop over the elements of a floating-point operand. -/
def verifyElement (s : ExecutionTracker) (val : BitVec 64) : ExecutionTracker :=
  let isNanBoxed : Bool := val >>> 32 = 0xFFFFFFFF
  let isZeroExtended : Bool := val >>> 32 = 0
  let s := if isNanBoxed then s.count "fp_poison_pill_NaN-boxed_scalar".toList else s
  if isNanBoxed || isZeroExtended then
    let val32 := val.setWidth 32
    let exp32 := (val32 >>> 23) &&& 0xFF
    let frac32 := val32 &&& 0x7FFFFF
    if exp32 = 0xFF ∧ frac32 ≠ 0 ∧ frac32 &&& 0x400000 = 0 then
      s.count "fp_poison_pill_Signaling_NaN".toList
    else if exp32 = 0 ∧ frac32 ≠ 0 then s.count "fp_poison_pill_Denormal".toList
    else s
  else
    let exp64 := (val >>> 52) &&& 0x7FF
    let frac64 := val &&& 0xFFFFFFFFFFFFF
    if exp64 = 0x7FF ∧ frac64 ≠ 0 ∧ frac64 &&& 0x8000000000000 = 0 then
      s.count "fp_poison_pill_Signaling_NaN".toList
    else if exp64 = 0 ∧ frac64 ≠ 0 then s.count "fp_poison_pill_Denormal".toList
    else s

/-- The body of the loop of `VerifyFpPoisonPills`. -/
def verifySource (s : ExecutionTracker) : Option TracedOperand → ExecutionTracker
  | none => s
  | some src => if src.name.head? = some 'f' then src.values.foldl verifyElement s else s

/-- `VerifyFpPoisonPills`. -/
def verifyFpPoisonPills (inst : TracedInstruction) (s : ExecutionTracker) : ExecutionTracker :=
  inst.sources.foldl verifySource s

/-- `OnInstruction`. -/
def onInstruction (s : ExecutionTracker) : Option TracedInstruction → ExecutionTracker
  | none => s
  | some inst => verifyFpPoisonPills inst (calculateHazardDistance inst (logOpcode inst.opcode s))

/-- The tracker after a trace. -/
def onTrace (s : ExecutionTracker) (trace : List (Option TracedInstruction)) : ExecutionTracker :=
  trace.foldl onInstruction s

/-! ### Hazards -/

/-- The registers that a name stands for at an instruction: a vector register for its group, around
the end of the register file, or for none when the vector length is zero; every other register for
itself. -/
def standsFor (vector : Option TracedVector) (name : Text) : List Text :=
  match kVectorRegNames.idxOf? name, vector with
  | some n, some v =>
      if v.vectorLength = 0 then []
      else (List.range (max 1 (v.vectorLengthMultiplier / 8))).map fun i =>
        kVectorRegNames.getD ((n + i) % 32) []
  | _, _ => [name]

/-- The registers behind some operands. -/
def registersOf (vector : Option TracedVector) (operands : List (Option TracedOperand)) :
    List Text :=
  (operands.reduceOption.filter TracedOperand.hasObject).flatMap fun operand =>
    standsFor vector operand.name

namespace TracedInstruction

/-- The registers an instruction reads, each as often as it does. -/
def reads (inst : TracedInstruction) : List Text := registersOf inst.vector inst.sources

/-- The registers an instruction writes. -/
def writes (inst : TracedInstruction) (r : Text) : Bool :=
  r ∈ registersOf inst.vector inst.destinations

end TracedInstruction

/-- The reads of a trace whose most recent writer is the instruction `d` positions earlier. -/
def rawHazards (d : ℕ) (trace : List TracedInstruction) : ℕ :=
  countReads TracedInstruction.reads TracedInstruction.writes d trace

/-- **The hazards are counted**: after the trace, the counts are those of the definition. -/
def CountsHazards (generators : BitVec 32 → Option Text) (trace : List (Option TracedInstruction)) :
    Prop :=
  ∀ d ∈ [1, 2, 3], (onTrace (.new generators) trace).coverageSummary (hazardName d) =
    rawHazards d trace.reduceOption

/-- The name is that of a vector register, or it does not look like one: it does not start with a
`v`, or it does with other characters than digits behind it, and the vector length is not zero. -/
def NamedPlainly (vector : Option TracedVector) : Text → Prop
  | 'v' :: rest =>
      'v' :: rest ∈ kVectorRegNames ∨
        (vector.elim 32 TracedVector.vectorLength ≠ 0 ∧
          (rest.all isDecimalDigit = false ∨ rest = []))
  | _ => True

/-- Every register that the instruction names is named plainly. -/
def ReadAsNamed (inst : TracedInstruction) : Prop :=
  ∀ operand ∈ inst.sources.reduceOption ++ inst.destinations.reduceOption,
    operand.hasObject = true → NamedPlainly inst.vector operand.name

/-! ### Names -/

/-- The names of the vector registers, read as the tracker reads them. -/
theorem kVectorRegNames_spec : ∀ n < 32,
    (kVectorRegNames.getD n []).head? = some 'v' ∧
      (kVectorRegNames.getD n []).tail.all isDecimalDigit = true ∧
      (kVectorRegNames.getD n []).tail ≠ [] ∧
      (kVectorRegNames.getD n []).tail.foldl
        (fun regNum c => regNum * 10 + (c.toNat - '0'.toNat)) 0 = n ∧
      kVectorRegNames.idxOf? (kVectorRegNames.getD n []) = some n := by decide +kernel

theorem exists_of_mem_kVectorRegNames {name : Text} (h : name ∈ kVectorRegNames) :
    ∃ n < 32, kVectorRegNames.getD n [] = name := by
  obtain ⟨n, hn, rfl⟩ := List.getElem_of_mem h
  exact ⟨n, hn, List.getD_eq_getElem _ _ hn⟩

/-- The registers of a group are the whole registers of the multiplier, at least one. -/
theorem groupSize_eq {m : ℕ} (h : m ∈ lmulsInEighths) : groupSize m = max 1 (m / 8) := by
  have hall : ∀ m ∈ lmulsInEighths, groupSize m = max 1 (m / 8) := by decide
  exact hall m h

/-- A name that is not that of a vector register stands for itself. -/
theorem standsFor_of_not_mem (vector : Option TracedVector) {name : Text}
    (h : name ∉ kVectorRegNames) : standsFor vector name = [name] := by
  unfold standsFor
  rw [List.idxOf?_eq_none_iff.2 h]

/-- What the tracker makes of the name of a vector register. -/
theorem expandVectorReg_of_mem (vector : Option TracedVector) {name : Text}
    (h : name ∈ kVectorRegNames) : expandVectorReg vector name = standsFor vector name := by
  obtain ⟨n, hn, rfl⟩ := exists_of_mem_kVectorRegNames h
  obtain ⟨hhead, hdigits, hne, hnum, hidx⟩ := kVectorRegNames_spec n hn
  unfold standsFor
  rw [hidx]
  generalize hname : kVectorRegNames.getD n [] = name at *
  cases name with
  | nil => cases hhead
  | cons c digits =>
      obtain rfl : c = 'v' := Option.some.inj hhead
      rw [List.tail_cons] at hdigits hne hnum
      have hcond : digits.all isDecimalDigit = true ∧ digits ≠ [] := ⟨hdigits, hne⟩
      cases vector with
      | none =>
          simp only [expandVectorReg, if_pos hcond, hnum, Option.elim_none]
          rw [if_neg (by decide), show groupSize 8 = 1 from rfl, List.range_one, List.map_singleton,
            Nat.add_zero, Nat.mod_eq_of_lt hn, hname]
      | some v =>
          simp only [expandVectorReg, if_pos hcond, hnum, Option.elim_some,
            groupSize_eq v.mem_lmuls]

/-- **What the tracker makes of a name.** -/
theorem expandVectorReg_eq {vector : Option TracedVector} {name : Text}
    (h : NamedPlainly vector name) : expandVectorReg vector name = standsFor vector name := by
  by_cases hmem : name ∈ kVectorRegNames
  · exact expandVectorReg_of_mem vector hmem
  rw [standsFor_of_not_mem vector hmem]
  unfold expandVectorReg
  split
  · rename_i digits
    obtain ⟨hvl, hdigits⟩ := (h : _ ∨ _).resolve_left hmem
    rw [if_neg hvl, if_neg]
    rintro ⟨hall, hne⟩
    rcases hdigits with hdigits | hdigits
    · rw [hall] at hdigits
      cases hdigits
    · exact hne hdigits
  · rfl

/-! ### What is not about hazards -/

/-- Nothing about registers and hazards has changed. -/
structure KeepsHazards (s s' : ExecutionTracker) : Prop where
  instructionCount : s'.instructionCount = s.instructionCount
  lastWrittenCycle : s'.lastWrittenCycle = s.lastWrittenCycle
  hazards : ∀ d, s'.coverageSummary (hazardName d) = s.coverageSummary (hazardName d)

theorem KeepsHazards.refl (s : ExecutionTracker) : KeepsHazards s s := ⟨rfl, rfl, fun _ => rfl⟩

theorem KeepsHazards.trans {s s' s'' : ExecutionTracker} (h : KeepsHazards s s')
    (h' : KeepsHazards s' s'') : KeepsHazards s s'' :=
  ⟨h'.instructionCount.trans h.instructionCount, h'.lastWrittenCycle.trans h.lastWrittenCycle,
    fun d => (h'.hazards d).trans (h.hazards d)⟩

/-- A loop whose body keeps the hazards keeps them. -/
theorem KeepsHazards.foldl {α : Type} {f : ExecutionTracker → α → ExecutionTracker}
    (h : ∀ s x, KeepsHazards s (f s x)) (xs : List α) (s : ExecutionTracker) :
    KeepsHazards s (xs.foldl f s) := by
  induction xs generalizing s with
  | nil => exact .refl s
  | cons x xs ih => exact (h s x).trans (ih (f s x))

/-- Another key than that of a hazard. -/
theorem hazardName_ne {key : Text} (h : key.head? ≠ some 'R') (d : ℕ) : hazardName d ≠ key := by
  rintro rfl
  exact h rfl

theorem keepsHazards_count (s : ExecutionTracker) {key : Text} (h : key.head? ≠ some 'R') :
    KeepsHazards s (s.count key) :=
  ⟨rfl, rfl, fun d => Function.update_of_ne (hazardName_ne h d) _ _⟩

theorem keepsHazards_checkCsr (name : Text) (s : ExecutionTracker) :
    KeepsHazards s (checkCsr name s) := by
  rw [checkCsr]
  split
  · exact keepsHazards_count s (by decide)
  split
  · exact keepsHazards_count s (by decide)
  split
  · have hkey := @hazardName_ne "Trap Handler Corrupted".toList (by decide)
    exact ⟨rfl, rfl, fun d => Function.update_of_ne (hkey d) 1 _⟩
  · exact .refl s

theorem keepsHazards_verifyElement (s : ExecutionTracker) (val : BitVec 64) :
    KeepsHazards s (verifyElement s val) := by
  have hcount : ∀ (s : ExecutionTracker) (p q : Prop) [Decidable p] [Decidable q], KeepsHazards s
      (if p then s.count "fp_poison_pill_Signaling_NaN".toList
        else if q then s.count "fp_poison_pill_Denormal".toList else s) := by
    intro s p q _ _
    split
    · exact keepsHazards_count s (by decide)
    split
    · exact keepsHazards_count s (by decide)
    · exact .refl s
  have hboxed : KeepsHazards s
      (if (decide (val >>> 32 = 0xFFFFFFFF)) = true then
        s.count "fp_poison_pill_NaN-boxed_scalar".toList else s) := by
    split
    · exact keepsHazards_count s (by decide)
    · exact .refl s
  rw [verifyElement]
  split
  · exact hboxed.trans (hcount _ _ _)
  · exact hboxed.trans (hcount _ _ _)

theorem keepsHazards_verifyFpPoisonPills (inst : TracedInstruction) (s : ExecutionTracker) :
    KeepsHazards s (verifyFpPoisonPills inst s) := by
  refine KeepsHazards.foldl (fun s src => ?_) inst.sources s
  cases src with
  | none => exact .refl s
  | some src =>
      rw [verifySource]
      split
      · exact KeepsHazards.foldl keepsHazards_verifyElement src.values s
      · exact .refl s

/-- An instruction is counted; its opcode is no hazard. -/
theorem logOpcode_spec (opcode : Option Text) (s : ExecutionTracker) :
    KeepsHazards { s with instructionCount := s.instructionCount + 1 } (logOpcode opcode s) := by
  cases opcode with
  | none => exact @keepsHazards_count _ "kUnknown".toList (by decide)
  | some name => exact @keepsHazards_count _ ('k' :: name) (by rw [List.head?_cons]; decide)

/-! ### Reads -/

/-- Distances have different keys. -/
theorem hazardName_inj {d d' : ℕ} : hazardName d = hazardName d' ↔ d = d' := by
  constructor
  · intro h
    have hdecimal : decimal d = decimal d' := List.append_cancel_left h
    have hnat := parseNat_decimal d
    rw [hdecimal, parseNat_decimal] at hnat
    exact (Option.some.inj hnat).symm
  · rintro rfl
    rfl

/-- The register was last written `d` instructions ago. -/
def writtenAgo (s : ExecutionTracker) (d : ℕ) (reg : Text) : Bool :=
  (s.lastWrittenCycle reg).any fun last => s.instructionCount - last = d

/-- A read of a register. -/
structure ReadsSpec (regs : List Text) (s s' : ExecutionTracker) : Prop where
  instructionCount : s'.instructionCount = s.instructionCount
  lastWrittenCycle : s'.lastWrittenCycle = s.lastWrittenCycle
  hazards : ∀ d, 0 < d → d ≤ 3 → s'.coverageSummary (hazardName d) =
    s.coverageSummary (hazardName d) + regs.countP (writtenAgo s d)

/-- What changes no hazard reads no register. -/
theorem KeepsHazards.readsSpec {s s' : ExecutionTracker} (h : KeepsHazards s s') :
    ReadsSpec [] s s' :=
  ⟨h.instructionCount, h.lastWrittenCycle, fun d _ _ => h.hazards d⟩

/-- Reads after reads. -/
theorem ReadsSpec.trans {regs regs' : List Text} {s s' s'' : ExecutionTracker}
    (h : ReadsSpec regs s s') (h' : ReadsSpec regs' s' s'') : ReadsSpec (regs ++ regs') s s'' := by
  refine ⟨h'.instructionCount.trans h.instructionCount,
    h'.lastWrittenCycle.trans h.lastWrittenCycle, fun d hpos hle => ?_⟩
  have hago : writtenAgo s' d = writtenAgo s d := by
    funext reg
    rw [writtenAgo, h.lastWrittenCycle, h.instructionCount, writtenAgo]
  rw [h'.hazards d hpos hle, h.hazards d hpos hle, hago, List.countP_append, Nat.add_assoc]

theorem readsSpec_readRegister (address : BitVec 32) (s : ExecutionTracker) (reg : Text) :
    ReadsSpec [reg] s (readRegister address s reg) := by
  rw [readRegister]
  cases hlast : s.lastWrittenCycle reg with
  | none =>
      refine ⟨rfl, rfl, fun d _ _ => ?_⟩
      rw [List.countP_singleton, writtenAgo, hlast, Option.any_none]
      rfl
  | some lastCycle =>
      have hago : ∀ d, writtenAgo s d reg = decide (s.instructionCount - lastCycle = d) := by
        intro d
        rw [writtenAgo, hlast, Option.any_some]
      dsimp only
      split
      · refine ⟨rfl, rfl, fun d hpos hle => ?_⟩
        rw [List.countP_singleton, hago]
        show Function.update _ _ _ _ = _
        by_cases hd : s.instructionCount - lastCycle = d
        · rw [hd, Function.update_self, decide_eq_true rfl, if_pos rfl]
        · rw [Function.update_of_ne fun h => hd (hazardName_inj.1 h).symm, decide_eq_false hd]
          rfl
      · rename_i hfar
        refine ⟨rfl, rfl, fun d hpos hle => ?_⟩
        rw [List.countP_singleton, hago, decide_eq_false (by omega)]
        rfl

/-- The reads of some registers, one after the other. -/
theorem readsSpec_foldl (address : BitVec 32) (regs : List Text) (s : ExecutionTracker) :
    ReadsSpec regs s (regs.foldl (readRegister address) s) := by
  induction regs generalizing s with
  | nil => exact (KeepsHazards.refl s).readsSpec
  | cons reg regs ih => exact (readsSpec_readRegister address s reg).trans (ih _)

/-- The registers behind one operand. -/
def registersOfOperand (vector : Option TracedVector) : Option TracedOperand → List Text
  | none => []
  | some operand => if operand.hasObject then standsFor vector operand.name else []

theorem registersOf_eq_flatMap (vector : Option TracedVector)
    (operands : List (Option TracedOperand)) :
    registersOf vector operands = operands.flatMap (registersOfOperand vector) := by
  induction operands with
  | nil => rfl
  | cons operand operands ih =>
      rw [List.flatMap_cons, ← ih, registersOf, registersOf]
      cases operand with
      | none => rw [List.reduceOption_cons_of_none, registersOfOperand, List.nil_append]
      | some operand =>
          rw [List.reduceOption_cons_of_some, registersOfOperand, List.filter_cons]
          split
          · rw [List.flatMap_cons]
          · rw [List.nil_append]

/-- An operand is named plainly, if it is a register. -/
def OperandNamedPlainly (vector : Option TracedVector) (operand : Option TracedOperand) : Prop :=
  ∀ o ∈ operand, o.hasObject = true → NamedPlainly vector o.name

theorem readsSpec_readSource (inst : TracedInstruction) (s : ExecutionTracker)
    {src : Option TracedOperand} (h : OperandNamedPlainly inst.vector src) :
    ReadsSpec (registersOfOperand inst.vector src) s (readSource inst s src) := by
  cases src with
  | none => exact (KeepsHazards.refl s).readsSpec
  | some src =>
      have hread : ReadsSpec (registersOfOperand inst.vector (some src)) s
          (if src.hasObject then
            (expandVectorReg inst.vector src.name).foldl (readRegister inst.address) s else s) := by
        rw [registersOfOperand]
        split
        · rename_i hobject
          rw [expandVectorReg_eq (h src rfl hobject)]
          exact readsSpec_foldl inst.address _ s
        · exact (KeepsHazards.refl s).readsSpec
      have hall := hread.trans (keepsHazards_checkCsr src.name _).readsSpec
      rw [List.append_nil] at hall
      exact hall

/-- **The reads of an instruction.** -/
theorem readsSpec_sources (inst : TracedInstruction) (sources : List (Option TracedOperand))
    (s : ExecutionTracker) (h : ∀ src ∈ sources, OperandNamedPlainly inst.vector src) :
    ReadsSpec (registersOf inst.vector sources) s (sources.foldl (readSource inst) s) := by
  rw [registersOf_eq_flatMap]
  induction sources generalizing s with
  | nil => exact (KeepsHazards.refl s).readsSpec
  | cons src sources ih =>
      have hsrc := readsSpec_readSource inst s (h src List.mem_cons_self)
      exact hsrc.trans (ih _ fun src' hmem => h src' (.tail _ hmem))

/-! ### Writes -/

/-- Writes of some registers. -/
structure WritesSpec (regs : List Text) (s s' : ExecutionTracker) : Prop where
  instructionCount : s'.instructionCount = s.instructionCount
  lastWrittenCycle : ∀ r, s'.lastWrittenCycle r =
    if r ∈ regs then some s.instructionCount else s.lastWrittenCycle r
  hazards : ∀ d, s'.coverageSummary (hazardName d) = s.coverageSummary (hazardName d)

/-- What changes no hazard writes no register. -/
theorem KeepsHazards.writesSpec {s s' : ExecutionTracker} (h : KeepsHazards s s') :
    WritesSpec [] s s' := by
  refine ⟨h.instructionCount, fun r => ?_, h.hazards⟩
  rw [if_neg List.not_mem_nil, h.lastWrittenCycle]

/-- Writes after writes. -/
theorem WritesSpec.trans {regs regs' : List Text} {s s' s'' : ExecutionTracker}
    (h : WritesSpec regs s s') (h' : WritesSpec regs' s' s'') :
    WritesSpec (regs ++ regs') s s'' := by
  refine ⟨h'.instructionCount.trans h.instructionCount, fun r => ?_,
    fun d => (h'.hazards d).trans (h.hazards d)⟩
  rw [h'.lastWrittenCycle, h.lastWrittenCycle, h.instructionCount]
  simp only [List.mem_append]
  by_cases hr : r ∈ regs
  · rw [if_pos hr, if_pos (Or.inl hr), ite_self]
  · simp only [hr, false_or, if_false]

theorem writesSpec_writeRegister (s : ExecutionTracker) (reg : Text) :
    WritesSpec [reg] s (writeRegister s reg) := by
  refine ⟨rfl, fun r => ?_, fun _ => rfl⟩
  simp only [writeRegister, Function.update_apply, List.mem_singleton]

theorem writesSpec_foldl (regs : List Text) (s : ExecutionTracker) :
    WritesSpec regs s (regs.foldl writeRegister s) := by
  induction regs generalizing s with
  | nil => exact (KeepsHazards.refl s).writesSpec
  | cons reg regs ih => exact (writesSpec_writeRegister s reg).trans (ih _)

theorem writesSpec_writeDestination (inst : TracedInstruction) (s : ExecutionTracker)
    {dest : Option TracedOperand} (h : OperandNamedPlainly inst.vector dest) :
    WritesSpec (registersOfOperand inst.vector dest) s (writeDestination inst s dest) := by
  cases dest with
  | none => exact (KeepsHazards.refl s).writesSpec
  | some dest =>
      have hwrite : WritesSpec (registersOfOperand inst.vector (some dest)) s
          (if dest.hasObject then
            (expandVectorReg inst.vector dest.name).foldl writeRegister s else s) := by
        rw [registersOfOperand]
        split
        · rename_i hobject
          rw [expandVectorReg_eq (h dest rfl hobject)]
          exact writesSpec_foldl _ s
        · exact (KeepsHazards.refl s).writesSpec
      have hall := hwrite.trans (keepsHazards_checkCsr dest.name _).writesSpec
      rw [List.append_nil] at hall
      exact hall

/-- **The writes of an instruction.** -/
theorem writesSpec_destinations (inst : TracedInstruction)
    (destinations : List (Option TracedOperand)) (s : ExecutionTracker)
    (h : ∀ dest ∈ destinations, OperandNamedPlainly inst.vector dest) :
    WritesSpec (registersOf inst.vector destinations) s
      (destinations.foldl (writeDestination inst) s) := by
  rw [registersOf_eq_flatMap]
  induction destinations generalizing s with
  | nil => exact (KeepsHazards.refl s).writesSpec
  | cons dest destinations ih =>
      have hdest := writesSpec_writeDestination inst s (h dest List.mem_cons_self)
      exact hdest.trans (ih _ fun dest' hmem => h dest' (.tail _ hmem))

/-! ### Traces -/

/-- The tracker has followed a trace. -/
structure Tracks (trace : List TracedInstruction) (s : ExecutionTracker) : Prop where
  instructionCount : s.instructionCount = trace.length
  lastWrittenCycle : ∀ r c, s.lastWrittenCycle r = some c ↔
    ∃ j, c = j + 1 ∧ IsLastWriter TracedInstruction.writes trace r j
  hazards : ∀ d, 0 < d → d ≤ 3 → s.coverageSummary (hazardName d) = rawHazards d trace

theorem tracks_new (generators : BitVec 32 → Option Text) : Tracks [] (.new generators) := by
  refine ⟨rfl, fun r c => ?_, fun d _ _ => rfl⟩
  constructor
  · intro h
    cases h
  · rintro ⟨j, -, hlast⟩
    exact absurd hlast (not_isLastWriter_nil r j)

/-- **One instruction more.** -/
theorem tracks_onInstruction {trace : List TracedInstruction} {s : ExecutionTracker}
    (h : Tracks trace s) {inst : TracedInstruction} (hnamed : ReadAsNamed inst) :
    Tracks (trace ++ [inst]) (onInstruction s (some inst)) := by
  have hoperand : ∀ operand ∈ inst.sources ++ inst.destinations,
      OperandNamedPlainly inst.vector operand := by
    rintro operand hmem o rfl
    refine hnamed o ?_
    rw [← List.reduceOption_append]
    exact List.reduceOption_mem_iff.2 hmem
  have hlog := logOpcode_spec inst.opcode s
  have hread := readsSpec_sources inst inst.sources (logOpcode inst.opcode s)
    fun src hmem => hoperand src (List.mem_append_left _ hmem)
  have hwrite := writesSpec_destinations inst inst.destinations
    (inst.sources.foldl (readSource inst) (logOpcode inst.opcode s))
    fun dest hmem => hoperand dest (List.mem_append_right _ hmem)
  have hverify := keepsHazards_verifyFpPoisonPills inst
    (calculateHazardDistance inst (logOpcode inst.opcode s))
  have hcount : (logOpcode inst.opcode s).instructionCount = trace.length + 1 := by
    rw [hlog.instructionCount, h.instructionCount]
  refine ⟨?_, fun r c => ?_, fun d hpos hle => ?_⟩
  · rw [onInstruction, hverify.instructionCount, calculateHazardDistance, hwrite.instructionCount,
      hread.instructionCount, hcount, List.length_append, List.length_singleton]
  · rw [onInstruction, hverify.lastWrittenCycle, calculateHazardDistance, hwrite.lastWrittenCycle,
      hread.lastWrittenCycle, hread.instructionCount, hcount, hlog.lastWrittenCycle]
    simp only [isLastWriter_append_singleton, TracedInstruction.writes, decide_eq_true_iff]
    split
    · constructor
      · intro hc
        exact ⟨trace.length, (Option.some.inj hc).symm, rfl⟩
      · rintro ⟨j, rfl, rfl⟩
        rfl
    · exact h.lastWrittenCycle r c
  · -- the reads come before the writes of the same instruction
    have hago : ∀ r, writtenAgo (logOpcode inst.opcode s) d r =
        decide (d ≤ trace.length ∧
          IsLastWriter TracedInstruction.writes trace r (trace.length - d)) := by
      intro r
      rw [writtenAgo, hcount, hlog.lastWrittenCycle, Bool.eq_iff_iff, decide_eq_true_iff,
        Option.any_eq_true]
      constructor
      · rintro ⟨c, hc, hd⟩
        obtain ⟨j, rfl, hlast⟩ := (h.lastWrittenCycle r c).1 hc
        have hlt := lt_of_writesAt hlast.1
        have hdist : trace.length + 1 - (j + 1) = d := of_decide_eq_true hd
        refine ⟨by omega, ?_⟩
        rw [show trace.length - d = j by omega]
        exact hlast
      · rintro ⟨hle, hlast⟩
        refine ⟨_, (h.lastWrittenCycle r _).2 ⟨_, rfl, hlast⟩, ?_⟩
        exact decide_eq_true (by omega)
    rw [onInstruction, hverify.hazards, calculateHazardDistance, hwrite.hazards,
      hread.hazards d hpos hle, hlog.hazards, rawHazards, countReads_append_singleton]
    show s.coverageSummary (hazardName d) + _ = _
    rw [h.hazards d hpos hle, rawHazards]
    congr 2
    funext r
    exact hago r

/-- **A whole trace.** -/
theorem tracks_onTrace (generators : BitVec 32 → Option Text)
    (trace : List (Option TracedInstruction))
    (h : ∀ inst ∈ trace.reduceOption, ReadAsNamed inst) :
    Tracks trace.reduceOption (onTrace (.new generators) trace) := by
  induction trace using List.reverseRecOn with
  | nil => exact tracks_new generators
  | append_singleton trace inst ih =>
      rw [List.reduceOption_append] at h ⊢
      have htrace := ih fun inst hmem => h inst (List.mem_append_left _ hmem)
      rw [onTrace, List.foldl_append, List.foldl_cons, List.foldl_nil, ← onTrace]
      cases inst with
      | none =>
          rw [List.reduceOption_singleton, Option.toList_none, List.append_nil]
          exact htrace
      | some inst =>
          rw [List.reduceOption_singleton, Option.toList_some] at h ⊢
          exact tracks_onInstruction htrace (h inst (List.mem_append_right _ List.mem_cons_self))

/-- **The hazards of a trace are counted** when no other register is named like a vector
register. -/
theorem countsHazards_of_readAsNamed (generators : BitVec 32 → Option Text)
    (trace : List (Option TracedInstruction))
    (h : ∀ inst ∈ trace.reduceOption, ReadAsNamed inst) : CountsHazards generators trace := by
  intro d hd
  have hrange : 0 < d ∧ d ≤ 3 := by
    simp only [List.mem_cons, List.not_mem_nil, or_false] at hd
    omega
  exact (tracks_onTrace generators trace h).hazards d hrange.1 hrange.2

/-- A register operand without elements. -/
def registerOperand (name : String) : Option TracedOperand := some ⟨name.toList, true, []⟩

/-- A vector instruction that writes `v8` under a multiplier of two, and one that reads `v9`. -/
def vectorTrace : List (Option TracedInstruction) :=
  [some ⟨some "Vmvvi".toList, 0, some ⟨8, 16, by decide⟩, [], [registerOperand "v8"]⟩, none,
    some ⟨some "Vmvvv".toList, 4, some ⟨4, 8, by decide⟩, [registerOperand "v9"],
      [registerOperand "v1"]⟩]

theorem countsHazards_vectorTrace : CountsHazards (fun _ => none) vectorTrace := by
  apply countsHazards_of_readAsNamed
  intro inst hinst operand hoperand _
  simp only [vectorTrace, registerOperand, List.reduceOption_cons_of_some,
    List.reduceOption_cons_of_none, List.reduceOption_nil, List.mem_cons, List.not_mem_nil,
    or_false] at hinst
  rcases hinst with rfl | rfl <;>
  · simp only [List.reduceOption_cons_of_some, List.reduceOption_nil, List.nil_append,
      List.cons_append, List.mem_cons, List.not_mem_nil, or_false] at hoperand
    rcases hoperand with rfl | rfl <;> exact Or.inl (by decide)

/-- A write of the control register `vstart` and a read of it, while the vector length is zero. -/
def vstartTrace : List (Option TracedInstruction) :=
  [some ⟨some "Csrrw".toList, 0, some ⟨0, 8, by decide⟩, [], [registerOperand "vstart"]⟩,
    some ⟨some "Csrrs".toList, 4, some ⟨0, 8, by decide⟩, [registerOperand "vstart"],
      [registerOperand "x5"]⟩]

/-- The hazard of `vstart` is not counted. -/
theorem not_countsHazards_vstart :
    ¬ ∀ (generators : BitVec 32 → Option Text) (trace : List (Option TracedInstruction)),
      CountsHazards generators trace := by
  intro h
  have hone := h (fun _ => none) vstartTrace 1 (by decide)
  revert hone
  decide +kernel

end CoralNpu
