/-
**What the execution tracker reports.**

The tracker tells where a hazard was seen, and which generator is behind it; which expected keys
were not counted; and all its counts, as a coverage file of `lcov`.

Main definitions:

* `CoralNpu.getTraceAddressForHazard`, `CoralNpu.getGeneratorForHazard` — where a hazard was seen;
* `CoralNpu.hazardous` — the instructions of a trace that a hazard is counted for;
* `CoralNpu.getCoverageGaps` — what was expected and not counted;
* `CoralNpu.getCoverageLcov` — the coverage file.

Main results:

* `CoralNpu.attribution_onTrace` — **a hazard is traced to the last instruction it was counted
  for**, and to the generator of the last one that has a generator;
* `CoralNpu.getCoverageLcov_onTrace` — **the coverage file of a trace, read back, is consistent and
  counts the hazards of the trace**.
-/

import CoralNpu.BehavioralArchive
import CoralNpu.ExecutionTracker
import CoralNpu.Lcov

set_option relaxedAutoImplicit false
set_option autoImplicit false

namespace CoralNpu

open AsciiText

/-! ### Where a hazard was seen -/

/-- `GetGeneratorForHazard`. -/
def getGeneratorForHazard (hazardName : Text) (s : ExecutionTracker) : Except Text Text :=
  match s.hazardToGenerator hazardName with
  | some generator => .ok generator
  | none => .error ("Generator not found for hazard: ".toList ++ hazardName)

/-- `GetTraceAddressForHazard`. -/
def getTraceAddressForHazard (hazardName : Text) (s : ExecutionTracker) : Except Text (BitVec 32) :=
  match s.hazardToAddress hazardName with
  | some address => .ok address
  | none => .error ("Address not found for hazard: ".toList ++ hazardName)

/-- The instructions of a trace that a hazard is counted for. -/
def hazardous (d : ℕ) (trace : List TracedInstruction) : List TracedInstruction :=
  (trace.zipIdx.filter fun p =>
    rawHazards d (trace.take p.2) < rawHazards d (trace.take (p.2 + 1))).map Prod.fst

/-- The maps behind the reports are kept. -/
structure KeepsReports (s s' : ExecutionTracker) : Prop where
  addressToGenerator : s'.addressToGenerator = s.addressToGenerator
  hazardToGenerator : s'.hazardToGenerator = s.hazardToGenerator
  hazardToAddress : s'.hazardToAddress = s.hazardToAddress

theorem KeepsReports.refl (s : ExecutionTracker) : KeepsReports s s := ⟨rfl, rfl, rfl⟩

theorem KeepsReports.trans {s s' s'' : ExecutionTracker} (h : KeepsReports s s')
    (h' : KeepsReports s' s'') : KeepsReports s s'' :=
  ⟨h'.addressToGenerator.trans h.addressToGenerator, h'.hazardToGenerator.trans h.hazardToGenerator,
    h'.hazardToAddress.trans h.hazardToAddress⟩

theorem KeepsReports.foldl {α : Type} {f : ExecutionTracker → α → ExecutionTracker}
    (h : ∀ s x, KeepsReports s (f s x)) (xs : List α) (s : ExecutionTracker) :
    KeepsReports s (xs.foldl f s) := by
  induction xs generalizing s with
  | nil => exact .refl s
  | cons x xs ih => exact (h s x).trans (ih (f s x))

theorem keepsReports_count (s : ExecutionTracker) (key : Text) : KeepsReports s (s.count key) :=
  ⟨rfl, rfl, rfl⟩

theorem keepsReports_checkCsr (name : Text) (s : ExecutionTracker) :
    KeepsReports s (checkCsr name s) := by
  rw [checkCsr]
  split
  · exact keepsReports_count s _
  split
  · exact keepsReports_count s _
  split
  · exact ⟨rfl, rfl, rfl⟩
  · exact .refl s

theorem keepsReports_verifyElement (s : ExecutionTracker) (val : BitVec 64) :
    KeepsReports s (verifyElement s val) := by
  have hcount : ∀ (s : ExecutionTracker) (p q : Prop) [Decidable p] [Decidable q], KeepsReports s
      (if p then s.count "fp_poison_pill_Signaling_NaN".toList
        else if q then s.count "fp_poison_pill_Denormal".toList else s) := by
    intro s p q _ _
    split
    · exact keepsReports_count s _
    split
    · exact keepsReports_count s _
    · exact .refl s
  have hboxed : KeepsReports s
      (if (decide (val >>> 32 = 0xFFFFFFFF)) = true then
        s.count "fp_poison_pill_NaN-boxed_scalar".toList else s) := by
    split
    · exact keepsReports_count s _
    · exact .refl s
  rw [verifyElement]
  split
  · exact hboxed.trans (hcount _ _ _)
  · exact hboxed.trans (hcount _ _ _)

theorem keepsReports_verifyFpPoisonPills (inst : TracedInstruction) (s : ExecutionTracker) :
    KeepsReports s (verifyFpPoisonPills inst s) := by
  refine KeepsReports.foldl (fun s src => ?_) inst.sources s
  cases src with
  | none => exact .refl s
  | some src =>
      rw [verifySource]
      split
      · exact KeepsReports.foldl keepsReports_verifyElement src.values s
      · exact .refl s

theorem keepsReports_logOpcode (opcode : Option Text) (s : ExecutionTracker) :
    KeepsReports s (logOpcode opcode s) := by
  cases opcode <;> exact ⟨rfl, rfl, rfl⟩

theorem keepsReports_writeDestination (inst : TracedInstruction) (s : ExecutionTracker)
    (dest : Option TracedOperand) : KeepsReports s (writeDestination inst s dest) := by
  cases dest with
  | none => exact .refl s
  | some dest =>
      have hwrite : KeepsReports s
          (if dest.hasObject then (expandVectorReg inst.vector dest.name).foldl writeRegister s
            else s) := by
        split
        · exact @KeepsReports.foldl _ writeRegister (fun _ _ => ⟨rfl, rfl, rfl⟩) _ s
        · exact .refl s
      exact hwrite.trans (keepsReports_checkCsr dest.name _)

/-! #### Reads -/

/-- What reads of registers leave in the maps. -/
structure AttributesSpec (address : BitVec 32) (regs : List Text) (s s' : ExecutionTracker) :
    Prop where
  addressToGenerator : s'.addressToGenerator = s.addressToGenerator
  hazardToAddress : ∀ d, 0 < d → d ≤ 3 → s'.hazardToAddress (hazardName d) =
    if 0 < regs.countP (writtenAgo s d) then some address else s.hazardToAddress (hazardName d)
  hazardToGenerator : ∀ d, 0 < d → d ≤ 3 → s'.hazardToGenerator (hazardName d) =
    if 0 < regs.countP (writtenAgo s d) then
      (s.addressToGenerator address).or (s.hazardToGenerator (hazardName d))
    else s.hazardToGenerator (hazardName d)

theorem KeepsReports.attributesSpec {s s' : ExecutionTracker} (h : KeepsReports s s')
    (address : BitVec 32) : AttributesSpec address [] s s' :=
  ⟨h.addressToGenerator, fun d _ _ => congrFun h.hazardToAddress (hazardName d),
    fun d _ _ => congrFun h.hazardToGenerator (hazardName d)⟩

/-- Reads after reads. -/
theorem AttributesSpec.trans {address : BitVec 32} {regs regs' : List Text}
    {s s' s'' : ExecutionTracker} (h : AttributesSpec address regs s s')
    (hreads : ReadsSpec regs s s') (h' : AttributesSpec address regs' s' s'') :
    AttributesSpec address (regs ++ regs') s s'' := by
  have hago (d : ℕ) : writtenAgo s' d = writtenAgo s d := by
    funext reg
    rw [writtenAgo, hreads.lastWrittenCycle, hreads.instructionCount, writtenAgo]
  refine ⟨h'.addressToGenerator.trans h.addressToGenerator,
    fun d hpos hle => ?_, fun d hpos hle => ?_⟩
  · rw [h'.hazardToAddress d hpos hle, h.hazardToAddress d hpos hle, hago, List.countP_append]
    by_cases hfirst : 0 < regs.countP (writtenAgo s d)
    · rw [if_pos hfirst, ite_self, if_pos (Nat.add_pos_left hfirst _)]
    · rw [if_neg hfirst, Nat.eq_zero_of_not_pos hfirst, Nat.zero_add]
  · rw [h'.hazardToGenerator d hpos hle, h.hazardToGenerator d hpos hle, hago, List.countP_append,
      h.addressToGenerator]
    by_cases hfirst : 0 < regs.countP (writtenAgo s d)
    · rw [if_pos hfirst, if_pos (Nat.add_pos_left hfirst _)]
      split
      · cases s.addressToGenerator address <;> rfl
      · rfl
    · rw [if_neg hfirst, Nat.eq_zero_of_not_pos hfirst, Nat.zero_add]

theorem attributesSpec_readRegister (address : BitVec 32) (s : ExecutionTracker) (reg : Text) :
    AttributesSpec address [reg] s (readRegister address s reg) := by
  rw [readRegister]
  cases hlast : s.lastWrittenCycle reg with
  | none =>
      have hago (d : ℕ) : ¬ 0 < [reg].countP (writtenAgo s d) := by
        rw [List.countP_singleton, writtenAgo, hlast, Option.any_none]
        decide
      exact ⟨rfl, fun d _ _ => (if_neg (hago d)).symm, fun d _ _ => (if_neg (hago d)).symm⟩
  | some lastCycle =>
      have hago (d : ℕ) : 0 < [reg].countP (writtenAgo s d) ↔
          s.instructionCount - lastCycle = d := by
        rw [List.countP_singleton, writtenAgo, hlast, Option.any_some]
        by_cases hd : s.instructionCount - lastCycle = d <;> simp [hd]
      dsimp only
      split
      · refine ⟨rfl, fun d hpos hle => ?_, fun d hpos hle => ?_⟩
        · by_cases hd : s.instructionCount - lastCycle = d
          · rw [if_pos ((hago d).2 hd), ← hd]
            exact Function.update_self _ _ _
          · rw [if_neg fun h => hd ((hago d).1 h)]
            exact Function.update_of_ne (fun h => hd (hazardName_inj.1 h).symm) _ _
        · by_cases hd : s.instructionCount - lastCycle = d
          · rw [if_pos ((hago d).2 hd), ← hd]
            cases hgenerator : s.addressToGenerator address with
            | none =>
                simp only [ExecutionTracker.count, hgenerator]
                rfl
            | some generator =>
                simp only [ExecutionTracker.count, hgenerator]
                exact Function.update_self _ _ _
          · rw [if_neg fun h => hd ((hago d).1 h)]
            cases hgenerator : s.addressToGenerator address with
            | none => simp only [ExecutionTracker.count, hgenerator]
            | some generator =>
                simp only [ExecutionTracker.count, hgenerator]
                exact Function.update_of_ne (fun h => hd (hazardName_inj.1 h).symm) _ _
      · rename_i hfar
        have hnone (d : ℕ) (hpos : 0 < d) (hle : d ≤ 3) : ¬ 0 < [reg].countP (writtenAgo s d) := by
          rw [hago]
          omega
        exact ⟨rfl, fun d hpos hle => (if_neg (hnone d hpos hle)).symm,
          fun d hpos hle => (if_neg (hnone d hpos hle)).symm⟩

theorem attributesSpec_foldl (address : BitVec 32) (regs : List Text) (s : ExecutionTracker) :
    AttributesSpec address regs s (regs.foldl (readRegister address) s) := by
  induction regs generalizing s with
  | nil => exact (KeepsReports.refl s).attributesSpec address
  | cons reg regs ih =>
      exact (attributesSpec_readRegister address s reg).trans
        (readsSpec_readRegister address s reg) (ih _)

theorem attributesSpec_readSource (inst : TracedInstruction) (s : ExecutionTracker)
    {src : Option TracedOperand} (h : OperandNamedPlainly inst.vector src) :
    AttributesSpec inst.address (registersOfOperand inst.vector src) s (readSource inst s src) := by
  cases src with
  | none => exact (KeepsReports.refl s).attributesSpec inst.address
  | some src =>
      have hread : AttributesSpec inst.address (registersOfOperand inst.vector (some src)) s
          (if src.hasObject then
            (expandVectorReg inst.vector src.name).foldl (readRegister inst.address) s else s) ∧
          ReadsSpec (registersOfOperand inst.vector (some src)) s
          (if src.hasObject then
            (expandVectorReg inst.vector src.name).foldl (readRegister inst.address) s else s) := by
        rw [registersOfOperand]
        split
        · rename_i hobject
          rw [expandVectorReg_eq (h src rfl hobject)]
          exact ⟨attributesSpec_foldl inst.address _ s, readsSpec_foldl inst.address _ s⟩
        · exact ⟨(KeepsReports.refl s).attributesSpec inst.address, (KeepsHazards.refl s).readsSpec⟩
      have hall :=
        hread.1.trans hread.2 ((keepsReports_checkCsr src.name _).attributesSpec inst.address)
      rw [List.append_nil] at hall
      exact hall

/-- The reads of an instruction. -/
theorem attributesSpec_sources (inst : TracedInstruction) (sources : List (Option TracedOperand))
    (s : ExecutionTracker) (h : ∀ src ∈ sources, OperandNamedPlainly inst.vector src) :
    AttributesSpec inst.address (registersOf inst.vector sources) s
      (sources.foldl (readSource inst) s) := by
  rw [registersOf_eq_flatMap]
  induction sources generalizing s with
  | nil => exact (KeepsReports.refl s).attributesSpec inst.address
  | cons src sources ih =>
      have hsrc := h src List.mem_cons_self
      exact (attributesSpec_readSource inst s hsrc).trans (readsSpec_readSource inst s hsrc)
        (ih _ fun src' hmem => h src' (List.mem_cons_of_mem _ hmem))

/-! #### Traces -/

/-- The tracker attributes the hazards of a trace. -/
structure Attributes (generators : BitVec 32 → Option Text) (trace : List TracedInstruction)
    (s : ExecutionTracker) : Prop where
  addressToGenerator : s.addressToGenerator = generators
  hazardToAddress : ∀ d, 0 < d → d ≤ 3 → s.hazardToAddress (hazardName d) =
    (hazardous d trace).getLast?.map TracedInstruction.address
  hazardToGenerator : ∀ d, 0 < d → d ≤ 3 → s.hazardToGenerator (hazardName d) =
    ((hazardous d trace).filterMap fun inst => generators inst.address).getLast?

theorem hazardous_append_singleton (d : ℕ) (trace : List TracedInstruction)
    (inst : TracedInstruction) :
    hazardous d (trace ++ [inst]) =
      hazardous d trace ++ if rawHazards d trace < rawHazards d (trace ++ [inst]) then [inst]
        else [] := by
  rw [hazardous, List.zipIdx_append, List.filter_append, List.map_append]
  congr 1
  · rw [hazardous]
    congr 1
    refine List.filter_congr fun p hp => ?_
    have hlt : p.2 < trace.length := by
      obtain ⟨-, hlt, -⟩ := List.mem_zipIdx hp
      omega
    rw [List.take_append_of_le_length (by omega), List.take_append_of_le_length (by omega)]
  · have hall : (trace ++ [inst]).take (trace.length + 1) = trace ++ [inst] :=
      List.take_of_length_le (by rw [List.length_append, List.length_singleton])
    have hfront : (trace ++ [inst]).take trace.length = trace := List.take_left
    rw [List.zipIdx_singleton, Nat.zero_add, List.filter_singleton]
    simp only [hfront, hall, cond_eq_ite, decide_eq_true_eq]
    split <;> rfl

theorem operandNamedPlainly {inst : TracedInstruction} (hnamed : ReadAsNamed inst) :
    ∀ operand ∈ inst.sources ++ inst.destinations, OperandNamedPlainly inst.vector operand := by
  rintro operand hmem o rfl
  refine hnamed o ?_
  rw [← List.reduceOption_append]
  exact List.reduceOption_mem_iff.2 hmem

/-- What the tracker counts for one more instruction. -/
theorem rawHazards_append_singleton {trace : List TracedInstruction} {s : ExecutionTracker}
    (h : Tracks trace s) {inst : TracedInstruction} (hnamed : ReadAsNamed inst) {d : ℕ}
    (hpos : 0 < d) (hle : d ≤ 3) :
    rawHazards d (trace ++ [inst]) =
      rawHazards d trace + inst.reads.countP (writtenAgo (logOpcode inst.opcode s) d) := by
  have hread := readsSpec_sources inst inst.sources (logOpcode inst.opcode s)
    fun src hmem => operandNamedPlainly hnamed src (List.mem_append_left _ hmem)
  have hwrite := writesSpec_destinations inst inst.destinations
    (inst.sources.foldl (readSource inst) (logOpcode inst.opcode s))
    fun dest hmem => operandNamedPlainly hnamed dest (List.mem_append_right _ hmem)
  have hverify := keepsHazards_verifyFpPoisonPills inst
    (calculateHazardDistance inst (logOpcode inst.opcode s))
  have hlog := (logOpcode_spec inst.opcode s).hazards d
  rw [← (tracks_onInstruction h hnamed).hazards d hpos hle, onInstruction, hverify.hazards,
    calculateHazardDistance, hwrite.hazards, hread.hazards d hpos hle, hlog, ← h.hazards d hpos hle]
  rfl

/-- **One instruction more.** -/
theorem attributes_onInstruction {generators : BitVec 32 → Option Text}
    {trace : List TracedInstruction} {s : ExecutionTracker} (htracks : Tracks trace s)
    (h : Attributes generators trace s) {inst : TracedInstruction} (hnamed : ReadAsNamed inst) :
    Attributes generators (trace ++ [inst]) (onInstruction s (some inst)) := by
  have hlog := keepsReports_logOpcode inst.opcode s
  have hread := attributesSpec_sources inst inst.sources (logOpcode inst.opcode s)
    fun src hmem => operandNamedPlainly hnamed src (List.mem_append_left _ hmem)
  have hwrite := KeepsReports.foldl (keepsReports_writeDestination inst) inst.destinations
    (inst.sources.foldl (readSource inst) (logOpcode inst.opcode s))
  have hrest := hwrite.trans (keepsReports_verifyFpPoisonPills inst _)
  have hcounted {d : ℕ} (hpos : 0 < d) (hle : d ≤ 3) :
      0 < (registersOf inst.vector inst.sources).countP (writtenAgo (logOpcode inst.opcode s) d) ↔
        rawHazards d trace < rawHazards d (trace ++ [inst]) := by
    rw [rawHazards_append_singleton htracks hnamed hpos hle, TracedInstruction.reads]
    omega
  refine ⟨?_, fun d hpos hle => ?_, fun d hpos hle => ?_⟩
  · exact hrest.addressToGenerator.trans
      (hread.addressToGenerator.trans (hlog.addressToGenerator.trans h.addressToGenerator))
  · rw [onInstruction]
    refine (congrFun hrest.hazardToAddress _).trans ?_
    rw [hread.hazardToAddress d hpos hle, hazardous_append_singleton, hlog.hazardToAddress,
      h.hazardToAddress d hpos hle]
    simp only [hcounted hpos hle]
    split
    · rw [List.getLast?_append]
      rfl
    · rw [List.append_nil]
  · rw [onInstruction]
    refine (congrFun hrest.hazardToGenerator _).trans ?_
    rw [hread.hazardToGenerator d hpos hle, hazardous_append_singleton, hlog.hazardToGenerator,
      hlog.addressToGenerator, h.addressToGenerator, h.hazardToGenerator d hpos hle]
    simp only [hcounted hpos hle]
    split
    · rw [List.filterMap_append, List.getLast?_append]
      cases hgenerator : generators inst.address <;> simp [hgenerator]
    · rw [List.append_nil]

/-- A whole trace. -/
theorem attributes_onTrace (generators : BitVec 32 → Option Text)
    (trace : List (Option TracedInstruction)) (h : ∀ inst ∈ trace.reduceOption, ReadAsNamed inst) :
    Attributes generators trace.reduceOption (onTrace (.new generators) trace) := by
  induction trace using List.reverseRecOn with
  | nil => exact ⟨rfl, fun _ _ _ => rfl, fun _ _ _ => rfl⟩
  | append_singleton trace inst ih =>
      rw [List.reduceOption_append] at h ⊢
      have hfront : ∀ inst ∈ trace.reduceOption, ReadAsNamed inst :=
        fun inst hmem => h inst (List.mem_append_left _ hmem)
      rw [onTrace, List.foldl_append, List.foldl_cons, List.foldl_nil, ← onTrace]
      cases inst with
      | none =>
          rw [List.reduceOption_singleton, Option.toList_none, List.append_nil]
          exact ih hfront
      | some inst =>
          rw [List.reduceOption_singleton, Option.toList_some] at h ⊢
          exact attributes_onInstruction (tracks_onTrace generators trace hfront) (ih hfront)
            (h inst (List.mem_append_right _ List.mem_cons_self))

/-- **A hazard is traced to the last instruction it was counted for**, and to the generator of the
last one that has a generator; when there is none, the error names the hazard. -/
theorem attribution_onTrace (generators : BitVec 32 → Option Text)
    (trace : List (Option TracedInstruction)) (h : ∀ inst ∈ trace.reduceOption, ReadAsNamed inst)
    {d : ℕ} (hd : d ∈ [1, 2, 3]) :
    let s := onTrace (.new generators) trace
    let counted := hazardous d trace.reduceOption
    getTraceAddressForHazard (hazardName d) s =
        (match (counted.map TracedInstruction.address).getLast? with
        | some address => .ok address
        | none => .error ("Address not found for hazard: ".toList ++ hazardName d)) ∧
      getGeneratorForHazard (hazardName d) s =
        match (counted.filterMap fun inst => generators inst.address).getLast? with
        | some generator => .ok generator
        | none => .error ("Generator not found for hazard: ".toList ++ hazardName d) := by
  intro s counted
  have hrange : 0 < d ∧ d ≤ 3 := by
    simp only [List.mem_cons, List.not_mem_nil, or_false] at hd
    omega
  have hattributes := attributes_onTrace generators trace h
  rw [getTraceAddressForHazard, getGeneratorForHazard, List.getLast?_map]
  rw [hattributes.hazardToAddress d hrange.1 hrange.2,
    hattributes.hazardToGenerator d hrange.1 hrange.2]
  exact ⟨rfl, rfl⟩

theorem readAsNamed_vectorTrace : ∀ inst ∈ vectorTrace.reduceOption, ReadAsNamed inst := by
  intro inst hinst operand hoperand _
  simp only [vectorTrace, registerOperand, List.reduceOption_cons_of_some,
    List.reduceOption_cons_of_none, List.reduceOption_nil, List.mem_cons, List.not_mem_nil,
    or_false] at hinst
  rcases hinst with rfl | rfl <;>
  · simp only [List.reduceOption_cons_of_some, List.reduceOption_nil, List.nil_append,
      List.cons_append, List.mem_cons, List.not_mem_nil, or_false] at hoperand
    rcases hoperand with rfl | rfl <;> exact Or.inl (by decide)

/-- A read of `v9` behind a write of `v8` and `v9`. -/
theorem attribution_onTrace_vectorTrace :
    getTraceAddressForHazard (hazardName 1) (onTrace (.new fun _ => none) vectorTrace) = .ok 4 := by
  have hattribution := attribution_onTrace (fun _ => none) vectorTrace readAsNamed_vectorTrace
    (show 1 ∈ [1, 2, 3] by decide)
  exact hattribution.1.trans (by decide)

/-! ### What was counted -/

/-- `GetCoverageGaps`, of the expected keys in the order they are listed. -/
def getCoverageGaps (expectedHazards : List Text) (summary : CoverageSummary) : List Text :=
  expectedHazards.filter fun expected => summary.at expected = 0

/-- `GetCoverageGapSummary`. -/
def getCoverageGapSummary (expectedHazards : List Text) (summary : CoverageSummary) : Text :=
  let gaps := getCoverageGaps expectedHazards summary
  if gaps.isEmpty then "No coverage gaps found.\n".toList
  else
    "Coverage Gaps Summary:\n".toList ++ "----------------------------------------\n".toList ++
      gaps.flatMap (· ++ ['\n']) ++ "----------------------------------------\n".toList

/-- The gaps are what was expected and is not active. -/
theorem mem_getCoverageGaps (expectedHazards : List Text) (summary : CoverageSummary)
    (name : Text) :
    name ∈ getCoverageGaps expectedHazards summary ↔
    name ∈ expectedHazards ∧ ¬ summary.IsActive name := by
  rw [getCoverageGaps, List.mem_filter, decide_eq_true_eq]
  refine and_congr_right fun _ => ⟨fun hzero hactive => ?_, fun hnot => ?_⟩
  · have := hactive.at_pos
    omega
  · by_contra hne
    cases hlookup : summary.entries.lookup name with
    | none => exact hne (by rw [CoverageSummary.at, hlookup]; rfl)
    | some count =>
        obtain ⟨front, back, hentries, -⟩ := List.lookup_eq_some_iff.1 hlookup
        have hmem : (name, count) ∈ summary.entries := by
          rw [hentries]
          exact List.mem_append_right _ List.mem_cons_self
        rw [CoverageSummary.at_of_mem hmem] at hne
        exact hnot ⟨count, hmem, Nat.pos_of_ne_zero hne⟩

/-- The loop of `GetCoverageLcov`, with the text and the number of hits so far. -/
def lcovLoop : ℕ → List (Text × ℕ) → Text × ℕ → Text × ℕ
  | _, [], lcov => lcov
  | lineNum, pair :: pairs, (lcov, hitCount) =>
      let lcov := lcov ++ ("FN:".toList ++ decimal lineNum ++ ",".toList ++ pair.1 ++ ['\n'])
      let lcov := lcov ++ ("FNDA:".toList ++ decimal pair.2 ++ ",".toList ++ pair.1 ++ ['\n'])
      let lcov :=
        lcov ++ ("DA:".toList ++ decimal lineNum ++ ",".toList ++ decimal pair.2 ++ ['\n'])
      lcovLoop (lineNum + 1) pairs (lcov, if pair.2 > 0 then hitCount + 1 else hitCount)

/-- The entries of a summary, sorted by their names. -/
def sortedEntries (summary : CoverageSummary) : List (Text × ℕ) :=
  summary.entries.insertionSort fun a b => a.1 ≤ b.1

/-- `GetCoverageLcov`. -/
def getCoverageLcov (summary : CoverageSummary) : Text :=
  let total := (sortedEntries summary).length
  let (lcov, hitCount) :=
    lcovLoop 1 (sortedEntries summary) ("TN:coralnpu_m3_coverage\nSF:coralnpu_m3.isa\n".toList, 0)
  let lcov := lcov ++ ("FNF:".toList ++ decimal total ++ ['\n'])
  let lcov := lcov ++ ("FNH:".toList ++ decimal hitCount ++ ['\n'])
  let lcov := lcov ++ ("LF:".toList ++ decimal total ++ ['\n'])
  let lcov := lcov ++ ("LH:".toList ++ decimal hitCount ++ ['\n'])
  lcov ++ "end_of_record\n".toList

/-- Two fields behind a tag are a line. -/
theorem append_fields (tag a b : Text) :
    tag ++ a ++ ",".toList ++ b ++ ['\n'] = (tag ++ Lcov.Line.fields a b) ++ ['\n'] := by
  have hcomma : ",".toList = [','] := rfl
  rw [hcomma, Lcov.Line.fields, List.append_assoc tag, List.append_assoc tag, List.append_assoc a,
    List.singleton_append]

theorem lcovLoop_eq (lineNum : ℕ) (pairs : List (Text × ℕ)) (lcov : Text) (hitCount : ℕ) :
    lcovLoop lineNum pairs (lcov, hitCount) =
      (lcov ++ Lcov.printAll (Lcov.recordLines lineNum pairs), hitCount + Lcov.hits pairs) := by
  induction pairs generalizing lineNum lcov hitCount with
  | nil =>
      rw [lcovLoop, Lcov.recordLines, Lcov.printAll, List.flatMap_nil, List.append_nil]
      rfl
  | cons pair pairs ih =>
      have hhits : Lcov.hits (pair :: pairs) = Lcov.hits pairs + if 0 < pair.2 then 1 else 0 := by
        rw [Lcov.hits, List.countP_cons, Lcov.hits]
        simp only [decide_eq_true_eq]
      have hassoc (a b c d e : Text) : a ++ b ++ c ++ d ++ e = a ++ (b ++ (c ++ (d ++ e))) := by
        rw [List.append_assoc, List.append_assoc, List.append_assoc]
      rw [lcovLoop, ih, hhits, append_fields, append_fields, append_fields, hassoc]
      refine Prod.ext rfl ?_
      dsimp only
      split <;> omega

/-- The file is a record. -/
theorem getCoverageLcov_eq (summary : CoverageSummary) :
    getCoverageLcov summary = Lcov.printAll
      (Lcov.record "coralnpu_m3_coverage".toList "coralnpu_m3.isa".toList
        (sortedEntries summary)) := by
  have hheader : "TN:coralnpu_m3_coverage\nSF:coralnpu_m3.isa\n".toList =
      ("TN:".toList ++ "coralnpu_m3_coverage".toList ++ ['\n']) ++
        (("SF:".toList ++ "coralnpu_m3.isa".toList ++ ['\n']) ++ []) := by
    simp
  have hend : "end_of_record\n".toList = "end_of_record".toList ++ ['\n'] := by
    simp
  have hassoc (a b c d e f : Text) :
      a ++ b ++ c ++ d ++ e ++ f = a ++ (b ++ (c ++ (d ++ (e ++ (f ++ []))))) := by
    rw [List.append_nil, List.append_assoc, List.append_assoc, List.append_assoc, List.append_assoc]
  rw [getCoverageLcov, lcovLoop_eq, Nat.zero_add, hheader, hend, Lcov.record, Lcov.printAll_append,
    Lcov.printAll_append]
  exact hassoc _ _ _ _ _ _

theorem pairwise_sortedEntries (summary : CoverageSummary) :
    (sortedEntries summary).Pairwise fun a b => a.1 < b.1 := by
  let order : Text × ℕ → Text × ℕ → Prop := fun a b => a.1 ≤ b.1
  have htotal : Std.Total order := ⟨fun a b => le_total a.1 b.1⟩
  have htrans : IsTrans (Text × ℕ) order := ⟨fun _ _ _ => le_trans⟩
  have hsorted : (sortedEntries summary).Pairwise order :=
    List.pairwise_insertionSort order summary.entries
  have hperm : (sortedEntries summary).Perm summary.entries :=
    List.perm_insertionSort order summary.entries
  have hnodup : (sortedEntries summary).Pairwise fun a b => a.1 ≠ b.1 :=
    List.pairwise_map.1 ((hperm.map Prod.fst).nodup_iff.2 summary.nodup)
  exact hsorted.imp₂ (fun _ _ hle hne => lt_of_le_of_ne hle hne) hnodup

/-- **The coverage file, read back**: its totals are right, and it counts, in the order of their
names, the entries of the summary. -/
theorem getCoverageLcov_read (summary : CoverageSummary)
    (hnames : ∀ entry ∈ summary.entries, '\n' ∉ entry.1) :
    ∃ file, Lcov.readAll (getCoverageLcov summary) = some file ∧ Lcov.Consistent file ∧
      (Lcov.functionCounts file).Perm summary.entries ∧
      (Lcov.functionCounts file).Pairwise fun a b => a.1 < b.1 := by
  have hperm : (sortedEntries summary).Perm summary.entries :=
    List.perm_insertionSort _ summary.entries
  have hnodup := (hperm.map Prod.fst).nodup_iff.2 summary.nodup
  refine ⟨_, ?_,
    Lcov.consistent_record "coralnpu_m3_coverage".toList "coralnpu_m3.isa".toList _ hnodup, ?_, ?_⟩
  · rw [getCoverageLcov_eq]
    exact Lcov.readAll_printAll (Lcov.onOneLine_record _ _ _ (by decide) (by decide)
      fun entry hmem => hnames entry (hperm.mem_iff.1 hmem))
  · rw [Lcov.functionCounts_record]
    exact hperm
  · rw [Lcov.functionCounts_record]
    exact pairwise_sortedEntries summary

/-- The entries of the map of a tracker, in some order. -/
def ListsCounts (s : ExecutionTracker) (summary : CoverageSummary) : Prop :=
  ∀ name count, (name, count) ∈ summary.entries ↔ s.coverageSummary name = count ∧ 0 < count

/-- **The coverage file of a trace, read back, is what the tracker counts.**  The file is
consistent, it has no function without a hit, and where registers are read as named it counts the
hazards. -/
theorem getCoverageLcov_onTrace (generators : BitVec 32 → Option Text)
    (trace : List (Option TracedInstruction)) {summary : CoverageSummary}
    (hlists : ListsCounts (onTrace (.new generators) trace) summary)
    (hnames : ∀ entry ∈ summary.entries, '\n' ∉ entry.1) :
    ∃ file, Lcov.readAll (getCoverageLcov summary) = some file ∧ Lcov.Consistent file ∧
      (Lcov.functionCounts file).Pairwise (fun a b => a.1 < b.1) ∧
      (∀ name count, (name, count) ∈ Lcov.functionCounts file ↔
        (onTrace (.new generators) trace).coverageSummary name = count ∧ 0 < count) ∧
      ((∀ inst ∈ trace.reduceOption, ReadAsNamed inst) → ∀ d ∈ [1, 2, 3], ∀ count,
        (hazardName d, count) ∈ Lcov.functionCounts file ↔
          rawHazards d trace.reduceOption = count ∧ 0 < count) := by
  obtain ⟨file, hread, hconsistent, hperm, hsorted⟩ := getCoverageLcov_read summary hnames
  have hcounts (name : Text) (count : ℕ) : (name, count) ∈ Lcov.functionCounts file ↔
      (onTrace (.new generators) trace).coverageSummary name = count ∧ 0 < count :=
    hperm.mem_iff.trans (hlists name count)
  refine ⟨file, hread, hconsistent, hsorted, hcounts, fun h d hd count => ?_⟩
  have hrange : 0 < d ∧ d ≤ 3 := by
    simp only [List.mem_cons, List.not_mem_nil, or_false] at hd
    omega
  rw [hcounts, (tracks_onTrace generators trace h).hazards d hrange.1 hrange.2]

/-- Two opcodes and a hazard. -/
def vectorSummary : CoverageSummary where
  entries := [(hazardName 1, 1), ("kVmvvv".toList, 1), ("kVmvvi".toList, 1)]
  nodup := by decide

theorem listsCounts_vectorSummary :
    ListsCounts (onTrace (.new fun _ => none) vectorTrace) vectorSummary := by
  have hcounts : (onTrace (.new fun _ => none) vectorTrace).coverageSummary =
      Function.update
        (Function.update (Function.update (fun _ => 0) "kVmvvi".toList 1) "kVmvvv".toList 1)
        (hazardName 1) 1 := by
    rfl
  intro name count
  rw [hcounts, Function.update_apply, Function.update_apply, Function.update_apply]
  simp only [vectorSummary, List.mem_cons, List.not_mem_nil, or_false, Prod.mk.injEq]
  generalize hazardName 1 = hazard, "kVmvvv".toList = opcode, "kVmvvi".toList = opcode'
  grind

/-- The coverage file of a trace of two instructions. -/
theorem getCoverageLcov_onTrace_vectorTrace :
    ∃ file, Lcov.readAll (getCoverageLcov vectorSummary) = some file ∧ Lcov.Consistent file ∧
      (hazardName 1, 1) ∈ Lcov.functionCounts file := by
  have hnames : ∀ entry ∈ vectorSummary.entries, '\n' ∉ entry.1 := by decide
  obtain ⟨file, hread, hconsistent, -, -, hhazards⟩ :=
    getCoverageLcov_onTrace (fun _ => none) vectorTrace listsCounts_vectorSummary hnames
  exact ⟨file, hread, hconsistent,
    (hhazards readAsNamed_vectorTrace 1 (by decide) 1).2 (by decide)⟩

end CoralNpu
