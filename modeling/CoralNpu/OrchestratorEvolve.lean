/-
**The evolution loop of the orchestrator.**

An iteration generates a sequence or mutates one of the archive, simulates it, and offers it to the
archive, which finalises what it keeps.  The global coverage is brought up to date only when the
archive keeps a sequence.

The simulator may answer anything.  The archive is a hash table, and in which order its bins are
listed is free in every iteration.  The generator, the compiler and the disassembler are parameters.

Main definitions:

* `CoralNpu.CompiledSequence.IsGenerated` — what is known of a generated sequence;
* `CoralNpu.Orchestrator`, `CoralNpu.performPhase1Search`, `CoralNpu.runIteration` — the loop;
* `CoralNpu.EvolveStep` — an iteration as a step;
* `CoralNpu.IsArchived` — what is known of a sequence in the archive.

Main results:

* `CoralNpu.archive_of_evolution` — the archive of a run is the one its offers make;
* `CoralNpu.isArchived_of_evolution` — **no iteration fails, and every sequence kept has the
  protected preamble of a generated one**;
* `CoralNpu.globalCoverage_of_evolution` — **the global coverage is that of all results**, also of
  those whose sequence was not kept.
-/

import CoralNpu.BehavioralArchive
import CoralNpu.OrchestratorFinalize
import CoralNpu.Traces
import Mathlib.Data.List.GetD

set_option relaxedAutoImplicit false
set_option autoImplicit false

namespace CoralNpu

open AsciiText CodeImage Traces

/-! ### Sequences and results -/

/-- A generated sequence: an image of 8192 bytes, and in front of the mutable words a word that is
neither a nop nor an `mpause`. -/
structure CompiledSequence.IsGenerated (s : CompiledSequence) : Prop where
  length_eq : s.itcmBinary.length = 8192
  isMutable : s.IsMutable
  end_le : s.mutableEnd.toNat ≤ 8188
  start_ge : 4 ≤ s.mutableStart.toNat
  protectedWord : ¬ (wordAt s.itcmBinary (s.mutableStart.toNat - 4) = mpause ∨
    wordAt s.itcmBinary (s.mutableStart.toNat - 4) = nop)

/-- `TestSequence`, with what a simulation leaves in it. -/
structure SimulatedSequence extends CompiledSequence where
  terminalState : Option TerminalState
  memoryDump : BitVec 64 → Option Bytes

/-- A sequence that was not simulated. -/
def CompiledSequence.fresh (s : CompiledSequence) : SimulatedSequence := ⟨s, none, fun _ => none⟩

/-- A new `TestSequence`. -/
def emptySequence : SimulatedSequence :=
  CompiledSequence.fresh ⟨⟨[], 0, none, [], 0, []⟩, [], 0, 0⟩

/-- `RandomSimulatorResult`, with the cycles of its terminal state. -/
structure RandomSimulatorResult where
  success : Bool
  coverageSummary : CoverageSummary
  cycles : ℕ
  terminalState : TerminalState
  memoryDump : BitVec 64 → Option Bytes

/-- The other parts of the fuzzer. -/
structure EvolutionParts where
  prng : Prng
  generateRandomSequence : ℕ → BitVec 64 → CompiledSequence
  compileInMemory : CompiledSequence → Option CompiledSequence
  disassembleSequence : CompiledSequence → CompiledSequence → Option Text
  isGenerated : ∀ n seed, (generateRandomSequence n seed).IsGenerated

/-! ### Phase 1 -/

/-- `SearchResult`.  The parent is there when the sequence was mutated. -/
structure SearchResult where
  seq : SimulatedSequence
  parent : Option SimulatedSequence

section Search

variable (parts : EvolutionParts)

/-- The bins of the archive in the order they are listed. -/
abbrev Grid := List (BehavioralDescriptor × SimulatedSequence)

/-- `GetRandomParent`. -/
def getRandomParent (grid : Grid) (rng : parts.prng.State) : SimulatedSequence × parts.prng.State :=
  match grid with
  | [] => (emptySequence, rng)
  | bin :: bins =>
      let (draw, rng) := parts.prng.next rng
      (((bin :: bins).getD (draw.toNat % (bins.length + 1)) bin).2, rng)

/-- A new random sequence. -/
def searchRandom (rng : parts.prng.State) : SearchResult × parts.prng.State :=
  let (nextSeed, rng) := parts.prng.next rng
  (⟨(parts.generateRandomSequence 100 nextSeed).fresh, none⟩, rng)

/-- A mutation of a parent. -/
def searchMutated (parent : SimulatedSequence) (rng : parts.prng.State) :
    Option (SearchResult × parts.prng.State) := do
  let (child, rng) ← mutateSequence parts.prng
      (parts.generateRandomSequence 10) parts.compileInMemory
    parent.toCompiledSequence rng
  return (⟨{ parent with toCompiledSequence := child }, some parent⟩, rng)

/-- `PerformPhase1Search`. -/
def performPhase1Search (grid : Grid) (rng : parts.prng.State) :
    Option (SearchResult × parts.prng.State) :=
  if grid.isEmpty then some (searchRandom parts rng)
  else
    let (chance, rng) := parts.prng.next rng
    if chance % 100 < 10 then some (searchRandom parts rng)
    else
      let (parent, rng) := getRandomParent parts grid rng
      searchMutated parts parent rng

/-! ### The loop -/

/-- The sequence with its simulation recorded. -/
def recorded (result : RandomSimulatorResult) (seq : SimulatedSequence) : SimulatedSequence :=
  { seq with
    terminalState := some result.terminalState
    memoryDump := result.memoryDump
    expectedTerminalState := "Cycles: ".toList ++ decimal result.cycles ++
      if result.success then [] else " (Failed/Trapped)".toList }

/-- `kTrapHandlerCorrupted`. -/
def kTrapHandlerCorrupted : Text := "Trap Handler Corrupted".toList

/-- The sequence finalised, unless its trap handler was corrupted. -/
def finalizedUnlessCorrupted (result : RandomSimulatorResult) (bd : BehavioralDescriptor)
    (seq : SimulatedSequence) : SimulatedSequence :=
  if bd.detectorName ≠ kTrapHandlerCorrupted then
    { seq with toCompiledSequence :=
      performPhase2Finalize seq.toCompiledSequence result.terminalState }
  else seq

/-- `populate_fn`. -/
def populateSequence (search : SearchResult) (result : RandomSimulatorResult)
    (bd : BehavioralDescriptor) (seq : SimulatedSequence) : SimulatedSequence :=
  let seq := finalizedUnlessCorrupted result bd seq
  match parts.disassembleSequence seq.toCompiledSequence (search.parent.getD
    seq).toCompiledSequence with
  | some text => { seq with assemblyText := text }
  | none => seq

/-- The offer of an iteration. -/
def offered (archive : BehavioralArchive SimulatedSequence) (search : SearchResult)
    (result : RandomSimulatorResult) : Offer SimulatedSequence Unit :=
  let bd := extractDescriptor archive result.coverageSummary
  ⟨bd, recorded result search.seq, result.coverageSummary,
    some fun seq w => (populateSequence parts search result bd seq, w)⟩

/-- The global coverage with a key, when it counts. -/
def coverEntry (globalCoverage : Text → Option ℕ) (kv : Text × ℕ) : Text → Option ℕ :=
  if kv.2 > 0 then Function.update globalCoverage kv.1 (some 1) else globalCoverage

/-- The global coverage with the keys of a summary. -/
def cover (summary : CoverageSummary) (globalCoverage : Text → Option ℕ) : Text → Option ℕ :=
  summary.entries.foldl coverEntry globalCoverage

/-- `Orchestrator`. -/
structure Orchestrator where
  rng : parts.prng.State
  archive : BehavioralArchive SimulatedSequence
  globalCoverage : Text → Option ℕ

/-- What an iteration simulated, offered, and whether it was kept. -/
structure Iteration where
  result : RandomSimulatorResult
  offer : Offer SimulatedSequence Unit
  added : Bool

/-- A new orchestrator. -/
def Orchestrator.start (seed : BitVec 64) : Orchestrator parts :=
  ⟨parts.prng.seed seed, .empty, fun _ => none⟩

variable {parts}

/-- The offer of an iteration, made to the archive. -/
def Orchestrator.conclude (o : Orchestrator parts) (rng : parts.prng.State)
    (offer : Offer SimulatedSequence Unit) (result : RandomSimulatorResult) :
    Iteration × Orchestrator parts :=
  let (added, s) := addIfNovel offer ⟨o.archive, ()⟩
  (⟨result, offer, added⟩,
    ⟨rng, s.archive, if added then cover result.coverageSummary o.globalCoverage
      else o.globalCoverage⟩)

/-- An iteration of `RunEvolutionLoop`; `none` when it reads outside an image. -/
def runIteration (grid : Grid) (simulate : SimulatedSequence → RandomSimulatorResult)
    (o : Orchestrator parts) : Option (Iteration × Orchestrator parts) := do
  let (search, rng) ← performPhase1Search parts grid o.rng
  let result := simulate search.seq
  return o.conclude rng (offered parts o.archive search result) result

/-- The bins of an archive, each of them once. -/
def Lists (grid : Grid) (archive : BehavioralArchive SimulatedSequence) : Prop :=
  (grid.map Prod.fst).Nodup ∧ ∀ k s, (k, s) ∈ grid ↔ archive.archive k = some s

/-- An iteration, with any order of the bins and any result. -/
def EvolveStep (o : Orchestrator parts) (i : Iteration) (o' : Orchestrator parts) : Prop :=
  ∃ grid simulate, Lists grid o.archive ∧ runIteration grid simulate o = some (i, o')

end Search

variable {parts : EvolutionParts}

/-! ### The archive of a run -/

/-- What a step is: a search, and the offer that came of it. -/
theorem EvolveStep.cases {o o' : Orchestrator parts} {i : Iteration} (h : EvolveStep o i o') :
    ∃ grid search rng, Lists grid o.archive ∧ performPhase1Search parts grid o.rng =
      some (search, rng) ∧
      i.offer = offered parts o.archive search i.result ∧
      o' = (o.conclude rng i.offer i.result).2 := by
  obtain ⟨grid, simulate, hgrid, hrun⟩ := h
  rw [runIteration] at hrun
  obtain ⟨⟨search, rng⟩, hsearch, hconclude⟩ := Option.bind_eq_some_iff.1 hrun
  have hend := Option.some.inj hconclude
  simp only [Orchestrator.conclude] at hend
  cases hend
  exact ⟨grid, search, rng, hgrid, hsearch, rfl, rfl⟩

/-- What comes of an offer: it is stored and its names are covered, or nothing changes. -/
theorem conclude_cases {o : Orchestrator parts} (h : SameKeys o.archive) (rng : parts.prng.State)
    (offer : Offer SimulatedSequence Unit) (result : RandomSimulatorResult) :
    (offer.IsNovel o.archive ∧ (o.conclude rng offer result).2 =
        ⟨rng, (storeSeq offer ⟨o.archive, ()⟩).archive,
          cover result.coverageSummary o.globalCoverage⟩) ∨
      (¬ offer.IsNovel o.archive ∧ (o.conclude rng offer result).2 =
        ⟨rng, o.archive, o.globalCoverage⟩) := by
  rcases addIfNovel_cases (s := ⟨o.archive, ()⟩) h offer with ⟨hnovel, hcall⟩ | ⟨hstale, hcall⟩
  · refine .inl ⟨hnovel, ?_⟩
    simp only [Orchestrator.conclude, hcall, if_true]
  · refine .inr ⟨hstale, ?_⟩
    simp only [Orchestrator.conclude, hcall, Bool.false_eq_true, if_false]

theorem storeSeq_archive (offer : Offer SimulatedSequence Unit)
    (s : Populating SimulatedSequence Unit) :
    (storeSeq offer s).archive.archive =
      Function.update s.archive.archive offer.descriptor (some (offer.populated s.world).1) := rfl

/-- **The archive of a run is the one its offers make.** -/
theorem archive_of_evolution {seed : BitVec 64} {iterations : List Iteration}
    {o : Orchestrator parts} (h : Trace EvolveStep (.start parts seed) iterations o) :
    addAll (iterations.map Iteration.offer) ⟨BehavioralArchive.empty, ()⟩ = ⟨o.archive, ()⟩ := by
  have hstep : ∀ past (o : Orchestrator parts) i o',
      addAll (past.map Iteration.offer) ⟨BehavioralArchive.empty, ()⟩ = ⟨o.archive, ()⟩ →
      EvolveStep o i o' →
        addAll ((past ++ [i]).map Iteration.offer) ⟨BehavioralArchive.empty, ()⟩ =
          ⟨o'.archive, ()⟩ := by
    intro past o i o' hpast hstep
    obtain ⟨-, -, rng, -, -, -, hend⟩ := hstep.cases
    rw [List.map_append, addAll_append, hpast, hend]
    rfl
  exact h.history (I := fun past o =>
    addAll (past.map Iteration.offer) ⟨BehavioralArchive.empty, ()⟩ =
    ⟨o.archive, ()⟩) hstep rfl

/-- The bins that are there, of those with given names. -/
def binsAmong (names : List BehavioralDescriptor) (archive : BehavioralArchive SimulatedSequence) :
    Grid :=
  names.filterMap fun k => (archive.archive k).map (k, ·)

theorem map_fst_binsAmong (names : List BehavioralDescriptor)
    (archive : BehavioralArchive SimulatedSequence) :
    (binsAmong names archive).map Prod.fst = names.filter fun k => (archive.archive k).isSome := by
  induction names with
  | nil => rfl
  | cons k names ih =>
      rw [binsAmong] at ih ⊢
      cases hk : archive.archive k with
      | none =>
        rw [List.filterMap_cons_none (by rw [hk]; rfl), List.filter_cons_of_neg (by simp [hk]), ih]
      | some s =>
          rw [List.filterMap_cons_some (by rw [hk]; rfl), List.filter_cons_of_pos (by simp [hk]),
            List.map_cons, ih]

/-- Only bins that were offered to are there. -/
theorem mem_of_archive_ne_none {offers : List (Offer SimulatedSequence Unit)}
    {k : BehavioralDescriptor}
    (h : (addAll offers ⟨BehavioralArchive.empty, ()⟩).archive.archive k ≠ none) :
    ∃ o ∈ offers, o.descriptor = k := by
  rcases holdsBest_addAll () offers k with ⟨-, hnone, -⟩ | ⟨front, o, back, rfl, hbest, -⟩
  · exact absurd hnone h
  · exact ⟨o, by simp, hbest.descriptor_eq⟩

/-- The bins of an archive that is reached can be listed. -/
theorem exists_lists {seed : BitVec 64} {iterations : List Iteration} {o : Orchestrator parts}
    (h : Trace EvolveStep (.start parts seed) iterations o) : ∃ grid, Lists grid o.archive := by
  refine ⟨binsAmong ((iterations.map fun i => i.offer.descriptor).dedup) o.archive, ?_, ?_⟩
  · rw [map_fst_binsAmong]
    exact (List.nodup_dedup _).filter _
  · intro k s
    rw [binsAmong, List.mem_filterMap]
    constructor
    · rintro ⟨k', -, hk⟩
      obtain ⟨s', hs, heq⟩ := Option.map_eq_some_iff.1 hk
      cases heq
      exact hs
    · intro hs
      have hne :
          (addAll (iterations.map Iteration.offer) ⟨BehavioralArchive.empty, ()⟩).archive.archive
            k ≠
          none := by
        rw [archive_of_evolution h, hs]
        exact Option.some_ne_none s
      obtain ⟨offer, hmem, hk⟩ := mem_of_archive_ne_none hne
      obtain ⟨i, hi, rfl⟩ := List.mem_map.1 hmem
      exact ⟨k, List.mem_dedup.2 (List.mem_map.2 ⟨i, hi, hk⟩), by rw [hs]; rfl⟩

/-! ### The global coverage -/

theorem coverEntry_apply (globalCoverage : Text → Option ℕ) (kv : Text × ℕ) (name : Text) :
    coverEntry globalCoverage kv name =
      if kv.2 > 0 ∧ kv.1 = name then some 1 else globalCoverage name := by
  rw [coverEntry]
  by_cases hpos : kv.2 > 0
  · by_cases hname : kv.1 = name
    · rw [if_pos hpos, if_pos ⟨hpos, hname⟩, ← hname, Function.update_self]
    · rw [if_pos hpos, if_neg fun h => hname h.2, Function.update_of_ne fun h => hname h.symm]
  · rw [if_neg hpos, if_neg fun h => hpos h.1]

/-- The global coverage has the active names of a summary, and keeps what it has for the others. -/
theorem cover_apply (summary : CoverageSummary) (globalCoverage : Text → Option ℕ) (name : Text) :
    (summary.IsActive name → cover summary globalCoverage name = some 1) ∧
      (¬ summary.IsActive name → cover summary globalCoverage name = globalCoverage name) := by
  rw [cover, CoverageSummary.IsActive]
  induction summary.entries using List.reverseRecOn with
  | nil => exact ⟨by simp, fun _ => rfl⟩
  | append_singleton entries kv ih =>
      rw [List.foldl_append, List.foldl_cons, List.foldl_nil, coverEntry_apply]
      by_cases hkv : kv.2 > 0 ∧ kv.1 = name
      · rw [if_pos hkv]
        refine ⟨fun _ => rfl, fun hnot => absurd ⟨kv.2, ?_, hkv.1⟩ hnot⟩
        rw [← hkv.2]
        exact List.mem_append_right _ List.mem_cons_self
      · rw [if_neg hkv]
        refine ⟨?_, fun hnot => ih.2 ?_⟩
        · rintro ⟨count, hmem, hpos⟩
          rcases List.mem_append.1 hmem with hmem | hmem
          · exact ih.1 ⟨count, hmem, hpos⟩
          · obtain rfl := List.mem_singleton.1 hmem
            exact absurd ⟨hpos, rfl⟩ hkv
        · rintro ⟨count, hmem, hpos⟩
          exact hnot ⟨count, List.mem_append_left _ hmem, hpos⟩

/-- The name the loop ends with is the one it started with, or one of the keys. -/
theorem foldl_raiseMaxCount_mem (summary : CoverageSummary) (detectors : List Text)
    (best : ℕ × Text) :
    (detectors.foldl (raiseMaxCount summary) best).2 = best.2 ∨
      (detectors.foldl (raiseMaxCount summary) best).2 ∈ detectors := by
  induction detectors generalizing best with
  | nil => exact .inl rfl
  | cons key detectors ih =>
      rw [List.foldl_cons]
      rcases ih (raiseMaxCount summary best key) with heq | hmem
      · rw [heq, raiseMaxCount]
        split
        · exact .inr List.mem_cons_self
        · exact .inl rfl
      · exact .inr (List.mem_cons_of_mem _ hmem)

/-- A bin that has a name has the name of an active detector. -/
theorem isActive_extractDescriptor_of_ne_nil {σ : Type} (archive : BehavioralArchive σ)
    (summary : CoverageSummary) (hname : (extractDescriptor archive summary).detectorName ≠ []) :
    summary.IsActive (extractDescriptor archive summary).detectorName := by
  rw [← mem_sortedDetectors]
  revert hname
  rw [extractDescriptor]
  cases hfind : (summary.activeDetectors.insertionSort (· ≤ ·)).find?
      fun detector => (archive.archive ⟨detector⟩).isNone with
  | some detector => exact fun _ => List.mem_of_find?_eq_some hfind
  | none =>
      have hloop :=
        foldl_raiseMaxCount_mem summary (summary.activeDetectors.insertionSort (· ≤ ·)) (0, [])
      intro hname
      simp only at hname ⊢
      generalize ((summary.activeDetectors.insertionSort (· ≤ ·)).foldl (raiseMaxCount summary)
        (0, [])).2 = name at hloop hname ⊢
      generalize summary.activeDetectors.insertionSort (· ≤ ·) = detectors at hloop hname ⊢
      cases name with
      | nil =>
          cases detectors with
          | nil => exact absurd rfl hname
          | cons detector detectors => exact List.mem_cons_self
      | cons c cs =>
          rcases hloop with hnil | hmem
          · cases hnil
          · exact hmem

/-- An offer that is not novel: every active detector has a bin. -/
theorem ne_none_of_not_isNovel {archive : BehavioralArchive SimulatedSequence}
    {search : SearchResult} {result : RandomSimulatorResult}
    (hnot : ¬ (offered parts archive search result).IsNovel archive) {name : Text}
    (hactive : result.coverageSummary.IsActive name) : archive.archive ⟨name⟩ ≠ none := by
  intro hfree
  exact hnot (.inl (extractDescriptor_isLeast ⟨name, hactive, hfree⟩).1.2)

/-- The names of the bins, and the names of the global coverage, were active in some result; every
name that was is covered. -/
structure Covers (past : List Iteration) (o : Orchestrator parts) : Prop where
  sameKeys : SameKeys o.archive
  bins : ∀ name, name ≠ [] → o.archive.archive ⟨name⟩ ≠ none →
    ∃ i ∈ past, i.result.coverageSummary.IsActive name
  covered : ∀ name, name ≠ [] → (∃ i ∈ past, i.result.coverageSummary.IsActive name) →
    o.globalCoverage name = some 1
  others : ∀ name, (¬ ∃ i ∈ past, i.result.coverageSummary.IsActive name) →
    o.globalCoverage name = none

theorem covers_start (seed : BitVec 64) : Covers [] (Orchestrator.start parts seed) where
  sameKeys := sameKeys_empty
  bins _ _ h := absurd rfl h
  covered _ _ h := by simp at h
  others _ _ := rfl

theorem exists_mem_concat {past : List Iteration} {i : Iteration} {name : Text} :
    (∃ i' ∈ past ++ [i], i'.result.coverageSummary.IsActive name) ↔
      (∃ i' ∈ past, i'.result.coverageSummary.IsActive name) ∨
      i.result.coverageSummary.IsActive name := by
  simp only [List.mem_append, List.mem_singleton, or_and_right, exists_or, exists_eq_left]

/-- **An iteration keeps the account**, whether its sequence is kept or not. -/
theorem Covers.evolveStep {past : List Iteration} {o o' : Orchestrator parts} {i : Iteration}
    (h : Covers past o) (hstep : EvolveStep o i o') : Covers (past ++ [i]) o' := by
  obtain ⟨grid, search, rng, -, -, hoffer, rfl⟩ := hstep.cases
  have hcover := cover_apply i.result.coverageSummary o.globalCoverage
  rcases conclude_cases h.sameKeys rng i.offer i.result with ⟨-, hend⟩ | ⟨hstale, hend⟩
  · rw [hend]
    refine ⟨sameKeys_storeSeq (s := ⟨o.archive, ()⟩) h.sameKeys _, ?_, ?_, ?_⟩
    · intro name hname hbin
      rw [exists_mem_concat]
      by_cases hk : (⟨name⟩ : BehavioralDescriptor) = i.offer.descriptor
      · -- the bin of this iteration is one of its active detectors
        have hbd : extractDescriptor o.archive i.result.coverageSummary = ⟨name⟩ := by
          rw [hk, hoffer]
          rfl
        have hactive := isActive_extractDescriptor_of_ne_nil o.archive i.result.coverageSummary
          (by rw [hbd]; exact hname)
        rw [hbd] at hactive
        exact .inr hactive
      · rw [storeSeq_archive, Function.update_of_ne hk] at hbin
        exact .inl (h.bins name hname hbin)
    · intro name hname hactive
      by_cases hnow : i.result.coverageSummary.IsActive name
      · exact (hcover name).1 hnow
      · have hpast := (exists_mem_concat.1 hactive).resolve_right hnow
        exact ((hcover name).2 hnow).trans (h.covered name hname hpast)
    · intro name hnot
      rw [exists_mem_concat, not_or] at hnot
      exact ((hcover name).2 hnot.2).trans (h.others name hnot.1)
  · rw [hend]
    refine ⟨h.sameKeys, ?_, ?_, ?_⟩
    · intro name hname hbin
      exact exists_mem_concat.2 (.inl (h.bins name hname hbin))
    · intro name hname hactive
      rcases exists_mem_concat.1 hactive with hpast | hnow
      · exact h.covered name hname hpast
      · -- what is active and not kept has a bin, and was covered when the bin was filled
        rw [hoffer] at hstale
        exact h.covered name hname (h.bins name hname (ne_none_of_not_isNovel hstale hnow))
    · intro name hnot
      rw [exists_mem_concat, not_or] at hnot
      exact h.others name hnot.1

/-- A generated sequence without mutable words. -/
def oneWord : CompiledSequence where
  assemblyText := []
  prngSeed := 0
  trapEvent := none
  expectedTerminalState := []
  assertionCount := 0
  hazardTags := []
  itcmBinary := encode (0x00108093 :: (List.replicate 2046 nop ++ [mpause]))
  mutableStart := 4
  mutableEnd := 4

theorem length_oneWord : oneWord.itcmBinary.length = 8192 := by
  rw [oneWord, length_encode, List.length_cons, List.length_append, List.length_replicate]
  rfl

theorem isGenerated_oneWord : oneWord.IsGenerated where
  length_eq := length_oneWord
  isMutable := ⟨⟨1, rfl⟩, ⟨1, rfl⟩, Nat.le_refl _, by rw [length_oneWord]; decide,
    by rw [length_oneWord]; decide⟩
  end_le := show 4 ≤ 8188 by decide
  start_ge := Nat.le_refl _
  protectedWord := by
    have hword : wordAt oneWord.itcmBinary 0 = 0x00108093 := wordAt_bytesOfWord _ _
    rw [show oneWord.mutableStart.toNat - 4 = 0 from rfl, hword]
    decide

/-- Parts that generate this sequence only. -/
def oneWordParts : EvolutionParts where
  prng := mt19937_64
  generateRandomSequence _ _ := oneWord
  compileInMemory _ := none
  disassembleSequence _ _ := none
  isGenerated _ _ := isGenerated_oneWord

/-- The first iteration, with any result. -/
theorem exists_firstStep (result : RandomSimulatorResult) :
    ∃ i o, EvolveStep (.start oneWordParts 1) i o ∧ i.result = result := by
  have hgrid : Lists [] (Orchestrator.start oneWordParts 1).archive := by
    refine ⟨List.nodup_nil, fun k s => iff_of_false List.not_mem_nil ?_⟩
    intro hs
    cases hs
  exact ⟨_, _, ⟨[], fun _ => result, hgrid, rfl⟩, rfl⟩

/-- A result that counts one detector. -/
def resultOfA : RandomSimulatorResult where
  success := true
  coverageSummary := ⟨[(['a'], 2)], List.nodup_singleton _⟩
  cycles := 10
  terminalState := ⟨fun _ => none, fun _ => none⟩
  memoryDump _ := none

theorem covers_of_evolution {seed : BitVec 64} {iterations : List Iteration}
    {o : Orchestrator parts} (h : Trace EvolveStep (.start parts seed) iterations o) :
    Covers iterations o :=
  h.history (I := Covers) (fun _ _ _ _ hpast hstep => hpast.evolveStep hstep) (covers_start seed)

/-- **The global coverage is that of all results.**  It is brought up to date only when a sequence
is kept, but a result whose sequence is not kept has nothing to add. -/
theorem globalCoverage_of_evolution {seed : BitVec 64} {iterations : List Iteration}
    {o : Orchestrator parts} (h : Trace EvolveStep (.start parts seed) iterations o) {name : Text}
    (hname : name ≠ []) :
    ((∃ i ∈ iterations, i.result.coverageSummary.IsActive name) → o.globalCoverage name = some 1) ∧
      ((∀ i ∈ iterations, ¬ i.result.coverageSummary.IsActive name) →
        o.globalCoverage name = none) := by
  have hcovers := covers_of_evolution h
  refine ⟨hcovers.covered name hname, fun hnot => hcovers.others name ?_⟩
  rintro ⟨i, hi, hactive⟩
  exact hnot i hi hactive

theorem globalCoverage_of_evolution_first :
    ∃ i o, Trace EvolveStep (.start oneWordParts 1) [i] o ∧ o.globalCoverage ['a'] = some 1 := by
  obtain ⟨i, o, hstep, hresult⟩ := exists_firstStep resultOfA
  have htrace := Trace.cons hstep (.nil o)
  refine ⟨i, o, htrace,
    (globalCoverage_of_evolution htrace (by decide)).1 ⟨i, List.mem_cons_self, ?_⟩⟩
  rw [hresult]
  exact ⟨2, List.mem_cons_self, by decide⟩

/-! ### The images in the archive -/

/-- A sequence of the archive: an image of 8192 bytes, in front of whose mutable words stands the
preamble of a generated sequence. -/
structure IsArchived (parts : EvolutionParts) (s : CompiledSequence) : Prop where
  length_eq : s.itcmBinary.length = 8192
  isMutable : s.IsMutable
  end_le : s.mutableEnd.toNat ≤ 8188
  preamble : ∃ seed, s.mutableStart = (parts.generateRandomSequence 100 seed).mutableStart ∧
    s.itcmBinary.take s.mutableStart.toNat =
      (parts.generateRandomSequence 100 seed).itcmBinary.take s.mutableStart.toNat

/-- Only the image and the bounds matter. -/
theorem IsArchived.congr {s s' : CompiledSequence} (h : IsArchived parts s)
    (hbinary : s'.itcmBinary = s.itcmBinary) (hstart : s'.mutableStart = s.mutableStart)
    (hend : s'.mutableEnd = s.mutableEnd) : IsArchived parts s' := by
  obtain ⟨hlength, ⟨hstartDvd, hendDvd, hstartLe, hendLe, hsize⟩, hroom, hpreamble⟩ := h
  refine ⟨by rwa [hbinary], ⟨?_, ?_, ?_, ?_, ?_⟩, by rwa [hend], by rwa [hstart, hbinary]⟩
  · rwa [hstart]
  · rwa [hend]
  · rwa [hstart, hend]
  · rwa [hend, hbinary]
  · rwa [hbinary]

theorem isArchived_generated (parts : EvolutionParts) (seed : BitVec 64) :
    IsArchived parts (parts.generateRandomSequence 100 seed) :=
  have h := parts.isGenerated 100 seed
  ⟨h.length_eq, h.isMutable, h.end_le, seed, rfl, rfl⟩

/-- A word in what two images share. -/
theorem wordAt_eq_of_take_eq {image image' : Bytes} {n k : ℕ} (h : image.take n = image'.take n)
    (hk : k + 4 ≤ n) : wordAt image k = wordAt image' k := by
  have hbyte : ∀ j, j < n → image.getD j 0 = image'.getD j 0 := by
    intro j hj
    rw [List.getD_eq_getElem?_getD, List.getD_eq_getElem?_getD, ← List.getElem?_take_of_lt hj, h,
      List.getElem?_take_of_lt hj]
  rw [wordAt, wordAt, hbyte _ (by omega), hbyte _ (by omega), hbyte _ (by omega),
    hbyte _ (by omega)]

/-- The last word of the preamble is neither a nop nor an `mpause`. -/
theorem IsArchived.protectedWord {s : CompiledSequence} (h : IsArchived parts s) :
    4 ≤ s.mutableStart.toNat ∧ ¬ (wordAt s.itcmBinary (s.mutableStart.toNat - 4) = mpause ∨
      wordAt s.itcmBinary (s.mutableStart.toNat - 4) = nop) := by
  obtain ⟨seed, hstart, htake⟩ := h.preamble
  have hgenerated := parts.isGenerated 100 seed
  have hge := hgenerated.start_ge
  rw [← hstart] at hge
  refine ⟨hge, ?_⟩
  rw [wordAt_eq_of_take_eq htake (by omega), hstart]
  exact hgenerated.protectedWord

/-! #### Mutation -/

/-- A child ends in front of the final `mpause`. -/
theorem end_le_childOf (parent : CompiledSequence) (preamble : Bytes) (mutated : List Word) :
    childOf parent preamble mutated = parent ∨
      (childOf parent preamble mutated).mutableEnd.toNat ≤ 8188 := by
  rw [childOf]
  split
  · exact .inl rfl
  · rename_i hfit
    exact .inr (BitVec.not_lt.1 hfit)

theorem end_le_of_mutateSequence {G : Prng} {generate : BitVec 64 → CompiledSequence}
    {compileInMemory : CompiledSequence → Option CompiledSequence} {parent child : CompiledSequence}
    {rng rng' : G.State} (hne : parent.itcmBinary ≠ [])
    (h : mutateSequence G generate compileInMemory parent rng = some (child, rng')) :
    child = parent ∨ child.mutableEnd.toNat ≤ 8188 := by
  have hempty : ¬ parent.itcmBinary.isEmpty = true := by rwa [List.isEmpty_iff]
  rw [mutateSequence, if_neg hempty, mutateCompiled] at h
  simp only [Option.bind_eq_bind, Option.bind_eq_some_iff] at h
  obtain ⟨preamble, -, bytes, -, words, -, offered, -, hchild⟩ := h
  cases hchild
  exact end_le_childOf _ _ _

/-- **A mutation of a sequence of the archive does not fail**, and its image has the same
preamble. -/
theorem IsArchived.mutate {parent : CompiledSequence} (h : IsArchived parts parent)
    (rng : parts.prng.State) :
    ∃ child rng', mutateSequence parts.prng
      (parts.generateRandomSequence 10) parts.compileInMemory parent
        rng = some (child, rng') ∧ IsArchived parts child := by
  have hne : parent.itcmBinary ≠ [] := by
    intro hnil
    have hlength := h.length_eq
    rw [hnil] at hlength
    cases hlength
  obtain ⟨child, rng', hmutate, hchild⟩ := mutateSequence_isChild parts.prng
    (parts.generateRandomSequence 10) parts.compileInMemory hne h.isMutable
    (fun seed => (parts.isGenerated 10 seed).isMutable) rng
  refine ⟨child, rng', hmutate, ?_⟩
  rcases hchild with rfl | ⟨seed, hchild⟩
  · exact h
  rcases end_le_of_mutateSequence hne hmutate with rfl | hend
  · exact h
  obtain ⟨kept, chosen, -, -, -, hlast⟩ := hchild.words
  have hstart := h.isMutable.start_dvd
  refine ⟨hchild.length_eq, ⟨?_, ?_, ?_, ?_, ?_⟩, hend, ?_⟩
  · rwa [hchild.start_eq]
  · omega
  · rw [hchild.start_eq]
    omega
  · rw [hchild.length_eq]
    omega
  · rw [hchild.length_eq]
    decide
  · obtain ⟨seed', hseed, htake⟩ := h.preamble
    rw [hchild.start_eq, hchild.preamble_eq]
    exact ⟨seed', hseed, htake⟩

/-! #### Finalising -/

/-- Finalising writes words into the trailing run. -/
theorem exists_finalizedBinary (binary : Bytes) (terminal : TerminalState) :
    ∃ words, nopStart binary binary.length + 4 * words.length ≤ binary.length ∧
      finalizedBinary binary terminal =
        CodeImage.patch binary (nopStart binary binary.length) (encode words) := by
  have hstart := nopStart_le binary binary.length
  have hle := terminal.fittingSize_le (tailRoom binary)
  have hsize := terminal.length_checkBytes_fitting (tailRoom binary)
  have htail : tailRoom binary = binary.length - nopStart binary binary.length := rfl
  rw [checkBytes, length_encode] at hsize
  by_cases hroom : terminal.fittingSize (tailRoom binary) + 4 ≤ tailRoom binary
  · refine ⟨_, ?_, finalizedBinary_of_room hroom⟩
    rw [List.length_append, List.length_singleton]
    omega
  · refine ⟨(terminal.fitting (tailRoom binary)).flatten, by omega, ?_⟩
    have hnone : ¬ (emitAllChecks binary terminal).currentPc + 4 ≤
        (emitAllChecks binary terminal).binary.length := by
      rw [currentPc_emitAllChecks, length_binary_emitAllChecks]
      omega
    rw [finalizedBinary]
    exact (if_neg hnone).trans (binary_emitAllChecks binary terminal)

/-- The trailing run begins behind every word that is neither a nop nor an `mpause`. -/
theorem le_nopStart (binary : Bytes) {n k : ℕ} (hdvd : 4 ∣ n) (hk : 4 ∣ k) (hle : k + 4 ≤ n)
    (hword : ¬ (wordAt binary k = mpause ∨ wordAt binary k = nop)) : k + 4 ≤ nopStart binary n := by
  fun_induction nopStart binary n with
  | case1 n hrun ih =>
      have hne : k ≠ n := by
        rintro rfl
        exact hword hrun
      exact ih (by omega) (by omega)
  | case2 n _ => exact hle
  | case3 n _ => exact hle

/-- **Finalising leaves the preamble alone.** -/
theorem IsArchived.finalize {s : CompiledSequence} (h : IsArchived parts s)
    (terminal : TerminalState) : IsArchived parts (performPhase2Finalize s terminal) := by
  obtain ⟨words, hroom, hfinal⟩ := exists_finalizedBinary s.itcmBinary terminal
  obtain ⟨hge, hword⟩ := h.protectedWord
  have hstart := h.isMutable.start_dvd
  have hle := h.isMutable.start_le
  have hend := h.isMutable.end_le
  have hlength : (finalizedBinary s.itcmBinary terminal).length = s.itcmBinary.length := by
    rw [hfinal, CodeImage.length_patch (by rw [length_encode]; omega)]
  have hbehind : s.mutableStart.toNat ≤ nopStart s.itcmBinary s.itcmBinary.length := by
    have := le_nopStart s.itcmBinary (n := s.itcmBinary.length) (k := s.mutableStart.toNat - 4)
      (by rw [h.length_eq]; decide) (by omega) (by omega) hword
    omega
  have htake : (finalizedBinary s.itcmBinary terminal).take s.mutableStart.toNat =
      s.itcmBinary.take s.mutableStart.toNat := by
    have hwhole := @CodeImage.take_patch _ (encode words) _
      (nopStart_le s.itcmBinary s.itcmBinary.length)
    rw [← Nat.min_eq_left hbehind, ← List.take_take, ← List.take_take, hfinal, hwhole]
  obtain ⟨seed, hseed, hpreamble⟩ := h.preamble
  refine ⟨hlength.trans h.length_eq, ⟨hstart, h.isMutable.end_dvd, hle, ?_, ?_⟩, h.end_le,
    seed, hseed, ?_⟩
  · exact hend.trans hlength.ge
  · exact hlength.trans_lt h.isMutable.size_lt
  · exact htake.trans hpreamble

theorem isArchived_populateSequence {seq : SimulatedSequence}
    (h : IsArchived parts seq.toCompiledSequence) (search : SearchResult)
    (result : RandomSimulatorResult) (bd : BehavioralDescriptor) :
    IsArchived parts
      (populateSequence parts search result bd (recorded result seq)).toCompiledSequence := by
  have hrecorded : IsArchived parts (recorded result seq).toCompiledSequence := h.congr rfl rfl rfl
  have hfinal : IsArchived parts
      (finalizedUnlessCorrupted result bd (recorded result seq)).toCompiledSequence := by
    rw [finalizedUnlessCorrupted]
    split
    · exact hrecorded.finalize result.terminalState
    · exact hrecorded
  rw [populateSequence]
  split
  · exact hfinal.congr rfl rfl rfl
  · exact hfinal

/-! #### Runs -/

/-- The sequences of an archive. -/
def AllArchived (o : Orchestrator parts) : Prop :=
  ∀ k s, o.archive.archive k = some s → IsArchived parts s.toCompiledSequence

/-- A parent is one of the bins. -/
theorem getRandomParent_mem {bin : BehavioralDescriptor × SimulatedSequence} {bins : Grid}
    (rng : parts.prng.State) :
    ∃ k, (k, (getRandomParent parts (bin :: bins) rng).1) ∈ bin :: bins := by
  have hlt : (parts.prng.next rng).1.toNat % (bins.length + 1) < (bin :: bins).length :=
    Nat.mod_lt _ (Nat.succ_pos _)
  rw [getRandomParent]
  simp only [List.getD_eq_getElem _ _ hlt]
  exact ⟨_, List.getElem_mem hlt⟩

/-- **The search does not fail.** -/
theorem exists_search {o : Orchestrator parts} (h : AllArchived o) {grid : Grid}
    (hgrid : Lists grid o.archive) (rng : parts.prng.State) :
    ∃ search rng', performPhase1Search parts grid rng = some (search, rng') ∧
      IsArchived parts search.seq.toCompiledSequence := by
  have hrandom (rng : parts.prng.State) :
      IsArchived parts (searchRandom parts rng).1.seq.toCompiledSequence :=
        isArchived_generated parts _
  rw [performPhase1Search]
  split
  · exact ⟨_, _, rfl, hrandom rng⟩
  · rename_i hsome
    dsimp only
    split
    · exact ⟨_, _, rfl, hrandom _⟩
    · cases grid with
      | nil => exact absurd rfl hsome
      | cons bin bins =>
          have hparent : ∃ k, (k, (getRandomParent parts (bin :: bins) (parts.prng.next rng).2).1) ∈
              bin :: bins := getRandomParent_mem _
          obtain ⟨k, hmem⟩ := hparent
          obtain ⟨child, rng', hmutate, hchild⟩ := (h k _ ((hgrid.2 k _).1 hmem)).mutate
            (getRandomParent parts (bin :: bins) (parts.prng.next rng).2).2
          rw [searchMutated, hmutate]
          exact ⟨_, _, rfl, hchild⟩

/-- An iteration keeps the images in order. -/
theorem allArchived_evolveStep {o o' : Orchestrator parts} {i : Iteration}
    (hkeys : SameKeys o.archive) (h : AllArchived o) (hstep : EvolveStep o i o') :
    AllArchived o' := by
  obtain ⟨grid, search, rng, hgrid, hsearch, hoffer, rfl⟩ := hstep.cases
  rcases conclude_cases hkeys rng i.offer i.result with ⟨-, hend⟩ | ⟨-, hend⟩
  · rw [hend]
    intro k s hs
    rw [storeSeq_archive] at hs
    by_cases hk : k = i.offer.descriptor
    · obtain ⟨search', rng', hsearch', harchived⟩ := exists_search h hgrid o.rng
      rw [hsearch] at hsearch'
      cases hsearch'
      rw [hk, Function.update_self] at hs
      cases hs
      rw [hoffer]
      exact isArchived_populateSequence harchived search i.result _
    · rw [Function.update_of_ne hk] at hs
      exact h k s hs
  · rw [hend]
    exact h

theorem allArchived_of_evolution {seed : BitVec 64} {iterations : List Iteration}
    {o : Orchestrator parts} (h : Trace EvolveStep (.start parts seed) iterations o) :
    AllArchived o := by
  have hinv : SameKeys o.archive ∧ AllArchived o := by
    refine h.invariant (I := fun o => SameKeys o.archive ∧ AllArchived o)
      (fun o i o' hinv hstep => ?_) ⟨sameKeys_empty, fun k s hs => by cases hs⟩
    refine ⟨?_, allArchived_evolveStep hinv.1 hinv.2 hstep⟩
    obtain ⟨-, -, rng, -, -, -, rfl⟩ := hstep.cases
    exact sameKeys_addIfNovel (s := ⟨o.archive, ()⟩) hinv.1 _
  exact hinv.2

/-- There is a next iteration. -/
theorem exists_iteration {o : Orchestrator parts} (h : AllArchived o) {grid : Grid}
    (hgrid : Lists grid o.archive) (simulate : SimulatedSequence → RandomSimulatorResult) :
    ∃ i o', runIteration grid simulate o = some (i, o') := by
  obtain ⟨search, rng, hsearch, -⟩ := exists_search h hgrid o.rng
  rw [runIteration, hsearch]
  exact ⟨_, _, rfl⟩

/-- **No iteration fails, and every sequence kept has the protected preamble of a generated one**:
after any run, whatever the simulator answers and in whatever order the bins are listed, there is a
next iteration. -/
theorem isArchived_of_evolution {seed : BitVec 64} {iterations : List Iteration}
    {o : Orchestrator parts} (h : Trace EvolveStep (.start parts seed) iterations o) :
    (∀ k s, o.archive.archive k = some s → IsArchived parts s.toCompiledSequence) ∧
      (∃ grid, Lists grid o.archive) ∧
      ∀ grid simulate, Lists grid o.archive →
      ∃ i o', runIteration grid simulate o = some (i, o') := by
  exact ⟨allArchived_of_evolution h, exists_lists h,
    fun _ simulate hgrid => exists_iteration (allArchived_of_evolution h) hgrid simulate⟩

theorem isArchived_of_evolution_first :
    ∃ i o, Trace EvolveStep (.start oneWordParts 1) [i] o ∧
      ∀ grid simulate, Lists grid o.archive →
      ∃ i' o', runIteration grid simulate o = some (i', o') := by
  obtain ⟨i, o, hstep, -⟩ := exists_firstStep resultOfA
  have htrace := Trace.cons hstep (.nil o)
  exact ⟨i, o, htrace, (isArchived_of_evolution htrace).2.2⟩

end CoralNpu
