/-
**The databases of test sequences.**

There are two of them.  One retains a sequence when its summary has a key that no summary before it
had; the other is written by the fuzzer at its end, and holds the archive of the evolution, sorted
by text.  The fuzzer is asked for a number of sequences, and iterates until the archive has as many
or the budget is spent.

The order of a hash table is free, and so is what a sort does with equal texts.  The budget is an
`int`, so the number of sequences must leave room for a hundred times as many iterations.

Main definitions:

* `CoralNpu.IsgDatabase`, `CoralNpu.retainIfNovel` — the database that retains what is novel;
* `CoralNpu.NumTestsLoop` — the loop of the fuzzer, from an orchestrator to another;
* `CoralNpu.IsExported`, `CoralNpu.IsOutput` — the database that is written;
* `CoralNpu.BestBins` — a bin for each descriptor that was offered, with its first best sequence.

Main results:

* `CoralNpu.retainAll_covers` — **what is retained covers what was offered**, and each sequence of
  it was the first with some key;
* `CoralNpu.numTestsLoop_stops` — the archive has as many sequences as were asked for, or fewer when
  the budget is spent, and never more;
* `CoralNpu.output_bestBins` — **the database has the first best sequence of every descriptor**,
  whatever the order of the hash table and the sort.
-/

import CoralNpu.CInt
import CoralNpu.OrchestratorEvolve

set_option relaxedAutoImplicit false
set_option autoImplicit false

namespace CoralNpu

open AsciiText CodeImage Traces

/-! ### The database that retains what is novel -/

section Retain

variable {σ : Type}

/-- `IsgDatabase`. -/
structure IsgDatabase (σ : Type) where
  testSequences : List σ
  globalCoverage : Finset Text

/-- A new database. -/
def IsgDatabase.new : IsgDatabase σ := ⟨[], ∅⟩

/-- The names of a summary. -/
def CoverageSummary.names (summary : CoverageSummary) : List Text := summary.entries.map Prod.fst

/-- `CalculateFitness`. -/
def calculateFitness (db : IsgDatabase σ) (summary : CoverageSummary) : ℕ :=
  summary.names.foldl (fun score name => if name ∈ db.globalCoverage then score else score + 1) 0

/-- One name inserted, and whether some name so far was new. -/
def insertName (state : Bool × Finset Text) (name : Text) : Bool × Finset Text :=
  (if name ∈ state.2 then state.1 else true, insert name state.2)

/-- `RetainIfNovel`. -/
def retainIfNovel (seq : σ) (summary : CoverageSummary) (db : IsgDatabase σ) :
    Bool × IsgDatabase σ :=
  let (novel, globalCoverage) := summary.names.foldl insertName (false, db.globalCoverage)
  (novel, ⟨if novel then db.testSequences ++ [seq] else db.testSequences, globalCoverage⟩)

/-- Sequences offered one after the other, each with its summary. -/
def retainAll (offers : List (σ × CoverageSummary)) (db : IsgDatabase σ) : IsgDatabase σ :=
  offers.foldl (fun db offer => (retainIfNovel offer.1 offer.2 db).2) db

theorem foldl_insertName (names : List Text) (novel : Bool) (coverage : Finset Text) :
    ((names.foldl insertName (novel, coverage)).1 = true ↔
      novel = true ∨ ∃ name ∈ names, name ∉ coverage) ∧
      (names.foldl insertName (novel, coverage)).2 = coverage ∪ names.toFinset := by
  induction names generalizing novel coverage with
  | nil => simp
  | cons name names ih =>
      obtain ⟨hnovel, hcoverage⟩ :=
        ih (if name ∈ coverage then novel else true) (insert name coverage)
      rw [List.foldl_cons, insertName]
      constructor
      · rw [hnovel]
        by_cases hmem : name ∈ coverage
        · rw [if_pos hmem, Finset.insert_eq_of_mem hmem]
          simp [hmem]
        · rw [if_neg hmem]
          simp [hmem]
      · rw [hcoverage, List.toFinset_cons, Finset.insert_union, Finset.union_insert]

/-- The fitness counts the new names. -/
theorem calculateFitness_eq (db : IsgDatabase σ) (summary : CoverageSummary) :
    calculateFitness db summary = summary.names.countP (· ∉ db.globalCoverage) := by
  have hfold : ∀ (names : List Text) (score : ℕ),
      names.foldl (fun score name => if name ∈ db.globalCoverage then score else score + 1) score =
        score + names.countP (· ∉ db.globalCoverage) := by
    intro names
    induction names with
    | nil => exact fun score => rfl
    | cons name names ih =>
        intro score
        rw [List.foldl_cons, ih, List.countP_cons]
        by_cases hmem : name ∈ db.globalCoverage
        · simp [hmem]
        · simp [hmem, Nat.add_assoc, Nat.add_comm 1]
  rw [calculateFitness, hfold, Nat.zero_add]

/-- **A call retains the sequence exactly when its fitness is positive**, and covers its names. -/
theorem retainIfNovel_cases (seq : σ) (summary : CoverageSummary) (db : IsgDatabase σ) :
    (0 < calculateFitness db summary ∧ retainIfNovel seq summary db =
        (true, ⟨db.testSequences ++ [seq], db.globalCoverage ∪ summary.names.toFinset⟩)) ∨
      (calculateFitness db summary = 0 ∧ retainIfNovel seq summary db = (false, db)) := by
  obtain ⟨hnovel, hcoverage⟩ := foldl_insertName summary.names false db.globalCoverage
  have hfitness : 0 < calculateFitness db summary ↔
      ∃ name ∈ summary.names, name ∉ db.globalCoverage := by
    rw [calculateFitness_eq, List.countP_pos_iff]
    simp only [decide_eq_true_eq]
  rw [retainIfNovel]
  generalize summary.names.foldl insertName (false, db.globalCoverage) = outcome at hnovel hcoverage
  obtain ⟨novel, coverage⟩ := outcome
  simp only [Bool.false_eq_true, false_or] at hnovel hcoverage
  cases novel with
  | true =>
      left
      refine ⟨hfitness.2 (hnovel.1 rfl), ?_⟩
      rw [hcoverage]
      rfl
  | false =>
      right
      have hnone : ¬ ∃ name ∈ summary.names, name ∉ db.globalCoverage := fun h => by
        simpa using hnovel.2 h
      refine ⟨Nat.eq_zero_of_not_pos fun h => hnone (hfitness.1 h), ?_⟩
      have hsubset : summary.names.toFinset ⊆ db.globalCoverage := by
        intro name hname
        by_contra hnew
        exact hnone ⟨name, List.mem_toFinset.1 hname, hnew⟩
      rw [hcoverage, Finset.union_eq_left.2 hsubset]
      rfl

/-- The sequences kept of some offers: they have all the names, and each of them has one that no
offer before it had. -/
structure RetainsFirst (offers kept : List (σ × CoverageSummary)) : Prop where
  sublist : kept.Sublist offers
  covers : ∀ o ∈ offers, ∀ name ∈ o.2.names, ∃ o' ∈ kept, name ∈ o'.2.names
  first : ∀ front o back, kept = front ++ o :: back →
    ∃ front' back', offers = front' ++ o :: back' ∧
    front.Sublist front' ∧ ∃ name ∈ o.2.names, ∀ o' ∈ front', name ∉ o'.2.names

/-- A new name is one that no offer had. -/
theorem retainAll_coverage (offers : List (σ × CoverageSummary)) (name : Text) :
    name ∈ (retainAll offers .new).globalCoverage ↔ ∃ o ∈ offers, name ∈ o.2.names := by
  induction offers using List.reverseRecOn with
  | nil => simp [retainAll, IsgDatabase.new]
  | append_singleton offers o ih =>
      have hcoverage := (foldl_insertName o.2.names false (retainAll offers .new).globalCoverage).2
      have hlast : (retainAll (offers ++ [o]) .new).globalCoverage =
          (retainAll offers .new).globalCoverage ∪ o.2.names.toFinset := by
        rw [← hcoverage, retainAll, retainAll, List.foldl_append]
        rfl
      rw [hlast, Finset.mem_union, ih, List.mem_toFinset]
      simp only [List.mem_append, List.mem_singleton, or_and_right, exists_or, exists_eq_left]

theorem RetainsFirst.concat {offers kept : List (σ × CoverageSummary)}
    (h : RetainsFirst offers kept) {o : σ × CoverageSummary} {name : Text}
    (hname : name ∈ o.2.names) (hnew : ∀ o' ∈ offers, name ∉ o'.2.names) :
    RetainsFirst (offers ++ [o]) (kept ++ [o]) where
  sublist := h.sublist.append (List.Sublist.refl _)
  covers := by
    intro o' hmem name' hname'
    rcases List.mem_append.1 hmem with hmem | hmem
    · obtain ⟨o'', hkept, hhas⟩ := h.covers o' hmem name' hname'
      exact ⟨o'', List.mem_append_left _ hkept, hhas⟩
    · exact ⟨o', List.mem_append_right _ hmem, hname'⟩
  first := by
    intro front o' back heq
    rcases List.eq_nil_or_concat back with rfl | ⟨back, last, rfl⟩
    · obtain ⟨rfl, hlast⟩ := List.append_inj' heq rfl
      cases hlast
      exact ⟨offers, [], rfl, h.sublist, name, hname, hnew⟩
    · rw [List.concat_eq_append, ← List.cons_append, ← List.append_assoc] at heq
      obtain ⟨front', back', rfl, hrest⟩ := h.first front o' back (List.append_inj' heq rfl).1
      exact ⟨front', back' ++ [o], by simp, hrest⟩

theorem RetainsFirst.skip {offers kept : List (σ × CoverageSummary)} (h : RetainsFirst offers kept)
    {o : σ × CoverageSummary} (hold : ∀ name ∈ o.2.names, ∃ o' ∈ offers, name ∈ o'.2.names) :
    RetainsFirst (offers ++ [o]) kept where
  sublist := h.sublist.trans (List.sublist_append_left _ _)
  covers := by
    intro o' hmem name hname
    rcases List.mem_append.1 hmem with hmem | hmem
    · exact h.covers o' hmem name hname
    · obtain rfl := List.mem_singleton.1 hmem
      obtain ⟨o'', hmem'', hhas⟩ := hold name hname
      exact h.covers o'' hmem'' name hhas
  first := by
    intro front o' back heq
    obtain ⟨front', back', rfl, hrest⟩ := h.first front o' back heq
    exact ⟨front', back' ++ [o], by simp, hrest⟩

/-- **What is retained covers what was offered**: the global coverage has the names of the offers,
the sequences retained have them all, each of these was the first with one of its names, and a
sequence is retained exactly when it has a name that no offer before it had. -/
theorem retainAll_covers (offers : List (σ × CoverageSummary)) :
    (∀ name, name ∈ (retainAll offers .new).globalCoverage ↔ ∃ o ∈ offers, name ∈ o.2.names) ∧
      (∃ kept, RetainsFirst offers kept ∧ (retainAll offers .new).testSequences =
        kept.map Prod.fst) ∧
        ∀ seq summary, (retainIfNovel seq summary (retainAll offers .new)).1 = true ↔
          ∃ name ∈ summary.names, ∀ o ∈ offers, name ∉ o.2.names := by
  have hnovel : ∀ (offers : List (σ × CoverageSummary)) seq summary,
      (retainIfNovel seq summary (retainAll offers .new)).1 = true ↔
        ∃ name ∈ summary.names, ∀ o ∈ offers, name ∉ o.2.names := by
    intro offers seq summary
    refine (foldl_insertName summary.names false (retainAll offers .new).globalCoverage).1.trans ?_
    simp only [Bool.false_eq_true, false_or, retainAll_coverage, not_exists, not_and]
  refine ⟨retainAll_coverage offers, ?_, hnovel offers⟩
  induction offers using List.reverseRecOn with
  | nil => exact ⟨[], ⟨List.Sublist.refl _, by simp, by simp⟩, rfl⟩
  | append_singleton offers o ih =>
      obtain ⟨kept, hkept, hsequences⟩ := ih
      have hlast : retainAll (offers ++ [o]) .new =
          (retainIfNovel o.1 o.2 (retainAll offers .new)).2 := by
        rw [retainAll, retainAll, List.foldl_append]
        rfl
      have hiff := hnovel offers o.1 o.2
      rw [hlast]
      rcases retainIfNovel_cases o.1 o.2 (retainAll offers .new) with ⟨-, hcall⟩ | ⟨-, hcall⟩
      · rw [hcall] at hiff ⊢
        obtain ⟨name, hname, hnew⟩ := hiff.1 rfl
        refine ⟨kept ++ [o], hkept.concat hname hnew, ?_⟩
        rw [List.map_append, ← hsequences]
        rfl
      · rw [hcall] at hiff ⊢
        refine ⟨kept, hkept.skip fun name hname => ?_, hsequences⟩
        by_contra hnone
        have hnew : ∀ o' ∈ offers, name ∉ o'.2.names := fun o' hmem hhas => hnone ⟨o', hmem, hhas⟩
        exact Bool.false_ne_true (hiff.2 ⟨name, hname, hnew⟩)

end Retain

/-! ### The loop of the fuzzer -/

/-- `max_iterations`, which is an `int`; an overflow is an error. -/
def maxIterations (numTests : ℕ) : Option ℤ := CInt.checked 32 (numTests * 100)

theorem maxIterations_eq {numTests : ℕ} {maxIters : ℤ}
    (h : maxIterations numTests = some maxIters) :
    maxIters = numTests * 100 := by
  rw [maxIterations, CInt.checked] at h
  exact (Option.some.inj (Option.ite_none_right_eq_some.1 h).2).symm

section Fuzzer

variable {parts : EvolutionParts} (simulate : SimulatedSequence → RandomSimulatorResult)
  (numTests : ℕ) (maxIters : ℤ)

/-- The loop goes on: the archive has not as many sequences as were asked for, and the budget is
not spent. -/
def GoesOn (size runIters : ℕ) : Prop := size < numTests ∧ (runIters : ℤ) < maxIters

/-- The loop of the fuzzer, when it is asked for a number of tests.  The bins may be listed in any
order. -/
inductive NumTestsLoop : ℕ → Orchestrator parts → List Iteration → Orchestrator parts → Prop
  | stop {runIters : ℕ} {o : Orchestrator parts} {grid : Grid} (hgrid : Lists grid o.archive)
      (hstop : ¬ GoesOn numTests maxIters grid.length runIters) : NumTestsLoop runIters o [] o
  | iterate {runIters : ℕ} {o o' o'' : Orchestrator parts} {grid : Grid} {i : Iteration}
      {is : List Iteration} (hgrid : Lists grid o.archive)
      (hgo : GoesOn numTests maxIters grid.length runIters)
      (hrun : runIteration grid simulate o = some (i, o'))
      (rest : NumTestsLoop (runIters + 1) o' is o'') : NumTestsLoop runIters o (i :: is) o''

/-- Two lists of the bins differ in their order only. -/
theorem Lists.perm {grid grid' : Grid} {archive : BehavioralArchive SimulatedSequence}
    (h : Lists grid archive) (h' : Lists grid' archive) : grid.Perm grid' := by
  refine (List.perm_ext_iff_of_nodup h.1.of_map h'.1.of_map).2 ?_
  rintro ⟨k, s⟩
  rw [h.2, h'.2]

/-- An iteration adds at most one bin. -/
theorem length_le_of_runIteration {o o' : Orchestrator parts} {i : Iteration} {grid grid' : Grid}
    (hkeys : SameKeys o.archive) (hgrid : Lists grid o.archive) (hgrid' : Lists grid' o'.archive)
    (hrun : runIteration grid simulate o = some (i, o')) : grid'.length ≤ grid.length + 1 := by
  have hstep : EvolveStep o i o' := ⟨grid, simulate, hgrid, hrun⟩
  obtain ⟨-, -, rng, -, -, -, rfl⟩ := hstep.cases
  have hsubset : grid'.map Prod.fst ⊆ i.offer.descriptor :: grid.map Prod.fst := by
    intro k hk
    obtain ⟨⟨k', s⟩, hmem, rfl⟩ := List.mem_map.1 hk
    have hs := (hgrid'.2 k' s).1 hmem
    rw [List.mem_cons]
    rcases conclude_cases hkeys rng i.offer i.result with ⟨-, hend⟩ | ⟨-, hend⟩
    · rw [hend, storeSeq_archive] at hs
      by_cases hk' : k' = i.offer.descriptor
      · exact .inl hk'
      · rw [Function.update_of_ne hk'] at hs
        exact .inr (List.mem_map.2 ⟨(k', s), (hgrid.2 k' s).2 hs, rfl⟩)
    · rw [hend] at hs
      exact .inr (List.mem_map.2 ⟨(k', s), (hgrid.2 k' s).2 hs, rfl⟩)
  have hlength := (hgrid'.1.subperm hsubset).length_le
  rwa [List.length_cons, List.length_map, List.length_map] at hlength

variable {simulate numTests maxIters}

theorem NumTestsLoop.trace {runIters : ℕ} {o o' : Orchestrator parts} {is : List Iteration}
    (h : NumTestsLoop simulate numTests maxIters runIters o is o') : Trace EvolveStep o is o' := by
  induction h with
  | stop hgrid hstop => exact .nil _
  | iterate hgrid hgo hrun rest ih => exact .cons ⟨_, simulate, hgrid, hrun⟩ ih

/-- What the loop keeps: no more bins than were asked for, and no more iterations than the
budget. -/
theorem NumTestsLoop.bounds {runIters : ℕ} {o o' : Orchestrator parts} {is : List Iteration}
    (h : NumTestsLoop simulate numTests maxIters runIters o is o') (hkeys : SameKeys o.archive)
    (hsize : ∀ grid, Lists grid o.archive → grid.length ≤ numTests)
    (hiters : (runIters : ℤ) ≤ maxIters) :
    ∀ grid, Lists grid o'.archive → grid.length ≤ numTests ∧
      ((runIters + is.length : ℕ) : ℤ) ≤ maxIters ∧
      (grid.length < numTests → ((runIters + is.length : ℕ) : ℤ) = maxIters) := by
  induction h with
  | @stop runIters o grid hgrid hstop =>
      intro grid' hgrid'
      refine ⟨hsize grid' hgrid', hiters, fun hlt => ?_⟩
      rw [(hgrid'.perm hgrid).length_eq] at hlt
      rw [GoesOn, not_and] at hstop
      have hspent := hstop hlt
      simp only [List.length_nil]
      omega
  | @iterate runIters o o' o'' grid i is hgrid hgo hrun rest ih =>
      have hstep : EvolveStep o i o' := ⟨grid, simulate, hgrid, hrun⟩
      have hkeys' : SameKeys o'.archive := by
        obtain ⟨-, -, rng, -, -, -, rfl⟩ := hstep.cases
        exact sameKeys_addIfNovel (s := ⟨o.archive, ()⟩) hkeys _
      have hsize' : ∀ grid', Lists grid' o'.archive → grid'.length ≤ numTests :=
        fun grid' hgrid' =>
          (length_le_of_runIteration simulate hkeys hgrid hgrid' hrun).trans hgo.1
      have hiters' : ((runIters + 1 : ℕ) : ℤ) ≤ maxIters := by
        have := hgo.2
        omega
      intro grid' hgrid'
      have hend := ih hkeys' hsize' hiters' grid' hgrid'
      rwa [List.length_cons, Nat.add_comm is.length, ← Nat.add_assoc]

theorem Lists.eq_nil_of_empty {grid : Grid} (h : Lists grid .empty) : grid = [] := by
  rw [List.eq_nil_iff_forall_not_mem]
  rintro ⟨k, s⟩ hmem
  cases (h.2 k s).1 hmem

/-- The bounds at the end of the fuzzer. -/
theorem NumTestsLoop.bounds_start {seed : BitVec 64} {o : Orchestrator parts} {is : List Iteration}
    (h : NumTestsLoop simulate numTests maxIters 0 (.start parts seed) is o)
    (hmax : maxIterations numTests = some maxIters) {grid : Grid} (hgrid : Lists grid o.archive) :
    grid.length ≤ numTests ∧ is.length ≤ numTests * 100 ∧
      (grid.length < numTests → is.length = numTests * 100) := by
  have hstart : ∀ grid, Lists grid (Orchestrator.start parts seed).archive →
      grid.length ≤ numTests := by
    intro grid hgrid
    rw [hgrid.eq_nil_of_empty]
    exact Nat.zero_le _
  have hvalue := maxIterations_eq hmax
  obtain ⟨hsize, hiters, hspent⟩ :=
    h.bounds sameKeys_empty hstart (by rw [hvalue]; exact_mod_cast Nat.zero_le _) grid hgrid
  rw [Nat.zero_add] at hiters hspent
  exact ⟨hsize, by omega, fun hlt => by have := hspent hlt; omega⟩

/-- From every orchestrator that is reached, the loop comes to an end. -/
theorem exists_numTestsLoop {seed : BitVec 64} {past : List Iteration} {o : Orchestrator parts}
    (h : Trace EvolveStep (.start parts seed) past o) (runIters : ℕ) :
    ∃ is o', NumTestsLoop simulate numTests maxIters runIters o is o' := by
  induction hbudget : (maxIters - runIters).toNat generalizing runIters past o with
  | zero =>
      obtain ⟨grid, hgrid⟩ := exists_lists h
      exact ⟨_, _, .stop hgrid fun hgo => by have := hgo.2; omega⟩
  | succ budget ih =>
      obtain ⟨grid, hgrid⟩ := exists_lists h
      by_cases hgo : GoesOn numTests maxIters grid.length runIters
      · obtain ⟨i, o', hrun⟩ := exists_iteration (allArchived_of_evolution h) hgrid simulate
        have hnext : Trace EvolveStep (.start parts seed) (past ++ [i]) o' :=
          h.append (.cons ⟨grid, simulate, hgrid, hrun⟩ (.nil o'))
        obtain ⟨is, o'', hrest⟩ := ih hnext (runIters + 1) (by omega)
        exact ⟨i :: is, o'', .iterate hgrid hgo hrun hrest⟩
      · exact ⟨_, _, .stop hgrid hgo⟩

/-- **The loop stops**, from wherever it has come to, and when it does, the archive has as many
sequences as were asked for, or fewer and the budget is spent. -/
theorem numTestsLoop_stops (parts : EvolutionParts)
    (simulate : SimulatedSequence → RandomSimulatorResult) (seed : BitVec 64)
    (hmax : maxIterations numTests = some maxIters) :
    (∀ past (o : Orchestrator parts), Trace EvolveStep (.start parts seed) past o →
      ∃ rest o', NumTestsLoop simulate numTests maxIters past.length o rest o') ∧
      ∀ iterations (o : Orchestrator parts) grid,
        NumTestsLoop simulate numTests maxIters 0 (.start parts seed) iterations o →
          Lists grid o.archive → grid.length ≤ numTests ∧ iterations.length ≤ numTests * 100 ∧
            (grid.length < numTests → iterations.length = numTests * 100) :=
  ⟨fun past _ h => exists_numTestsLoop h past.length, fun _ _ _ hloop hgrid =>
    hloop.bounds_start hmax hgrid⟩

theorem numTestsLoop_stops_one : ∃ is o, NumTestsLoop (fun _ => resultOfA) 1 100 0
    (.start oneWordParts 12345) is o ∧ is.length ≤ 100 := by
  have hmax : maxIterations 1 = some 100 := by decide
  have hstops := numTestsLoop_stops oneWordParts (fun _ => resultOfA) 12345 hmax
  obtain ⟨is, o, hloop⟩ := hstops.1 [] _ (.nil _)
  obtain ⟨grid, hgrid⟩ := exists_lists hloop.trace
  exact ⟨is, o, hloop, (hstops.2 is o grid hloop hgrid).2.1⟩

/-! ### The database that is written -/

/-- The sequences of the archive, sorted by their text. -/
structure IsExported (o : Orchestrator parts) (sortedSeqs : List SimulatedSequence) : Prop where
  bins : ∃ grid, Lists grid o.archive ∧ sortedSeqs.Perm (grid.map Prod.snd)
  sorted : sortedSeqs.Pairwise fun a b => a.assemblyText ≤ b.assemblyText

/-- `Database`. -/
structure Database where
  masterSeed : BitVec 64
  executionLimit : BitVec 64
  testSequences : List SimulatedSequence

/-- A database that the fuzzer may write after these iterations, when it is asked for a number of
tests. -/
def IsOutput (parts : EvolutionParts) (simulate : SimulatedSequence → RandomSimulatorResult)
    (numTests : ℕ) (seed : BitVec 32) (maxInstr : BitVec 64) (iterations : List Iteration)
    (db : Database) : Prop :=
  0 < numTests ∧ ∃ maxIters o, maxIterations numTests = some maxIters ∧
    NumTestsLoop simulate numTests maxIters 0 (.start parts (seed.setWidth 64)) iterations o ∧
      IsExported o db.testSequences ∧ db.masterSeed = seed.setWidth 64 ∧
        db.executionLimit = maxInstr

/-- **The best of the offers**: a bin for each descriptor, with the first best offer for it as its
populate function leaves it. -/
structure BestBins (offers : List (Offer SimulatedSequence Unit)) (bins : Grid) : Prop where
  nodup : (bins.map Prod.fst).Nodup
  complete : ∀ o ∈ offers, ∃ s, (o.descriptor, s) ∈ bins
  firstBest : ∀ k s, (k, s) ∈ bins → ∃ front o back, offers = front ++ o :: back ∧
    FirstBest k front o back ∧ s = (o.populated ()).1

/-- The bins at the end of a run. -/
theorem bestBins_of_lists {seed : BitVec 64} {iterations : List Iteration} {o : Orchestrator parts}
    {bins : Grid} (h : Trace EvolveStep (.start parts seed) iterations o)
    (hbins : Lists bins o.archive) : BestBins (iterations.map Iteration.offer) bins where
  nodup := hbins.1
  complete := by
    intro offer hmem
    have hbest := holdsBest_addAll () (iterations.map Iteration.offer) offer.descriptor
    rw [HoldsBest, archive_of_evolution h] at hbest
    rcases hbest with ⟨hnone, -⟩ | ⟨front, best, back, -, -, hseq, -⟩
    · exact absurd rfl (hnone offer hmem)
    · exact ⟨_, (hbins.2 _ _).2 hseq⟩
  firstBest := by
    intro k s hmem
    have hseq := (hbins.2 k s).1 hmem
    have hbest := holdsBest_addAll () (iterations.map Iteration.offer) k
    rw [HoldsBest, archive_of_evolution h] at hbest
    rcases hbest with ⟨-, hempty, -⟩ | ⟨front, best, back, hoffers, hbest, hseq', -⟩
    · rw [hseq] at hempty
      cases hempty
    · rw [hseq] at hseq'
      exact ⟨front, best, back, hoffers, hbest, Option.some.inj hseq'⟩

/-- **The database has the first best sequence of every descriptor**, whatever the order of the
hash table and whatever the sort does with equal texts. -/
theorem output_bestBins {seed : BitVec 32} {maxInstr : BitVec 64} {iterations : List Iteration}
    {db : Database} (h : IsOutput parts simulate numTests seed maxInstr iterations db) :
    (∃ bins, BestBins (iterations.map Iteration.offer) bins ∧
        db.testSequences.Perm (bins.map Prod.snd)) ∧
      (db.testSequences.Pairwise fun a b => a.assemblyText ≤ b.assemblyText) ∧
      db.testSequences.length ≤ numTests ∧
      (db.testSequences.length < numTests → iterations.length = numTests * 100) ∧
      ∀ s ∈ db.testSequences, IsArchived parts s.toCompiledSequence := by
  obtain ⟨-, maxIters, o, hmax, hloop, ⟨⟨bins, hbins, hperm⟩, hsorted⟩, -, -⟩ := h
  obtain ⟨hsize, -, hspent⟩ := hloop.bounds_start hmax hbins
  have hlength : db.testSequences.length = bins.length := by rw [hperm.length_eq, List.length_map]
  refine ⟨⟨bins, bestBins_of_lists hloop.trace hbins, hperm⟩, hsorted, hlength.trans_le hsize,
    fun hlt => hspent (hlength ▸ hlt), ?_⟩
  intro s hs
  obtain ⟨⟨k, s'⟩, hmem, rfl⟩ := List.mem_map.1 (hperm.mem_iff.1 hs)
  exact allArchived_of_evolution hloop.trace k s' ((hbins.2 k s').1 hmem)

end Fuzzer

/-- One sequence is asked for. -/
theorem output_bestBins_one : ∃ iterations db bins,
    IsOutput oneWordParts (fun _ => resultOfA) 1 12345 150000 iterations db ∧
      BestBins (iterations.map Iteration.offer) bins ∧
        db.testSequences.Perm (bins.map Prod.snd) := by
  have hstart : Trace EvolveStep (.start oneWordParts 12345) [] (.start oneWordParts 12345) :=
    .nil _
  obtain ⟨is, o, hloop⟩ :=
    @exists_numTestsLoop oneWordParts (fun _ => resultOfA) 1 100 _ _ _ hstart 0
  obtain ⟨grid, hgrid⟩ := exists_lists hloop.trace
  have hsize : (grid.map Prod.snd).length ≤ 1 :=
    (List.length_map _).trans_le (hloop.bounds_start (by decide) hgrid).1
  have hsorted : (grid.map Prod.snd).Pairwise fun a b => a.assemblyText ≤ b.assemblyText := by
    match grid.map Prod.snd, hsize with
    | [], _ => exact List.Pairwise.nil
    | [s], _ => exact List.pairwise_singleton _ s
  have houtput : IsOutput oneWordParts (fun _ => resultOfA) 1 12345 150000 is
      ⟨12345, 150000, grid.map Prod.snd⟩ :=
    ⟨Nat.one_pos, 100, o, by decide, hloop, ⟨⟨grid, hgrid, List.Perm.refl _⟩, hsorted⟩, rfl, rfl⟩
  obtain ⟨bins, hbins, hperm⟩ := (output_bestBins houtput).1
  exact ⟨is, _, bins, houtput, hbins, hperm⟩

end CoralNpu
