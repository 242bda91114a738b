/-
**The behavioural archive.**

The archive keeps one test sequence for each behaviour: the one with the highest fitness offered so
far.  A sequence that is going to be stored is first passed through the caller's populate function,
which may change it and do things of its own; these are a state of the world outside the archive.

Main definitions:

* `CoralNpu.BehavioralArchive` — the grid and the fitness values;
* `CoralNpu.addIfNovel` — `BehavioralArchive::AddIfNovel`, and `CoralNpu.addAll`, several calls;
* `CoralNpu.FirstBest` — an offer is the first of the highest fitness for its bin;
* `CoralNpu.extractDescriptor` — `BehavioralArchive::ExtractDescriptor`, the bin of a summary;
* `CoralNpu.CanonicalBin` — what the bin should be.

Main results:

* `CoralNpu.addIfNovel_cases` — what a call can do;
* `CoralNpu.holdsBest_addAll` — **every bin holds the first best offer**;
* `CoralNpu.addAll_keepsBest` — the archive after any calls;
* `CoralNpu.extractDescriptor_canonicalBin` — **the extracted bin is the canonical one**, in
  whatever order the counts are stored.
-/

import CoralNpu.AsciiText
import Mathlib.Data.Char
import Mathlib.Data.List.Induction
import Mathlib.Data.List.Lex
import Mathlib.Data.List.Sort
import Mathlib.Logic.Function.Basic
import Mathlib.Order.Bounds.Basic

set_option relaxedAutoImplicit false
set_option autoImplicit false

namespace CoralNpu

open AsciiText

-- a test sequence, and what populate functions act on
variable {σ ω : Type}

/-! ### The archive -/

/-- `BehavioralDescriptor`: the name of a bin. -/
structure BehavioralDescriptor where
  detectorName : Text
  deriving DecidableEq

/-- `CoverageSummary`: a count for each key. -/
structure CoverageSummary where
  entries : List (Text × ℕ)
  nodup : (entries.map Prod.fst).Nodup

/-- The number of entries. -/
def CoverageSummary.size (summary : CoverageSummary) : ℕ := summary.entries.length

/-- `BehavioralArchive`, with its two maps. -/
structure BehavioralArchive (σ : Type) where
  archive : BehavioralDescriptor → Option σ
  fitnessMap : BehavioralDescriptor → Option ℕ

/-- A new archive. -/
def BehavioralArchive.empty : BehavioralArchive σ := ⟨fun _ => none, fun _ => none⟩

/-- The arguments of a call of `AddIfNovel`.  A populate function may be missing. -/
structure Offer (σ ω : Type) where
  descriptor : BehavioralDescriptor
  seq : σ
  summary : CoverageSummary
  populateFn : Option (σ → ω → σ × ω)

/-- The fitness of an offer. -/
def Offer.fitness (o : Offer σ ω) : ℕ := o.summary.size

/-- The sequence as the populate function leaves it, and the world after it. -/
def Offer.populated (o : Offer σ ω) (w : ω) : σ × ω :=
  match o.populateFn with
  | some populate => populate o.seq w
  | none => (o.seq, w)

/-- An archive and the world around it. -/
structure Populating (σ ω : Type) where
  archive : BehavioralArchive σ
  world : ω

/-- `store_seq`. -/
def storeSeq (o : Offer σ ω) (s : Populating σ ω) : Populating σ ω :=
  let (seq, world) := o.populated s.world
  { archive :=
      { archive := Function.update s.archive.archive o.descriptor (some seq)
        fitnessMap := Function.update s.archive.fitnessMap o.descriptor (some o.fitness) }
    world := world }

/-- `AddIfNovel`.  Reading the fitness of a bin that has none makes it zero. -/
def addIfNovel (o : Offer σ ω) (s : Populating σ ω) : Bool × Populating σ ω :=
  match s.archive.archive o.descriptor with
  | none => (true, storeSeq o s)
  | some _ =>
      let best := (s.archive.fitnessMap o.descriptor).getD 0
      let read := { s with archive :=
        { s.archive with
          fitnessMap := Function.update s.archive.fitnessMap o.descriptor (some best) } }
      if o.fitness > best then (true, storeSeq o read) else (false, read)

/-- Several calls, one after the other. -/
def addAll (offers : List (Offer σ ω)) (s : Populating σ ω) : Populating σ ω :=
  offers.foldl (fun s o => (addIfNovel o s).2) s

theorem addAll_append (offers offers' : List (Offer σ ω)) (s : Populating σ ω) :
    addAll (offers ++ offers') s = addAll offers' (addAll offers s) := List.foldl_append

/-! ### One call -/

/-- The two maps have the same keys. -/
def SameKeys (a : BehavioralArchive σ) : Prop :=
  ∀ k, (a.archive k).isSome ↔ (a.fitnessMap k).isSome

/-- The offer is better than what its bin holds. -/
def Offer.IsNovel (o : Offer σ ω) (a : BehavioralArchive σ) : Prop :=
  a.archive o.descriptor = none ∨ ∃ best, a.fitnessMap o.descriptor = some best ∧ best < o.fitness

/-- **What a call can do**: store the sequence and return true, or nothing and return false. -/
theorem addIfNovel_cases {s : Populating σ ω} (h : SameKeys s.archive) (o : Offer σ ω) :
    (o.IsNovel s.archive ∧ addIfNovel o s = (true, storeSeq o s)) ∨
      (¬ o.IsNovel s.archive ∧ addIfNovel o s = (false, s)) := by
  cases hseq : s.archive.archive o.descriptor with
  | none => exact Or.inl ⟨Or.inl hseq, by rw [addIfNovel, hseq]⟩
  | some seq =>
      obtain ⟨best, hbest⟩ := Option.isSome_iff_exists.1 ((h o.descriptor).1 (by rw [hseq]; rfl))
      -- the value read is there already
      have hread : Function.update s.archive.fitnessMap o.descriptor (some best) =
          s.archive.fitnessMap := by
        rw [← hbest, Function.update_eq_self]
      by_cases hfitness : o.fitness > best
      · refine Or.inl ⟨Or.inr ⟨best, hbest, hfitness⟩, ?_⟩
        simp only [addIfNovel, hseq, hbest, Option.getD_some, if_pos hfitness, hread]
      · refine Or.inr ⟨?_, by simp only [addIfNovel, hseq, hbest, Option.getD_some,
          if_neg hfitness, hread]⟩
        rintro (hnone | ⟨best', hbest', hlt⟩)
        · rw [hseq] at hnone
          cases hnone
        · rw [hbest] at hbest'
          cases hbest'
          exact hfitness hlt

theorem sameKeys_storeSeq {s : Populating σ ω} (h : SameKeys s.archive) (o : Offer σ ω) :
    SameKeys (storeSeq o s).archive := by
  intro k
  by_cases hk : k = o.descriptor
  · subst hk
    simp [storeSeq]
  · simpa [storeSeq, hk] using h k

theorem sameKeys_addIfNovel {s : Populating σ ω} (h : SameKeys s.archive) (o : Offer σ ω) :
    SameKeys (addIfNovel o s).2.archive := by
  rcases addIfNovel_cases h o with ⟨-, hcall⟩ | ⟨-, hcall⟩
  · rw [hcall]
    exact sameKeys_storeSeq h o
  · rw [hcall]
    exact h

/-- The two maps have the same keys after any calls. -/
theorem sameKeys_addAll {s : Populating σ ω} (h : SameKeys s.archive) (offers : List (Offer σ ω)) :
    SameKeys (addAll offers s).archive := by
  induction offers generalizing s with
  | nil => exact h
  | cons o offers ih => exact ih (sameKeys_addIfNovel h o)

theorem sameKeys_empty : SameKeys (BehavioralArchive.empty : BehavioralArchive σ) :=
  fun _ => Iff.rfl

/-! ### Runs -/

/-- The offer between `front` and `back` is the first of the highest fitness for the bin `k`. -/
structure FirstBest (k : BehavioralDescriptor) (front : List (Offer σ ω)) (o : Offer σ ω)
    (back : List (Offer σ ω)) : Prop where
  descriptor_eq : o.descriptor = k
  before : ∀ o' ∈ front, o'.descriptor = k → o'.fitness < o.fitness
  after : ∀ o' ∈ back, o'.descriptor = k → o'.fitness ≤ o.fitness

/-- The bin `k` holds the first best offer, populated in the world it was offered in, and nothing
when there was no offer for it. -/
def HoldsBest (s : Populating σ ω) (offers : List (Offer σ ω)) (k : BehavioralDescriptor) : Prop :=
  ((∀ o ∈ offers, o.descriptor ≠ k) ∧ (addAll offers s).archive.archive k = none ∧
      (addAll offers s).archive.fitnessMap k = none) ∨
    ∃ front o back, offers = front ++ o :: back ∧ FirstBest k front o back ∧
      (addAll offers s).archive.archive k = some (o.populated (addAll front s).world).1 ∧
      (addAll offers s).archive.fitnessMap k = some o.fitness

/-- A call that leaves the bin alone, and whose offer does not beat what the bin holds. -/
theorem HoldsBest.concat {s : Populating σ ω} {offers : List (Offer σ ω)} {k : BehavioralDescriptor}
    (h : HoldsBest s offers k) {o : Offer σ ω}
    (harchive : (addAll (offers ++ [o]) s).archive.archive k = (addAll offers s).archive.archive k)
    (hfitness : (addAll (offers ++ [o]) s).archive.fitnessMap k =
      (addAll offers s).archive.fitnessMap k)
    (hbeaten : o.descriptor = k → ∃ best, (addAll offers s).archive.fitnessMap k = some best ∧
      o.fitness ≤ best) : HoldsBest s (offers ++ [o]) k := by
  rw [HoldsBest, harchive, hfitness]
  rcases h with ⟨hnone, hempty, hzero⟩ | ⟨front, o', back, rfl, hbest, hseq, hvalue⟩
  · refine Or.inl ⟨?_, hempty, hzero⟩
    intro o' hmem hk
    rcases List.mem_append.1 hmem with hmem | hmem
    · exact hnone o' hmem hk
    · rw [List.mem_singleton.1 hmem] at hk
      obtain ⟨best, hvalue, -⟩ := hbeaten hk
      rw [hzero] at hvalue
      cases hvalue
  · refine Or.inr ⟨front, o', back ++ [o], by simp, ⟨hbest.descriptor_eq, hbest.before, ?_⟩, hseq,
      hvalue⟩
    intro o'' hmem hk
    rcases List.mem_append.1 hmem with hmem | hmem
    · exact hbest.after o'' hmem hk
    · rw [List.mem_singleton.1 hmem] at hk ⊢
      obtain ⟨best, hvalue', hle⟩ := hbeaten hk
      rw [hvalue] at hvalue'
      cases hvalue'
      exact hle

/-- **Every bin holds the first best offer.** -/
theorem holdsBest_addAll (w : ω) (offers : List (Offer σ ω)) (k : BehavioralDescriptor) :
    HoldsBest ⟨BehavioralArchive.empty, w⟩ offers k := by
  induction offers using List.reverseRecOn with
  | nil => exact Or.inl ⟨fun o hmem => absurd hmem List.not_mem_nil, rfl, rfl⟩
  | append_singleton offers o ih =>
      have hkeys := sameKeys_addAll (s := ⟨BehavioralArchive.empty, w⟩) sameKeys_empty offers
      have hlast : addAll (offers ++ [o]) ⟨BehavioralArchive.empty, w⟩ =
          (addIfNovel o (addAll offers ⟨BehavioralArchive.empty, w⟩)).2 := addAll_append _ _ _
      rcases addIfNovel_cases hkeys o with ⟨hnovel, hcall⟩ | ⟨hnot, hcall⟩
      · rw [hcall] at hlast
        by_cases hk : k = o.descriptor
        · -- the offer is better than all before it
          subst hk
          refine Or.inr ⟨offers, o, [], rfl, ⟨rfl, ?_, by simp⟩, ?_, ?_⟩
          · intro o' hmem hk'
            rcases ih with ⟨hnone, -, -⟩ | ⟨front, best, back, hoffers, hbest, hseq, hvalue⟩
            · exact absurd hk' (hnone o' hmem)
            · have hle : o'.fitness ≤ best.fitness := by
                rw [hoffers] at hmem
                rcases List.mem_append.1 hmem with hmem | hmem
                · exact Nat.le_of_lt (hbest.before o' hmem hk')
                · rcases List.mem_cons.1 hmem with rfl | hmem
                  · exact Nat.le_refl _
                  · exact hbest.after o' hmem hk'
              rcases hnovel with hempty | ⟨value, hvalue', hlt⟩
              · rw [hseq] at hempty
                cases hempty
              · rw [hvalue] at hvalue'
                cases hvalue'
                omega
          · rw [hlast]
            simp [storeSeq]
          · rw [hlast]
            simp [storeSeq]
        · refine ih.concat ?_ ?_ fun hk' => absurd hk'.symm hk
          · rw [hlast]
            simp [storeSeq, hk]
          · rw [hlast]
            simp [storeSeq, hk]
      · rw [hcall] at hlast
        refine ih.concat (by rw [hlast]) (by rw [hlast]) fun hk => ?_
        subst hk
        rw [Offer.IsNovel, not_or] at hnot
        obtain ⟨seq, hseq⟩ := Option.ne_none_iff_exists'.1 hnot.1
        obtain ⟨best, hbest⟩ := Option.isSome_iff_exists.1 ((hkeys _).1 (by rw [hseq]; rfl))
        exact ⟨best, hbest, Nat.le_of_not_lt fun hlt => hnot.2 ⟨best, hbest, hlt⟩⟩

/-- **A call does what it returns**: with true the sequence is populated and stored, with false
nothing happens, and no other bin is touched. -/
structure CallRight (o : Offer σ ω) (s : Populating σ ω) : Prop where
  stored : (addIfNovel o s).1 = true →
    (addIfNovel o s).2.archive.archive o.descriptor = some (o.populated s.world).1 ∧
      (addIfNovel o s).2.archive.fitnessMap o.descriptor = some o.fitness ∧
      (addIfNovel o s).2.world = (o.populated s.world).2
  rejected : (addIfNovel o s).1 = false → (addIfNovel o s).2 = s
  others : ∀ k, k ≠ o.descriptor →
    (addIfNovel o s).2.archive.archive k = s.archive.archive k ∧
      (addIfNovel o s).2.archive.fitnessMap k = s.archive.fitnessMap k

theorem callRight_of_sameKeys {s : Populating σ ω} (h : SameKeys s.archive) (o : Offer σ ω) :
    CallRight o s := by
  rcases addIfNovel_cases h o with ⟨-, hcall⟩ | ⟨-, hcall⟩
  · refine ⟨fun _ => ?_, fun hadded => ?_, fun k hk => ?_⟩
    · rw [hcall]
      simp [storeSeq]
    · rw [hcall] at hadded
      cases hadded
    · rw [hcall]
      simp [storeSeq, hk]
  · refine ⟨fun hadded => ?_, fun _ => by rw [hcall], fun k _ => by rw [hcall]; exact ⟨rfl, rfl⟩⟩
    rw [hcall] at hadded
    cases hadded

/-- A bin that is filled stays filled. -/
theorem ne_none_of_addAll {s : Populating σ ω} (h : SameKeys s.archive) (offers : List (Offer σ ω))
    {k : BehavioralDescriptor} (hk : s.archive.archive k ≠ none) :
    (addAll offers s).archive.archive k ≠ none := by
  induction offers generalizing s with
  | nil => exact hk
  | cons o offers ih =>
      have hrest := ih (sameKeys_addIfNovel h o)
      refine hrest ?_
      rcases addIfNovel_cases h o with ⟨-, hcall⟩ | ⟨-, hcall⟩
      · rw [hcall]
        by_cases hdescriptor : k = o.descriptor
        · subst hdescriptor
          simp [storeSeq]
        · simpa [storeSeq, hdescriptor] using hk
      · rw [hcall]
        exact hk

/-- **The archive keeps the best of every bin**, after any calls on a new archive. -/
theorem addAll_keepsBest (w : ω) (offers : List (Offer σ ω)) :
    let s : Populating σ ω := ⟨BehavioralArchive.empty, w⟩
    SameKeys (addAll offers s).archive ∧
      (∀ front back, offers = front ++ back → ∀ k, (addAll front s).archive.archive k ≠ none →
        (addAll offers s).archive.archive k ≠ none) ∧
      (∀ k, HoldsBest s offers k) ∧
      ∀ front o back, offers = front ++ o :: back → CallRight o (addAll front s) := by
  intro s
  have hkeys (front : List (Offer σ ω)) : SameKeys (addAll front s).archive :=
    sameKeys_addAll sameKeys_empty front
  refine ⟨hkeys offers, ?_, holdsBest_addAll w offers, ?_⟩
  · rintro front back rfl k hk
    rw [addAll_append]
    exact ne_none_of_addAll (hkeys front) back hk
  · rintro front o back -
    exact callRight_of_sameKeys (hkeys front) o

/-! ### The bin of a summary -/

/-- `summary.at`, of a key that is there. -/
def CoverageSummary.at (summary : CoverageSummary) (key : Text) : ℕ :=
  (summary.entries.lookup key).getD 0

/-- `active_detectors`, in the order the summary is iterated. -/
def CoverageSummary.activeDetectors (summary : CoverageSummary) : List Text :=
  (summary.entries.filter fun entry => 0 < entry.2).map Prod.fst

/-- One iteration of the loop that looks for the highest count. -/
def raiseMaxCount (summary : CoverageSummary) (best : ℕ × Text) (key : Text) : ℕ × Text :=
  let count := summary.at key
  if count > best.1 then (count, key) else best

/-- `ExtractDescriptor`. -/
def extractDescriptor (archive : BehavioralArchive σ) (summary : CoverageSummary) :
    BehavioralDescriptor :=
  let activeDetectors := summary.activeDetectors.insertionSort (· ≤ ·)
  match activeDetectors.find? fun detector => (archive.archive ⟨detector⟩).isNone with
  | some detector => ⟨detector⟩
  | none =>
      match (activeDetectors.foldl (raiseMaxCount summary) (0, [])).2, activeDetectors with
      | [], detector :: _ => ⟨detector⟩
      | detectorName, _ => ⟨detectorName⟩

/-- A detector with a positive count. -/
def CoverageSummary.IsActive (summary : CoverageSummary) (name : Text) : Prop :=
  ∃ count, (name, count) ∈ summary.entries ∧ 0 < count

theorem CoverageSummary.at_of_mem {summary : CoverageSummary} {name : Text} {count : ℕ}
    (h : (name, count) ∈ summary.entries) : summary.at name = count := by
  obtain ⟨entries, hnodup⟩ := summary
  rw [CoverageSummary.at]
  induction entries with
  | nil => cases h
  | cons entry entries ih =>
      obtain ⟨key, value⟩ := entry
      rw [List.map_cons, List.nodup_cons] at hnodup
      rcases List.mem_cons.1 h with heq | hmem
      · cases heq
        simp
      · have hne : name ≠ key := by
          rintro rfl
          exact hnodup.1 (List.mem_map.2 ⟨_, hmem, rfl⟩)
        have hbeq : (name == key) = false := by simpa using hne
        simp only [List.lookup_cons, hbeq]
        exact ih hnodup.2 hmem

/-- The counts do not depend on the order of the entries. -/
theorem CoverageSummary.at_perm {summary summary' : CoverageSummary}
    (h : summary'.entries.Perm summary.entries) (name : Text) :
    summary'.at name = summary.at name := by
  cases hlookup : summary.entries.lookup name with
  | none =>
      have hnone : summary'.entries.lookup name = none := by
        rw [List.lookup_eq_none_iff] at hlookup ⊢
        exact fun entry hmem => hlookup entry (h.mem_iff.1 hmem)
      rw [CoverageSummary.at, CoverageSummary.at, hlookup, hnone]
  | some count =>
      have hmem : (name, count) ∈ summary.entries := by
        obtain ⟨front, back, happend, -⟩ := List.lookup_eq_some_iff.1 hlookup
        rw [happend]
        simp
      rw [CoverageSummary.at_of_mem hmem, CoverageSummary.at_of_mem (h.mem_iff.2 hmem)]

theorem CoverageSummary.mem_activeDetectors (summary : CoverageSummary) (name : Text) :
    name ∈ summary.activeDetectors ↔ summary.IsActive name := by
  simp [CoverageSummary.activeDetectors, CoverageSummary.IsActive]

theorem CoverageSummary.IsActive.at_pos {summary : CoverageSummary} {name : Text}
    (h : summary.IsActive name) : 0 < summary.at name := by
  obtain ⟨count, hmem, hpos⟩ := h
  rwa [CoverageSummary.at_of_mem hmem]

/-- The loop has seen the detectors: `best` is the highest count, and the least name that has it. -/
structure HighestCount (summary : CoverageSummary) (detectors : List Text) (best : ℕ × Text) :
    Prop where
  bound : ∀ d ∈ detectors, summary.at d ≤ best.1
  least : ∀ d ∈ detectors, summary.at d = best.1 → best.2 ≤ d
  found : detectors ≠ [] → best.2 ∈ detectors ∧ summary.at best.2 = best.1

/-- **One iteration**, on a detector that is active and comes after the ones seen. -/
theorem HighestCount.raiseMaxCount {summary : CoverageSummary} {detectors : List Text}
    {best : ℕ × Text} (h : HighestCount summary detectors best) {key : Text}
    (hpos : 0 < summary.at key) (hlast : ∀ d ∈ detectors, d ≤ key)
    (hbest : detectors = [] → best.1 = 0) :
    HighestCount summary (detectors ++ [key]) (raiseMaxCount summary best key) := by
  simp only [CoralNpu.raiseMaxCount]
  split
  next hlt =>
    refine ⟨?_, ?_, fun _ => ⟨by simp, rfl⟩⟩
    · intro d hd
      rcases List.mem_append.1 hd with hd | hd
      · exact Nat.le_of_lt (Nat.lt_of_le_of_lt (h.bound d hd) hlt)
      · rw [List.mem_singleton.1 hd]
    · intro d hd heq
      rcases List.mem_append.1 hd with hd | hd
      · -- a detector seen before has a smaller count
        exact absurd heq (Nat.ne_of_lt (Nat.lt_of_le_of_lt (h.bound d hd) hlt))
      · rw [List.mem_singleton.1 hd]
  next hle =>
    have hne : detectors ≠ [] := by
      intro hnil
      have hzero := hbest hnil
      omega
    obtain ⟨hmem, hat⟩ := h.found hne
    refine ⟨?_, ?_, fun _ => ⟨List.mem_append_left _ hmem, hat⟩⟩
    · intro d hd
      rcases List.mem_append.1 hd with hd | hd
      · exact h.bound d hd
      · rw [List.mem_singleton.1 hd]
        exact Nat.le_of_not_lt hle
    · intro d hd heq
      rcases List.mem_append.1 hd with hd | hd
      · exact h.least d hd heq
      · rw [List.mem_singleton.1 hd]
        exact hlast _ hmem

/-- **The whole loop**, over active detectors in ascending order. -/
theorem highestCount_foldl {summary : CoverageSummary} {detectors : List Text}
    (hsorted : detectors.Pairwise (· ≤ ·)) (hactive : ∀ d ∈ detectors, summary.IsActive d) :
    HighestCount summary detectors (detectors.foldl (raiseMaxCount summary) (0, [])) := by
  induction detectors using List.reverseRecOn with
  | nil => exact ⟨by simp, by simp, fun h => absurd rfl h⟩
  | append_singleton detectors key ih =>
      rw [List.pairwise_append] at hsorted
      rw [List.foldl_append]
      refine HighestCount.raiseMaxCount (ih hsorted.1 fun d hd => hactive d (by simp [hd]))
        (hactive key (by simp)).at_pos (fun d hd => hsorted.2.2 d hd key (by simp)) ?_
      rintro rfl
      rfl

/-- The canonical bin of a summary: the least active detector without a bin; when all have one, the
least of the active detectors with the highest count; and no name when no detector is active. -/
structure CanonicalBin (summary : CoverageSummary) (archive : BehavioralArchive σ)
    (bd : BehavioralDescriptor) : Prop where
  unarchived : (∃ name, summary.IsActive name ∧ archive.archive ⟨name⟩ = none) →
    IsLeast {name | summary.IsActive name ∧ archive.archive ⟨name⟩ = none} bd.detectorName
  highest : (∃ name, summary.IsActive name) →
    (∀ name, summary.IsActive name → archive.archive ⟨name⟩ ≠ none) →
    IsLeast {name | summary.IsActive name ∧
      ∀ name', summary.IsActive name' → summary.at name' ≤ summary.at name} bd.detectorName
  empty : bd = ⟨[]⟩ ↔ ∀ name, ¬ summary.IsActive name

section Extract

variable {summary : CoverageSummary} {archive : BehavioralArchive σ}

/-- The detectors the code sorts are the active ones. -/
theorem mem_sortedDetectors (name : Text) :
    name ∈ summary.activeDetectors.insertionSort (· ≤ ·) ↔ summary.IsActive name := by
  rw [List.mem_insertionSort, summary.mem_activeDetectors]

/-- A bin is free: the first free one in ascending order is the least. -/
theorem extractDescriptor_isLeast
    (h : ∃ name, summary.IsActive name ∧ archive.archive ⟨name⟩ = none) :
    IsLeast {name | summary.IsActive name ∧ archive.archive ⟨name⟩ = none}
      (extractDescriptor archive summary).detectorName := by
  obtain ⟨name, hactive, hfree⟩ := h
  have hsorted := List.pairwise_insertionSort (· ≤ ·) summary.activeDetectors
  cases hfind : (summary.activeDetectors.insertionSort (· ≤ ·)).find?
      fun detector => (archive.archive ⟨detector⟩).isNone with
  | none =>
      have hused := List.find?_eq_none.1 hfind name ((mem_sortedDetectors name).2 hactive)
      simp [hfree] at hused
  | some detector =>
      have hbin : extractDescriptor archive summary = ⟨detector⟩ := by
        simp only [extractDescriptor, hfind]
      obtain ⟨hnone, front, back, happend, hfront⟩ := List.find?_eq_some_iff_append.1 hfind
      rw [hbin]
      refine ⟨⟨?_, by simpa using hnone⟩, ?_⟩
      · refine (mem_sortedDetectors detector).1 ?_
        rw [happend]
        simp
      · rintro other ⟨hother, hnone'⟩
        rw [← mem_sortedDetectors, happend] at hother
        rw [happend, List.pairwise_append, List.pairwise_cons] at hsorted
        rcases List.mem_append.1 hother with hmem | hmem
        · -- the detectors in front of it have a bin
          have hused := hfront other hmem
          simp [hnone'] at hused
        · rcases List.mem_cons.1 hmem with rfl | hmem
          · exact le_refl _
          · exact hsorted.2.1.1 other hmem

/-- The loop's name is the least of those with the highest count. -/
theorem isLeast_highestCount (hne : ∃ name, summary.IsActive name) :
    IsLeast {name | summary.IsActive name ∧
        ∀ name', summary.IsActive name' → summary.at name' ≤ summary.at name}
      ((summary.activeDetectors.insertionSort (· ≤ ·)).foldl (raiseMaxCount summary)
        (0, [])).2 := by
  have hloop := highestCount_foldl (List.pairwise_insertionSort (· ≤ ·) summary.activeDetectors)
    fun d hd => (mem_sortedDetectors d).1 hd
  obtain ⟨name, hactive⟩ := hne
  obtain ⟨hmem, hat⟩ := hloop.found (List.ne_nil_of_mem ((mem_sortedDetectors name).2 hactive))
  refine ⟨⟨(mem_sortedDetectors _).1 hmem, fun name' hactive' => ?_⟩, ?_⟩
  · rw [hat]
    exact hloop.bound name' ((mem_sortedDetectors name').2 hactive')
  · rintro name' ⟨hactive', hhighest⟩
    refine hloop.least name' ((mem_sortedDetectors name').2 hactive') (le_antisymm ?_ ?_)
    · exact hloop.bound name' ((mem_sortedDetectors name').2 hactive')
    · rw [← hat]
      exact hhighest _ ((mem_sortedDetectors _).1 hmem)

/-- No bin is free: the fallback's loop decides. -/
theorem extractDescriptor_eq_of_full (hne : ∃ name, summary.IsActive name)
    (hnames : ∀ name, summary.IsActive name → name ≠ [])
    (hfull : ∀ name, summary.IsActive name → archive.archive ⟨name⟩ ≠ none) :
    extractDescriptor archive summary =
      ⟨((summary.activeDetectors.insertionSort (· ≤ ·)).foldl (raiseMaxCount summary)
        (0, [])).2⟩ := by
  have hloop := highestCount_foldl (List.pairwise_insertionSort (· ≤ ·) summary.activeDetectors)
    fun d hd => (mem_sortedDetectors d).1 hd
  have hfind : (summary.activeDetectors.insertionSort (· ≤ ·)).find?
      (fun detector => (archive.archive ⟨detector⟩).isNone) = none := by
    refine List.find?_eq_none.2 fun d hd hnone => ?_
    exact hfull d ((mem_sortedDetectors d).1 hd) (by simpa using hnone)
  obtain ⟨name, hactive⟩ := hne
  have hfound := hloop.found (List.ne_nil_of_mem ((mem_sortedDetectors name).2 hactive))
  have hname := hnames _ ((mem_sortedDetectors _).1 hfound.1)
  simp only [extractDescriptor, hfind]
  split
  next hnil _ => exact absurd hnil hname
  next => rfl

/-- With an active detector the bin is one. -/
theorem isActive_extractDescriptor (hne : ∃ name, summary.IsActive name)
    (hnames : ∀ name, summary.IsActive name → name ≠ []) :
    summary.IsActive (extractDescriptor archive summary).detectorName := by
  by_cases hfree : ∃ name, summary.IsActive name ∧ archive.archive ⟨name⟩ = none
  · exact (extractDescriptor_isLeast hfree).1.1
  · rw [extractDescriptor_eq_of_full hne hnames
      fun name hactive hnone => hfree ⟨name, hactive, hnone⟩]
    exact (isLeast_highestCount hne).1.1

theorem extractDescriptor_of_not_isActive (h : ∀ name, ¬ summary.IsActive name) :
    extractDescriptor archive summary = ⟨[]⟩ := by
  have hnil : summary.activeDetectors.insertionSort (· ≤ ·) = [] :=
    List.eq_nil_iff_forall_not_mem.2 fun d hd => h d ((mem_sortedDetectors d).1 hd)
  simp only [extractDescriptor, hnil, List.find?_nil, List.foldl_nil]

/-- Summaries that store the same counts in another order have the same bin. -/
theorem extractDescriptor_perm {summary' : CoverageSummary}
    (h : summary'.entries.Perm summary.entries) :
    extractDescriptor archive summary' = extractDescriptor archive summary := by
  have hactive : summary'.activeDetectors.insertionSort (· ≤ ·) =
      summary.activeDetectors.insertionSort (· ≤ ·) := by
    refine List.Perm.eq_of_pairwise' (List.pairwise_insertionSort _ _)
      (List.pairwise_insertionSort _ _) ?_
    refine (List.perm_insertionSort _ _).trans
      (List.Perm.trans ?_ (List.perm_insertionSort _ _).symm)
    exact (h.filter _).map _
  have hloop : raiseMaxCount summary' = raiseMaxCount summary := by
    funext best key
    rw [raiseMaxCount, raiseMaxCount, CoverageSummary.at_perm h]
  simp only [extractDescriptor, hactive, hloop]

/-- **The extracted bin is the canonical one**, for every summary of named detectors and every
archive, and the order in which the counts are stored does not matter. -/
theorem extractDescriptor_canonicalBin (summary : CoverageSummary) (archive : BehavioralArchive σ)
    (hnames : ∀ entry ∈ summary.entries, entry.1 ≠ []) :
    CanonicalBin summary archive (extractDescriptor archive summary) ∧
      ∀ summary' : CoverageSummary, summary'.entries.Perm summary.entries →
        extractDescriptor archive summary' = extractDescriptor archive summary := by
  have hname (name : Text) (hactive : summary.IsActive name) : name ≠ [] := by
    obtain ⟨count, hmem, -⟩ := hactive
    exact hnames _ hmem
  refine ⟨⟨extractDescriptor_isLeast, ?_, ?_⟩, fun summary' => extractDescriptor_perm⟩
  · intro hne hfull
    rw [extractDescriptor_eq_of_full hne hname hfull]
    exact isLeast_highestCount hne
  · refine ⟨fun hbin name hactive => ?_, extractDescriptor_of_not_isActive⟩
    have hfound : summary.IsActive (extractDescriptor archive summary).detectorName :=
      isActive_extractDescriptor ⟨name, hactive⟩ hname
    rw [hbin] at hfound
    exact hname _ hfound rfl

/-- Two detectors with the same count, both with a bin: the least name is extracted. -/
theorem extractDescriptor_canonicalBin_tie :
    let summary : CoverageSummary := ⟨[(['b'], 2), (['a'], 2), (['c'], 1)], by decide⟩
    let archive : BehavioralArchive ℕ := ⟨fun _ => some 0, fun _ => some 3⟩
    extractDescriptor archive summary = ⟨['a']⟩ ∧
      CanonicalBin summary archive (extractDescriptor archive summary) :=
  ⟨by decide, (extractDescriptor_canonicalBin _ _ (by decide)).1⟩

end Extract

end CoralNpu
