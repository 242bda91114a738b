/-
**The last writer in a history.**

The events of a history write to resources.  At any time a resource has at most one last writer, and
a table in which every event enters its own position for what it writes names it.

Main definitions:

* `LastWriter.IsLastWriter` — the position of the last event that writes to a resource;
* `LastWriter.countReads` — the reads of a history whose last writer is a given distance away.

Main results:

* `LastWriter.isLastWriter_append_singleton` — the last writer after one event more;
* `LastWriter.countReads_append_singleton` — the reads of one event more.
-/

import Mathlib

set_option relaxedAutoImplicit false
set_option autoImplicit false

namespace LastWriter

variable {α ρ : Type} (reads : α → List ρ) (writes : α → ρ → Bool)

/-- The event at position `j` writes to a resource. -/
def writesAt (history : List α) (r : ρ) (j : ℕ) : Bool := history[j]?.any (writes · r)

/-- The event at position `j` is the last one that writes to the resource. -/
def IsLastWriter (history : List α) (r : ρ) (j : ℕ) : Prop :=
  writesAt writes history r j = true ∧
    ∀ k < history.length, j < k → writesAt writes history r k = false

instance instDecidableIsLastWriter (history : List α) (r : ρ) (j : ℕ) :
    Decidable (IsLastWriter writes history r j) :=
  inferInstanceAs (Decidable (_ ∧ ∀ _ < _, _))

/-- The reads of the event at position `i` whose last writer is `d` positions earlier. -/
def readsAt (d : ℕ) (history : List α) (i : ℕ) : ℕ :=
  history[i]?.elim 0 fun x =>
    (reads x).countP fun r => decide (d ≤ i ∧ IsLastWriter writes (history.take i) r (i - d))

/-- The reads of a history whose last writer is `d` positions earlier. -/
def countReads (d : ℕ) (history : List α) : ℕ :=
  ((List.range history.length).map (readsAt reads writes d history)).sum

variable {writes}

theorem writesAt_append_left {history : List α} (events : List α) (r : ρ) {j : ℕ}
    (h : j < history.length) :
    writesAt writes (history ++ events) r j = writesAt writes history r j := by
  rw [writesAt, List.getElem?_append_left h, writesAt]

theorem writesAt_length (history : List α) (x : α) (r : ρ) :
    writesAt writes (history ++ [x]) r history.length = writes x r := by
  rw [writesAt, List.getElem?_concat_length, Option.any_some]

theorem lt_of_writesAt {history : List α} {r : ρ} {j : ℕ} (h : writesAt writes history r j = true) :
    j < history.length := by
  by_contra hnot
  rw [writesAt, List.getElem?_eq_none (by omega)] at h
  cases h

/-- **The last writer after one event more.** -/
theorem isLastWriter_append_singleton (history : List α) (x : α) (r : ρ) (j : ℕ) :
    IsLastWriter writes (history ++ [x]) r j ↔
      if writes x r then j = history.length else IsLastWriter writes history r j := by
  have hlength : (history ++ [x]).length = history.length + 1 := by
    rw [List.length_append, List.length_singleton]
  constructor
  · rintro ⟨hwrites, hlast⟩
    have hlt := lt_of_writesAt hwrites
    rw [hlength] at hlt hlast
    split
    · rename_i hx
      by_contra hne
      have hfalse := hlast history.length (by omega) (by omega)
      rw [writesAt_length, hx] at hfalse
      cases hfalse
    · rename_i hx
      have hbefore : j < history.length := by
        by_contra hnot
        rw [show j = history.length by omega, writesAt_length] at hwrites
        exact hx hwrites
      rw [writesAt_append_left [x] r hbefore] at hwrites
      refine ⟨hwrites, fun k hk hjk => ?_⟩
      rw [← writesAt_append_left [x] r hk]
      exact hlast k (by omega) hjk
  · split
    · rename_i hx
      rintro rfl
      refine ⟨by rw [writesAt_length, hx], fun k hk hlt => ?_⟩
      omega
    · rename_i hx
      rintro ⟨hwrites, hlast⟩
      have hlt := lt_of_writesAt hwrites
      refine ⟨by rw [writesAt_append_left [x] r hlt, hwrites], fun k hk hjk => ?_⟩
      rw [hlength] at hk
      rcases Nat.lt_succ_iff_lt_or_eq.1 hk with hk | rfl
      · rw [writesAt_append_left [x] r hk]
        exact hlast k hk hjk
      · rw [writesAt_length]
        exact Bool.eq_false_iff.2 hx

/-- Nothing has been written in an empty history. -/
theorem not_isLastWriter_nil (r : ρ) (j : ℕ) : ¬ IsLastWriter writes ([] : List α) r j := by
  rintro ⟨hwrites, -⟩
  exact Nat.not_lt_zero _ (lt_of_writesAt hwrites)

theorem readsAt_append_left (d : ℕ) {history : List α} (events : List α) {i : ℕ}
    (h : i < history.length) :
    readsAt reads writes d (history ++ events) i = readsAt reads writes d history i := by
  rw [readsAt, List.getElem?_append_left h, List.take_append_of_le_length (by omega), readsAt]

/-- **The reads of one event more.** -/
theorem countReads_append_singleton (d : ℕ) (history : List α) (x : α) :
    countReads reads writes d (history ++ [x]) = countReads reads writes d history +
      (reads x).countP fun r =>
        decide (d ≤ history.length ∧ IsLastWriter writes history r (history.length - d)) := by
  have hlast : readsAt reads writes d (history ++ [x]) history.length = (reads x).countP fun r =>
      decide (d ≤ history.length ∧ IsLastWriter writes history r (history.length - d)) := by
    rw [readsAt, List.getElem?_concat_length, List.take_left, Option.elim_some]
  rw [countReads, List.length_append, List.length_singleton, List.range_succ, List.map_append,
    List.sum_append, List.map_singleton, List.sum_singleton, hlast, countReads]
  congr 2
  apply List.map_congr_left
  intro i hi
  exact readsAt_append_left reads d [x] (List.mem_range.1 hi)

end LastWriter
