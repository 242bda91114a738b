/-
**Runs of a machine with finitely many states.**

A machine takes steps until it is in a state without a successor.  When it has finitely many states,
it comes to such a state exactly when no state comes up twice.

Main definitions:

* `FiniteRun.after` — the state after a number of steps;
* `FiniteRun.Completes` — the machine comes to a state without a successor;
* `FiniteRun.Repeats` — some state comes up twice.

Main results:

* `FiniteRun.completes_iff_not_repeats` — **it ends exactly when no state comes up twice**.
-/

import Mathlib.Data.Fintype.Pigeonhole

set_option relaxedAutoImplicit false
set_option autoImplicit false

namespace FiniteRun

variable {σ : Type} (step : σ → Option σ)

/-- The state after `n` steps, if the machine takes that many. -/
def after : ℕ → σ → Option σ
  | 0, s => some s
  | n + 1, s => (step s).bind (after n)

/-- The machine comes to the state `t` and takes no step there. -/
inductive Completes : σ → σ → Prop
  | stop {s : σ} (h : step s = none) : Completes s s
  | next {s s' t : σ} (h : step s = some s') (h' : Completes s' t) : Completes s t

/-- Some state comes up twice. -/
def Repeats (s : σ) : Prop :=
  ∃ i j t, i < j ∧ after step i s = some t ∧ after step j s = some t

variable {step}

theorem after_add (i k : ℕ) (s : σ) :
    after step (i + k) s = (after step i s).bind (after step k) := by
  induction i generalizing s with
  | zero => rw [Nat.zero_add, after, Option.bind_some]
  | succ i ih =>
      rw [Nat.succ_add, after, after, Option.bind_assoc]
      congr 1
      funext s'
      exact ih s'

/-- A run that ends has a length. -/
theorem Completes.exists_after {s t : σ} (h : Completes step s t) :
    ∃ n, after step n s = some t ∧ step t = none := by
  induction h with
  | stop h => exact ⟨0, rfl, h⟩
  | next h _ ih =>
      obtain ⟨n, hn, hnone⟩ := ih
      refine ⟨n + 1, ?_, hnone⟩
      rw [after, h, Option.bind_some, hn]

/-- A run that cannot be continued ends. -/
theorem completes_of_after_eq_none {n : ℕ} {s : σ} (h : after step n s = none) :
    ∃ t, Completes step s t := by
  induction n generalizing s with
  | zero => cases h
  | succ n ih =>
      cases hs : step s with
      | none => exact ⟨s, .stop hs⟩
      | some s' =>
          rw [after, hs, Option.bind_some] at h
          obtain ⟨t, ht⟩ := ih h
          exact ⟨t, .next hs ht⟩

/-- From a state that comes up again, the machine goes round for ever. -/
theorem after_mul_of_cycle {t : σ} {k : ℕ} (h : after step k t = some t) (m : ℕ) :
    after step (m * k) t = some t := by
  induction m with
  | zero => rw [Nat.zero_mul, after]
  | succ m ih => rw [Nat.succ_mul, after_add, ih, Option.bind_some, h]

/-- A machine in a state that comes up again takes any number of steps. -/
theorem exists_after_of_cycle {t : σ} {k : ℕ} (hk : 0 < k) (h : after step k t = some t) (n : ℕ) :
    ∃ u, after step n t = some u := by
  cases hn : after step n t with
  | some u => exact ⟨u, rfl⟩
  | none =>
      have hle : n ≤ n * k := Nat.le_mul_of_pos_right n hk
      have hcycle := after_mul_of_cycle h n
      rw [show n * k = n + (n * k - n) by omega, after_add, hn] at hcycle
      cases hcycle

/-- **A machine with finitely many states comes to an end exactly when no state comes up twice.** -/
theorem completes_iff_not_repeats [Finite σ] (s : σ) :
    (∃ t, Completes step s t) ↔ ¬ Repeats step s := by
  constructor
  · rintro ⟨t, ht⟩ ⟨i, j, u, hij, hi, hj⟩
    obtain ⟨n, hn, hstop⟩ := ht.exists_after
    have hcycle : after step (j - i) u = some u := by
      rw [show j = i + (j - i) by omega, after_add, hi, Option.bind_some] at hj
      exact hj
    -- one step more than the run has
    obtain ⟨v, hv⟩ := exists_after_of_cycle (by omega) hcycle (n + 1)
    have hlong : after step (i + (n + 1)) s = some v := by
      rw [after_add, hi, Option.bind_some, hv]
    rw [show i + (n + 1) = n + (1 + i) by omega, after_add, hn, Option.bind_some, after_add, after,
      hstop] at hlong
    cases hlong
  · intro hnot
    by_contra hnever
    have hall : ∀ n, ∃ t, after step n s = some t := by
      intro n
      cases hn : after step n s with
      | some t => exact ⟨t, rfl⟩
      | none => exact absurd (completes_of_after_eq_none hn) hnever
    choose state hstate using hall
    obtain ⟨i, j, hne, heq⟩ := Finite.exists_ne_map_eq_of_infinite state
    rcases Nat.lt_or_gt_of_ne hne with hlt | hlt
    · exact hnot ⟨i, j, state i, hlt, hstate i, heq ▸ hstate j⟩
    · exact hnot ⟨j, i, state i, hlt, heq ▸ hstate j, hstate i⟩

end FiniteRun
