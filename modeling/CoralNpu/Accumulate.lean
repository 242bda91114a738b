/-
**Accumulators.**

An accumulator gives a value to every cell, and a loop adds to its cells.  Accumulators are added
cell by cell, so that a loop, also one of loops, adds the sum of what its turns add.  A turn may be
refused, and the loop with it.  A loop may also set cells, each in one turn.

Main results:

* `Accumulate.foldl_add`, `Accumulate.foldlM_add` — **what a loop adds**, and when it is refused;
* `Accumulate.sum_single_apply`, `Accumulate.sum_single_apply_of_forall_ne` — turns that add to
  different cells;
* `Accumulate.foldl_set` — what a loop sets;
* `Accumulate.foldlM_range'` — **what a loop keeps** whose turns may be refused;
* `Accumulate.sum_range_mul` — a sum by groups.
-/

import Mathlib.Algebra.BigOperators.Intervals
import Mathlib.Algebra.BigOperators.Pi
import Mathlib.Data.BitVec

set_option relaxedAutoImplicit false
set_option autoImplicit false

namespace Accumulate

open Finset

/-! ### Loops -/

/-- What a loop sets, whose turns set different cells. -/
theorem foldl_set {κ α : Type} {step : (κ → α) → ℕ → κ → α} (p : κ → Prop) [DecidablePred p]
    (turn : κ → ℕ) (new : κ → α)
    (h : ∀ acc k c, step acc k c = if p c ∧ turn c = k then new c else acc c) (n : ℕ)
    (acc : κ → α) (c : κ) :
    (List.range n).foldl step acc c = if p c ∧ turn c < n then new c else acc c := by
  induction n with
  | zero => simp
  | succ n ih =>
      rw [List.range_succ, List.foldl_append, List.foldl_cons, List.foldl_nil, h, ih]
      by_cases hlast : p c ∧ turn c = n
      · rw [if_pos hlast, if_pos ⟨hlast.1, by omega⟩]
      · rw [if_neg hlast]
        refine if_congr (and_congr_right fun hp => ?_) rfl rfl
        have hne : turn c ≠ n := fun heq => hlast ⟨hp, heq⟩
        omega

/-- **What a loop keeps whose turns may be refused.** -/
theorem foldlM_range' {σ : Type} {step : σ → ℕ → Option σ} {P : ℕ → σ → Prop} {ok : ℕ → Prop}
    {a : ℕ} {s₀ : σ} (hinit : P a s₀)
    (hstep : ∀ k s, a ≤ k → P k s →
      (ok k → ∃ s', step s k = some s' ∧ P (k + 1) s') ∧ (¬ ok k → step s k = none)) (n : ℕ) :
    ((∀ k, a ≤ k → k < a + n → ok k) →
      ∃ s, (List.range' a n).foldlM step s₀ = some s ∧ P (a + n) s) ∧
    (¬ (∀ k, a ≤ k → k < a + n → ok k) → (List.range' a n).foldlM step s₀ = none) := by
  induction n with
  | zero =>
    exact ⟨fun _ => ⟨s₀, rfl, hinit⟩,
      fun hnot => absurd (fun k hle hlt => absurd hlt hle.not_gt) hnot⟩
  | succ n ih =>
      have hfold : (List.range' a (n + 1)).foldlM step s₀ =
          ((List.range' a n).foldlM step s₀).bind fun s => step s (a + n) := by
        rw [List.range'_1_concat, List.foldlM_append]
        simp
      rw [hfold]
      by_cases hbefore : ∀ k, a ≤ k → k < a + n → ok k
      · obtain ⟨s, hs, hP⟩ := ih.1 hbefore
        obtain ⟨hok, hrefused⟩ := hstep (a + n) s (Nat.le_add_right ..) hP
        rw [hs, Option.bind_some]
        refine ⟨fun hall => hok (hall _ (Nat.le_add_right ..) (by omega)),
          fun hnot => hrefused fun hlast => ?_⟩
        refine hnot fun k hle hlt => ?_
        rcases Nat.lt_succ_iff_lt_or_eq.1 hlt with hlt | rfl
        · exact hbefore k hle hlt
        · exact hlast
      · rw [ih.2 hbefore, Option.bind_none]
        exact ⟨fun hall => absurd (fun k hle hlt => hall k hle (by omega)) hbefore, fun _ => rfl⟩

section Loops

variable {A : Type} [AddCommMonoid A]

/-- **What a loop adds.** -/
theorem foldl_add {step : A → ℕ → A} {d : ℕ → A} (h : ∀ acc k, step acc k = acc + d k)
    (n : ℕ) (acc : A) : (List.range n).foldl step acc = acc + ∑ k ∈ range n, d k := by
  induction n with
  | zero => simp
  | succ n ih =>
      rw [List.range_succ, List.foldl_append, List.foldl_cons, List.foldl_nil, ih, h,
        sum_range_succ, add_assoc]

/-- **What a loop adds whose turns may be refused.** -/
theorem foldlM_add {step : A → ℕ → Option A} {d : ℕ → A} {ok : ℕ → A → Prop}
    [∀ k, DecidablePred (ok k)]
    (h : ∀ acc k, step acc k = if ok k acc then some (acc + d k) else none) (n : ℕ) (acc : A) :
    (List.range n).foldlM step acc =
      if ∀ k < n, ok k (acc + ∑ j ∈ range k, d j) then some (acc + ∑ k ∈ range n, d k)
        else none := by
  induction n with
  | zero => simp
  | succ n ih =>
      rw [List.range_succ, List.foldlM_append, ih]
      simp only [Nat.forall_lt_succ_right]
      by_cases hbefore : ∀ k < n, ok k (acc + ∑ j ∈ range k, d j)
      · rw [if_pos hbefore]
        simp only [List.foldlM_cons, List.foldlM_nil, Option.bind_eq_bind, Option.bind_some, h]
        by_cases hlast : ok n (acc + ∑ j ∈ range n, d j)
        · rw [if_pos hlast, if_pos ⟨hbefore, hlast⟩, sum_range_succ, add_assoc]
          rfl
        · rw [if_neg hlast, if_neg fun hall => hlast hall.2]
          rfl
      · rw [if_neg hbefore, if_neg fun hall => hbefore hall.1]
        rfl

end Loops

/-! ### Cells -/

section Cells

variable {α ι M : Type} [DecidableEq ι] [AddCommMonoid M] {P : Finset α} {cell : α → ι}

/-- A cell that one turn adds to. -/
theorem sum_single_apply (hinj : Set.InjOn cell P) (term : α → M) {p : α} (hp : p ∈ P) :
    (∑ q ∈ P, (Pi.single (cell q) (term q) : ι → M)) (cell p) = term p := by
  rw [Finset.sum_apply, sum_eq_single p]
  · exact Pi.single_eq_same ..
  · intro q hq hne
    exact Pi.single_eq_of_ne (fun heq => hne (hinj hq hp heq.symm)) _
  · exact fun hnot => absurd hp hnot

/-- A cell that no turn adds to. -/
theorem sum_single_apply_of_forall_ne (term : α → M) {c : ι} (h : ∀ q ∈ P, c ≠ cell q) :
    (∑ q ∈ P, (Pi.single (cell q) (term q) : ι → M)) c = 0 := by
  rw [Finset.sum_apply]
  exact sum_eq_zero fun q hq => Pi.single_eq_of_ne (h q hq) _

/-- Several values for one cell. -/
theorem sum_single (P : Finset α) (c : ι) (term : α → M) :
    ∑ q ∈ P, (Pi.single c (term q) : ι → M) = Pi.single c (∑ q ∈ P, term q) :=
  (map_sum (AddMonoidHom.single (fun _ => M) c) term P).symm

/-- One cell is added to. -/
theorem update_add (acc : ι → M) (c : ι) (x : M) :
    Function.update acc c (acc c + x) = acc + Pi.single c x := by
  funext c'
  rcases eq_or_ne c' c with rfl | hne
  · rw [Function.update_self, Pi.add_apply, Pi.single_eq_same]
  · rw [Function.update_of_ne hne, Pi.add_apply, Pi.single_eq_of_ne hne, add_zero]

end Cells

/-! ### Sums -/

/-- A sum by groups of `n`. -/
theorem sum_range_mul {M : Type} [AddCommMonoid M] (f : ℕ → M) (m n : ℕ) :
    ∑ j ∈ range (m * n), f j = ∑ w ∈ range m, ∑ b ∈ range n, f (w * n + b) := by
  induction m with
  | zero => simp
  | succ m ih => rw [Nat.succ_mul, sum_range_add, ih, sum_range_succ]

/-- Words of a sum. -/
theorem ofInt_sum {α : Type} (w : ℕ) (s : Finset α) (f : α → ℤ) :
    BitVec.ofInt w (∑ i ∈ s, f i) = ∑ i ∈ s, BitVec.ofInt w (f i) :=
  map_sum (AddMonoidHom.mk' (BitVec.ofInt w) BitVec.ofInt_add) f s

end Accumulate
