/-
**Lanes of a word, and rows.**

A word is a row of lanes of a common width, counted from its least significant end.  The same word
can be read in lanes of different widths.  Rows of lanes are appended to one another, interleaved,
and taken apart again.

Main definitions:

* `Lanes.lane` — a lane of a word;
* `Lanes.ofLanes` — the word with given lanes;
* `Lanes.setLane` — the word with one lane replaced;
* `Lanes.appendRow`, `Lanes.interleave`, `Lanes.alternate` — two rows as one, and every other lane
  of a row.

Main results:

* `Lanes.lane_ofLanes` — a lane of the word with given lanes;
* `Lanes.ext_of_lanes` — **a word is given by its lanes**;
* `Lanes.alternate_interleave`, `Lanes.interleave_alternate` — **interleaving and taking apart are
  inverse**.
-/

import Mathlib.Data.BitVec

set_option relaxedAutoImplicit false
set_option autoImplicit false

namespace Lanes

variable {n w v : ℕ}

/-- Lane `i` of a word. -/
def lane (w : ℕ) (x : BitVec n) (i : ℕ) : BitVec w := x.extractLsb' (i * w) w

/-- The word with these lanes. -/
def ofLanes (n w : ℕ) (f : ℕ → BitVec w) : BitVec n :=
  (BitVec.ofBoolListLE ((List.range n).map fun k => (f (k / w)).getLsbD (k % w))).cast (by simp)

/-- The word with one lane replaced. -/
def setLane (w : ℕ) (x : BitVec n) (i : ℕ) (v : BitVec w) : BitVec n :=
  ofLanes n w (Function.update (lane w x) i v)

theorem getLsbD_lane (x : BitVec n) {i j : ℕ} (hj : j < w) :
    (lane w x i).getLsbD j = x.getLsbD (i * w + j) := by
  simp [lane, hj]

theorem getLsbD_ofLanes (f : ℕ → BitVec w) {k : ℕ} (hk : k < n) :
    (ofLanes n w f).getLsbD k = (f (k / w)).getLsbD (k % w) := by
  rw [ofLanes, BitVec.getLsbD_cast, BitVec.getLsbD_ofBoolListLE]
  simp [hk]

/-- **A lane of the word with given lanes.** -/
theorem lane_ofLanes (f : ℕ → BitVec w) {i : ℕ} (hi : i * w + w ≤ n) :
    lane w (ofLanes n w f) i = f i := by
  refine BitVec.eq_of_getLsbD_eq fun j hj => ?_
  have hdiv : (i * w + j) / w = i := by
    rw [Nat.mul_comm, Nat.mul_add_div (by omega), Nat.div_eq_of_lt hj, Nat.add_zero]
  have hmod : (i * w + j) % w = j := by
    rw [Nat.mul_comm, Nat.mul_add_mod, Nat.mod_eq_of_lt hj]
  rw [getLsbD_lane _ hj, getLsbD_ofLanes f (by omega), hdiv, hmod]

/-- **A word is given by its lanes.** -/
theorem ext_of_lanes {m : ℕ} (hn : m * w = n) {x y : BitVec n}
    (h : ∀ i < m, lane w x i = lane w y i) : x = y := by
  refine BitVec.eq_of_getLsbD_eq fun k hk => ?_
  have hw : 0 < w := Nat.pos_of_ne_zero fun hzero => by
    rw [hzero, Nat.mul_zero] at hn
    omega
  have hi : k / w < m := Nat.div_lt_of_lt_mul (by rwa [Nat.mul_comm, hn])
  have hbit := congrArg (fun z => z.getLsbD (k % w)) (h (k / w) hi)
  simp only [getLsbD_lane _ (Nat.mod_lt k hw), Nat.div_add_mod'] at hbit
  exact hbit

/-- The lanes of a word with one replaced. -/
theorem lane_setLane (x : BitVec n) (v : BitVec w) {i j : ℕ} (hj : j * w + w ≤ n) :
    lane w (setLane w x i v) j = if j = i then v else lane w x j := by
  rw [setLane, lane_ofLanes _ hj, Function.update_apply]

/-! ### Rows -/

section Rows

variable {α : Type}

/-- A row of `n` lanes with another behind it. -/
def appendRow (n : ℕ) (a b : ℕ → α) (i : ℕ) : α := if i < n then a i else b (i - n)

/-- Two rows in turn. -/
def interleave (a b : ℕ → α) (i : ℕ) : α := if i % 2 = 1 then b (i / 2) else a (i / 2)

/-- Every other lane, from the first or from the second on. -/
def alternate (r : ℕ) (a : ℕ → α) (i : ℕ) : α := a (2 * i + r)

theorem appendRow_of_lt {n i : ℕ} (a b : ℕ → α) (h : i < n) : appendRow n a b i = a i := if_pos h

theorem appendRow_add (n i : ℕ) (a b : ℕ → α) : appendRow n a b (n + i) = b i := by
  rw [appendRow, if_neg (by omega), Nat.add_sub_cancel_left]

/-- **Taking an interleaved row apart.** -/
theorem alternate_interleave (a b : ℕ → α) :
    alternate 0 (interleave a b) = a ∧ alternate 1 (interleave a b) = b := by
  constructor <;> funext i
  · rw [alternate, interleave, if_neg (by omega)]
    congr 1
    omega
  · rw [alternate, interleave, if_pos (by omega)]
    congr 1
    omega

/-- **Interleaving the parts of a row.** -/
theorem interleave_alternate (a : ℕ → α) : interleave (alternate 0 a) (alternate 1 a) = a := by
  funext i
  rw [interleave]
  split <;> rw [alternate] <;> congr 1 <;> omega

end Rows

end Lanes
