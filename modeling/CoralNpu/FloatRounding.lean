/-
**Rounding to floating-point numbers.**

A number is rounded to a set of numbers: to a neighbour, which the rounding mode chooses.  A
floating-point format numbers its values in order, with infinity as the number behind the largest
finite one, so that neighbours have consecutive indices, and the values of a format with a longer
fraction lie evenly between them.  Overflow and underflow are decided by rounding with an unbounded
exponent.

Main definitions:

* `FloatRounding.Mode`, `FloatRounding.Rounds` — the rounding modes, and what it is to round;
* `FloatRounding.Between` — two neighbours, of which one is even;
* `FloatRounding.Format` — a format, by its fraction bits, its unit and the index of infinity;
* `FloatRounding.precise` — the numbers of some bits, with any exponent;
* `FloatRounding.Format.Overflows`, `FloatRounding.Format.Tiny` — overflow and tininess after
  rounding.

Main results:

* `FloatRounding.Between.rounds_iff` — **which neighbour a number is rounded to**;
* `FloatRounding.rounds_signed_iff` — rounding and signs;
* `FloatRounding.Format.value_widen` — the values of a format with a longer fraction;
* `FloatRounding.Format.rounds_widen` — **rounding to a format with a shorter fraction**;
* `FloatRounding.Format.overflows_widen_iff`, `FloatRounding.Format.tiny_widen_iff` — **overflow and
  tininess**.
-/

import Mathlib.Algebra.Order.Field.Basic
import Mathlib.Algebra.Order.Field.Power
import Mathlib.Algebra.Order.Floor.Ring
import Mathlib.Data.Int.Log
import Mathlib.Data.Rat.Floor
import Mathlib.Order.Bounds.Basic
import Mathlib.Tactic.FieldSimp
import Mathlib.Tactic.Linarith
import Mathlib.Tactic.LinearCombination
import Mathlib.Tactic.Positivity
import Mathlib.Tactic.Ring

set_option relaxedAutoImplicit false
set_option autoImplicit false

namespace FloatRounding

/-! ### Rounding -/

/-- The rounding modes. -/
inductive Mode where
  | nearestEven
  | towardZero
  | down
  | up
  | nearestAway
  deriving DecidableEq

/-- The mode for the magnitude of a number with a sign. -/
def Mode.under (neg : Bool) : Mode → Mode
  | .down => if neg then .up else .down
  | .up => if neg then .down else .up
  | mode => mode

/-- A number with a sign. -/
def signed (neg : Bool) (x : ℚ) : ℚ := if neg then -x else x

/-- `x` is rounded to `y` among the numbers of `S`; of two nearest ones an even one, or the one with
the larger magnitude, is taken. -/
def Rounds (S even : Set ℚ) : Mode → ℚ → ℚ → Prop
  | .nearestEven, x, y => y ∈ S ∧ (∀ z ∈ S, |x - y| ≤ |x - z|) ∧
      ∀ z ∈ S, z ≠ y → |x - z| = |x - y| → y ∈ even
  | .towardZero, x, y => y ∈ S ∧ |y| ≤ |x| ∧ 0 ≤ x * y ∧ ∀ z ∈ S, |z| ≤ |x| → 0 ≤ x * z → |z| ≤ |y|
  | .down, x, y => IsGreatest {z ∈ S | z ≤ x} y
  | .up, x, y => IsLeast {z ∈ S | x ≤ z} y
  | .nearestAway, x, y => y ∈ S ∧ (∀ z ∈ S, |x - y| ≤ |x - z|) ∧
      ∀ z ∈ S, z ≠ y → |x - z| = |x - y| → |z| < |y|

/-- A mode takes the further of two neighbours, for a number that has fraction `t` of the way behind
it; `odd` says that the nearer one is odd. -/
def Mode.Away (odd : Prop) (t : ℚ) : Mode → Prop
  | .nearestEven => 1 / 2 < t ∨ t = 1 / 2 ∧ odd
  | .towardZero => False
  | .down => False
  | .up => 0 < t
  | .nearestAway => 1 / 2 ≤ t

/-- Two neighbours of a set of numbers. -/
structure Between (S even : Set ℚ) (a b : ℚ) (odd : Prop) : Prop where
  nonneg : 0 ≤ a
  lt : a < b
  left : a ∈ S
  right : b ∈ S
  gap : ∀ z ∈ S, z ≤ a ∨ b ≤ z
  even_left : a ∈ even ↔ ¬ odd
  even_right : b ∈ even ↔ odd

section Rounds

variable {S even : Set ℚ} {mode : Mode} {x y a b t : ℚ} {odd : Prop}

/-- A member of the set is rounded to itself. -/
theorem rounds_self (hy : y ∈ S) : Rounds S even mode y y := by
  have hnearest : ∀ z ∈ S, |y - y| ≤ |y - z| := fun z _ => by simp
  have htie : ∀ z ∈ S, z ≠ y → ¬ |y - z| = |y - y| := fun z _ hne heq => by
    rw [sub_self, abs_zero, abs_eq_zero, sub_eq_zero] at heq
    exact hne heq.symm
  cases mode with
  | nearestEven => exact ⟨hy, hnearest, fun z hz hne heq => absurd heq (htie z hz hne)⟩
  | towardZero => exact ⟨hy, le_rfl, mul_self_nonneg y, fun z _ hle _ => hle⟩
  | down => exact ⟨⟨hy, le_rfl⟩, fun z hz => hz.2⟩
  | up => exact ⟨⟨hy, le_rfl⟩, fun z hz => hz.2⟩
  | nearestAway => exact ⟨hy, hnearest, fun z hz hne heq => absurd heq (htie z hz hne)⟩

/-- Rounding does not go below a member of the set. -/
theorem Rounds.le_of_le (h : Rounds S even mode x y) {s : ℚ} (hs : s ∈ S) (h0 : 0 ≤ s)
    (hle : s ≤ x) : s ≤ y := by
  have hx : 0 ≤ x := h0.trans hle
  have hnearest : |x - y| ≤ |x - s| → s ≤ y := fun habs => by
    rw [abs_of_nonneg (sub_nonneg.2 hle)] at habs
    linarith [le_abs_self (x - y)]
  cases mode with
  | nearestEven => exact hnearest (h.2.1 s hs)
  | towardZero =>
      obtain ⟨-, hsmall, hsign, hmax⟩ := h
      rcases hx.eq_or_lt with rfl | hpos
      · rw [abs_zero, abs_nonpos_iff] at hsmall
        rwa [hsmall]
      · have habs := hmax s hs (by rwa [abs_of_nonneg h0, abs_of_nonneg hx]) (mul_nonneg hx h0)
        rwa [abs_of_nonneg h0, abs_of_nonneg ((mul_nonneg_iff_of_pos_left hpos).1 hsign)] at habs
  | down => exact h.2 ⟨hs, hle⟩
  | up => exact hle.trans h.1.2
  | nearestAway => exact hnearest (h.2.1 s hs)

/-- Rounding does not go above a member of the set. -/
theorem Rounds.ge_of_ge (h : Rounds S even mode x y) {s : ℚ} (hs : s ∈ S) (hx : 0 ≤ x)
    (hle : x ≤ s) : y ≤ s := by
  have hnearest : |x - y| ≤ |x - s| → y ≤ s := fun habs => by
    rw [abs_of_nonpos (sub_nonpos.2 hle)] at habs
    linarith [neg_abs_le (x - y)]
  cases mode with
  | nearestEven => exact hnearest (h.2.1 s hs)
  | towardZero =>
      obtain ⟨-, hsmall, -, -⟩ := h
      rw [abs_of_nonneg hx] at hsmall
      exact (le_abs_self y).trans (hsmall.trans hle)
  | down => exact h.1.2.trans hle
  | up => exact h.2 ⟨hs, hle⟩
  | nearestAway => exact hnearest (h.2.1 s hs)

end Rounds

/-! ### Neighbours -/

section Between

variable {S even : Set ℚ} {mode : Mode} {x y a b t : ℚ} {odd : Prop}

/-- A number between two neighbours is not nearer to another member of the set. -/
theorem Between.abs_sub_cases (h : Between S even a b odd) (hax : a ≤ x) (hxb : x ≤ b) {z : ℚ}
    (hz : z ∈ S) : z = a ∨ z = b ∨ x - a < |x - z| ∧ z < a ∨ b - x < |x - z| ∧ b < z := by
  rcases h.gap z hz with hza | hbz
  · rcases hza.eq_or_lt with rfl | hlt
    · exact Or.inl rfl
    · refine Or.inr (Or.inr (Or.inl ⟨?_, hlt⟩))
      rw [abs_of_nonneg (by linarith)]
      linarith
  · rcases hbz.eq_or_lt with rfl | hlt
    · exact Or.inr (Or.inl rfl)
    · refine Or.inr (Or.inr (Or.inr ⟨?_, hlt⟩))
      rw [abs_of_nonpos (by linarith)]
      linarith

/-- The nearer neighbour is nearest, and only the other one can be as near. -/
theorem Between.nearest_left (h : Between S even a b odd) (hax : a ≤ x) (hle : x - a ≤ b - x) :
    (∀ z ∈ S, |x - a| ≤ |x - z|) ∧ ∀ z ∈ S, z ≠ a → |x - z| = |x - a| → z = b ∧ x - a = b - x := by
  have hxb : x ≤ b := by linarith
  have hleft : |x - a| = x - a := abs_of_nonneg (by linarith)
  have hright : |x - b| = b - x := by rw [abs_sub_comm, abs_of_nonneg (by linarith)]
  refine ⟨fun z hz => ?_, fun z hz hne heq => ?_⟩
  · rcases h.abs_sub_cases hax hxb hz with rfl | rfl | ⟨hfar, -⟩ | ⟨hfar, -⟩ <;> linarith
  · rcases h.abs_sub_cases hax hxb hz with rfl | rfl | ⟨hfar, -⟩ | ⟨hfar, -⟩
    · exact absurd rfl hne
    · exact ⟨rfl, by linarith⟩
    · linarith
    · linarith

/-- The same for the further neighbour. -/
theorem Between.nearest_right (h : Between S even a b odd) (hxb : x ≤ b) (hle : b - x ≤ x - a) :
    (∀ z ∈ S, |x - b| ≤ |x - z|) ∧ ∀ z ∈ S, z ≠ b → |x - z| = |x - b| → z = a ∧ x - a = b - x := by
  have hax : a ≤ x := by linarith
  have hleft : |x - a| = x - a := abs_of_nonneg (by linarith)
  have hright : |x - b| = b - x := by rw [abs_sub_comm, abs_of_nonneg (by linarith)]
  refine ⟨fun z hz => ?_, fun z hz hne heq => ?_⟩
  · rcases h.abs_sub_cases hax hxb hz with rfl | rfl | ⟨hfar, -⟩ | ⟨hfar, -⟩ <;> linarith
  · rcases h.abs_sub_cases hax hxb hz with rfl | rfl | ⟨hfar, -⟩ | ⟨hfar, -⟩
    · exact ⟨rfl, by linarith⟩
    · exact absurd rfl hne
    · linarith
    · linarith

/-- Only one of two neighbours is a rounded number. -/
theorem Between.unique (h : Between S even a b odd) (hax : a ≤ x) (hxb : x ≤ b) {y y' : ℚ}
    (hy : Rounds S even mode x y) (hy' : Rounds S even mode x y') : y = y' := by
  have hx : 0 ≤ x := h.nonneg.trans hax
  cases mode with
  | nearestEven =>
      -- two nearest members of the set are the two neighbours, which are not both even
      have hend : ∀ {z}, Rounds S even .nearestEven x z → z = a ∨ z = b := fun {z} hz => by
        have ha : |x - z| ≤ x - a := (hz.2.1 a h.left).trans_eq (abs_of_nonneg (sub_nonneg.2 hax))
        have hb : |x - z| ≤ b - x :=
          (hz.2.1 b h.right).trans_eq (abs_sub_comm x b ▸ abs_of_nonneg (sub_nonneg.2 hxb))
        rcases h.abs_sub_cases hax hxb hz.1 with hza | hzb | ⟨hfar, -⟩ | ⟨hfar, -⟩
        · exact Or.inl hza
        · exact Or.inr hzb
        · linarith
        · linarith
      by_contra hne
      have hdist : |x - y'| = |x - y| := le_antisymm (hy'.2.1 y hy.1) (hy.2.1 y' hy'.1)
      have hyeven := hy.2.2 y' hy'.1 (Ne.symm hne) hdist
      have hyeven' := hy'.2.2 y hy.1 hne hdist.symm
      rcases hend hy with rfl | rfl <;> rcases hend hy' with rfl | rfl
      · exact hne rfl
      · exact h.even_left.1 hyeven (h.even_right.1 hyeven')
      · exact h.even_left.1 hyeven' (h.even_right.1 hyeven)
      · exact hne rfl
  | towardZero =>
      obtain ⟨hmem, hsmall, hsign, hmax⟩ := hy
      obtain ⟨hmem', hsmall', hsign', hmax'⟩ := hy'
      have habs : |y| = |y'| :=
        le_antisymm (hmax' y hmem hsmall hsign) (hmax y' hmem' hsmall' hsign')
      rcases hx.eq_or_lt with rfl | hpos
      · rw [abs_zero, abs_nonpos_iff] at hsmall hsmall'
        rw [hsmall, hsmall']
      · rwa [abs_of_nonneg ((mul_nonneg_iff_of_pos_left hpos).1 hsign),
          abs_of_nonneg ((mul_nonneg_iff_of_pos_left hpos).1 hsign')] at habs
  | down => exact hy.unique hy'
  | up => exact hy.unique hy'
  | nearestAway =>
      by_contra hne
      have hdist : |x - y'| = |x - y| := le_antisymm (hy'.2.1 y hy.1) (hy.2.1 y' hy'.1)
      exact lt_asymm (hy.2.2 y' hy'.1 (Ne.symm hne) hdist) (hy'.2.2 y hy.1 hne hdist.symm)

/-- Where a number is that has gone some of the way between its neighbours. -/
theorem Between.position (h : Between S even a b odd) (h0 : 0 ≤ t) (h1 : t < 1)
    (hx : x = a + t * (b - a)) :
    a ≤ x ∧ x < b ∧ (t ≤ 1 / 2 → x - a ≤ b - x) ∧ (1 / 2 ≤ t → b - x ≤ x - a) ∧
      (x - a = b - x → t = 1 / 2) := by
  have hd : 0 < b - a := sub_pos.2 h.lt
  have hnear : x - a = t * (b - a) := by rw [hx]; ring
  have hfar : b - x = (1 - t) * (b - a) := by rw [hx]; ring
  refine ⟨sub_nonneg.1 ?_, sub_pos.1 ?_, fun ht => ?_, fun ht => ?_, fun heq => ?_⟩
  · rw [hnear]
    exact mul_nonneg h0 hd.le
  · rw [hfar]
    exact mul_pos (sub_pos.2 h1) hd
  · rw [hnear, hfar]
    exact mul_le_mul_of_nonneg_right (by linarith) hd.le
  · rw [hnear, hfar]
    exact mul_le_mul_of_nonneg_right (by linarith) hd.le
  · rw [hnear, hfar] at heq
    linarith [mul_right_cancel₀ hd.ne' heq]

/-- A number that has not gone far from the nearer neighbour is rounded to it. -/
theorem Between.rounds_left (h : Between S even a b odd) (h0 : 0 ≤ t) (h1 : t < 1)
    (hx : x = a + t * (b - a)) (haway : ¬ mode.Away odd t) : Rounds S even mode x a := by
  obtain ⟨hax, hxb, hle, -, htie⟩ := h.position h0 h1 hx
  cases mode with
  | nearestEven =>
      have hodd : t = 1 / 2 → ¬ odd := fun ht ho => haway (Or.inr ⟨ht, ho⟩)
      obtain ⟨hnear, hother⟩ :=
        h.nearest_left hax (hle (le_of_not_gt fun hlt => haway (Or.inl hlt)))
      exact ⟨h.left, hnear, fun z hz hne heq =>
        h.even_left.2 (hodd (htie (hother z hz hne heq).2))⟩
  | towardZero =>
      have hxa : 0 ≤ x := h.nonneg.trans hax
      refine ⟨h.left, ?_, mul_nonneg hxa h.nonneg, fun z hz habs hsign => ?_⟩
      · rwa [abs_of_nonneg h.nonneg, abs_of_nonneg hxa]
      · rw [abs_of_nonneg hxa] at habs
        rw [abs_of_nonneg h.nonneg]
        rcases hxa.eq_or_lt with hzero | hpos
        · exact (habs.trans hzero.ge).trans h.nonneg
        · rw [abs_of_nonneg ((mul_nonneg_iff_of_pos_left hpos).1 hsign)] at habs ⊢
          rcases h.gap z hz with hza | hbz
          · exact hza
          · linarith
  | down =>
      refine ⟨⟨h.left, hax⟩, fun z hz => ?_⟩
      rcases h.gap z hz.1 with hza | hbz
      · exact hza
      · linarith [hz.2]
  | up =>
      have hzero : t = 0 := le_antisymm (le_of_not_gt haway) h0
      have hxa : x = a := by rw [hx, hzero, zero_mul, add_zero]
      exact ⟨⟨h.left, hxa.le⟩, fun z hz => hxa.ge.trans hz.2⟩
  | nearestAway =>
      have hlt : t < 1 / 2 := lt_of_not_ge haway
      obtain ⟨hnear, hother⟩ := h.nearest_left hax (hle hlt.le)
      exact ⟨h.left, hnear, fun z hz hne heq => absurd (htie (hother z hz hne heq).2) hlt.ne⟩

/-- A number that has gone far is rounded to the further neighbour. -/
theorem Between.rounds_right (h : Between S even a b odd) (h0 : 0 ≤ t) (h1 : t < 1)
    (hx : x = a + t * (b - a)) (haway : mode.Away odd t) : Rounds S even mode x b := by
  obtain ⟨-, hxb, -, hle, htie⟩ := h.position h0 h1 hx
  cases mode with
  | nearestEven =>
      have hhalf : 1 / 2 ≤ t := haway.elim le_of_lt fun htie => htie.1.ge
      obtain ⟨hnear, hother⟩ := h.nearest_right hxb.le (hle hhalf)
      refine ⟨h.right, hnear, fun z hz hne heq => h.even_right.2 ?_⟩
      have ht := htie (hother z hz hne heq).2
      exact haway.elim (fun hlt => absurd ht hlt.ne') And.right
  | towardZero => exact haway.elim
  | down => exact haway.elim
  | up =>
      have hax : a < x := by
        rw [hx]
        exact lt_add_of_pos_right a (mul_pos haway (sub_pos.2 h.lt))
      refine ⟨⟨h.right, hxb.le⟩, fun z hz => ?_⟩
      rcases h.gap z hz.1 with hza | hbz
      · linarith [hz.2]
      · exact hbz
  | nearestAway =>
      obtain ⟨hnear, hother⟩ := h.nearest_right hxb.le (hle haway)
      refine ⟨h.right, hnear, fun z hz hne heq => ?_⟩
      rw [(hother z hz hne heq).1, abs_of_nonneg h.nonneg, abs_of_nonneg (h.nonneg.trans h.lt.le)]
      exact h.lt

/-- **Which neighbour a number is rounded to.** -/
theorem Between.rounds_iff (h : Between S even a b odd) (h0 : 0 ≤ t) (h1 : t < 1)
    (hx : x = a + t * (b - a)) (mode : Mode) (y : ℚ) :
    Rounds S even mode x y ↔ mode.Away odd t ∧ y = b ∨ ¬ mode.Away odd t ∧ y = a := by
  obtain ⟨hax, hxb, -⟩ := h.position h0 h1 hx
  by_cases haway : mode.Away odd t
  · have hright := h.rounds_right h0 h1 hx haway
    refine ⟨fun hy => Or.inl ⟨haway, h.unique hax hxb.le hy hright⟩, ?_⟩
    rintro (⟨-, rfl⟩ | ⟨hnot, -⟩)
    · exact hright
    · exact absurd haway hnot
  · have hleft := h.rounds_left h0 h1 hx haway
    refine ⟨fun hy => Or.inr ⟨haway, h.unique hax hxb.le hy hleft⟩, ?_⟩
    rintro (⟨hyes, -⟩ | ⟨-, rfl⟩)
    · exact absurd hyes haway
    · exact hleft

end Between

/-- The fraction as a number of parts, of which there are `2 ^ (d + 1)`. -/
def Mode.AwayParts (odd : Prop) (d r : ℕ) : Mode → Prop
  | .nearestEven => 2 ^ d < r ∨ r = 2 ^ d ∧ odd
  | .towardZero => False
  | .down => False
  | .up => 0 < r
  | .nearestAway => 2 ^ d ≤ r

theorem Mode.away_div_iff (odd : Prop) (d r : ℕ) (mode : Mode) :
    mode.Away odd ((r : ℚ) / 2 ^ (d + 1)) ↔ mode.AwayParts odd d r := by
  have hhalf : (1 : ℚ) / 2 = ((2 ^ d : ℕ) : ℚ) / 2 ^ (d + 1) := by
    push_cast
    field_simp
    ring
  have hpos : (0 : ℚ) < 2 ^ (d + 1) := by positivity
  cases mode with
  | nearestEven =>
      rw [Away, AwayParts, hhalf, div_lt_div_iff_of_pos_right hpos, div_left_inj' hpos.ne',
        Nat.cast_lt, Nat.cast_inj]
  | towardZero => rfl
  | down => rfl
  | up => rw [Away, AwayParts, div_pos_iff_of_pos_right hpos, Nat.cast_pos]
  | nearestAway => rw [Away, AwayParts, hhalf, div_le_div_iff_of_pos_right hpos, Nat.cast_le]

/-! ### Signs -/

section Signs

variable {S even : Set ℚ} {mode : Mode} {x y : ℚ}

@[simp] theorem signed_signed (neg : Bool) (x : ℚ) : signed neg (signed neg x) = x := by
  cases neg with
  | false => rfl
  | true => exact neg_neg x

@[simp] theorem abs_signed (neg : Bool) (x : ℚ) : |signed neg x| = |x| := by
  cases neg with
  | false => rfl
  | true => exact abs_neg x

/-- Greatest members below become least members above. -/
theorem isLeast_neg_iff (hS : ∀ {y}, y ∈ S → -y ∈ S) :
    IsLeast {z ∈ S | -x ≤ z} (-y) ↔ IsGreatest {z ∈ S | z ≤ x} y := by
  have hmem : ∀ {z}, -z ∈ S ↔ z ∈ S := ⟨fun h => by simpa using hS h, hS⟩
  constructor
  · rintro ⟨⟨hy, hle⟩, hleast⟩
    exact ⟨⟨hmem.1 hy, neg_le_neg_iff.1 hle⟩, fun z hz =>
      neg_le_neg_iff.1 (hleast ⟨hS hz.1, neg_le_neg hz.2⟩)⟩
  · rintro ⟨⟨hy, hle⟩, hgreatest⟩
    exact ⟨⟨hS hy, neg_le_neg hle⟩, fun z hz =>
      neg_le.1 (hgreatest ⟨hS hz.1, neg_le.1 hz.2⟩)⟩

/-- The opposite of a number is rounded to the opposite, up instead of down. -/
theorem Rounds.neg (hS : ∀ {y}, y ∈ S → -y ∈ S) (heven : ∀ {y}, y ∈ even → -y ∈ even)
    (h : Rounds S even mode x y) : Rounds S even (mode.under true) (-x) (-y) := by
  have hdist : ∀ z, |-x - z| = |x - -z| := fun z => by
    rw [← abs_neg, neg_sub, sub_neg_eq_add, sub_neg_eq_add, add_comm]
  have hnearest : (∀ z ∈ S, |x - y| ≤ |x - z|) → ∀ z ∈ S, |-x - -y| ≤ |-x - z| := fun h z hz => by
    rw [hdist, hdist, neg_neg]
    exact h _ (hS hz)
  have htie : ∀ {z}, z ≠ -y → |-x - z| = |-x - -y| → -z ≠ y ∧ |x - -z| = |x - y| :=
    fun {z} hne heq => by
    rw [hdist, hdist, neg_neg] at heq
    exact ⟨fun h => hne (by rw [← h, neg_neg]), heq⟩
  cases mode with
  | nearestEven =>
      refine ⟨hS h.1, hnearest h.2.1, fun z hz hne heq => ?_⟩
      obtain ⟨hne', heq'⟩ := htie hne heq
      exact heven (h.2.2 _ (hS hz) hne' heq')
  | towardZero =>
      obtain ⟨hmem, hsmall, hsign, hmax⟩ := h
      refine ⟨hS hmem, ?_, ?_, fun z hz hle hz0 => ?_⟩
      · rwa [abs_neg, abs_neg]
      · rwa [neg_mul_neg]
      · rw [abs_neg] at hle ⊢
        rw [← abs_neg z] at hle ⊢
        exact hmax _ (hS hz) hle (by rwa [mul_neg, ← neg_mul])
  | down => exact (isLeast_neg_iff hS).2 h
  | up =>
      refine (isLeast_neg_iff (x := -x) (y := -y) hS).1 ?_
      rwa [neg_neg, neg_neg]
  | nearestAway =>
      refine ⟨hS h.1, hnearest h.2.1, fun z hz hne heq => ?_⟩
      obtain ⟨hne', heq'⟩ := htie hne heq
      rw [abs_neg, ← abs_neg z]
      exact h.2.2 _ (hS hz) hne' heq'

theorem under_under (neg : Bool) (mode : Mode) : (mode.under neg).under neg = mode := by
  cases neg <;> cases mode <;> rfl

/-- **Rounding and signs.** -/
theorem rounds_signed_iff (hS : ∀ {y}, y ∈ S → -y ∈ S) (heven : ∀ {y}, y ∈ even → -y ∈ even)
    (neg : Bool) : Rounds S even mode (signed neg x) (signed neg y) ↔
    Rounds S even (mode.under neg) x y := by
  cases neg with
  | false =>
      have hunder : mode.under false = mode := by cases mode <;> rfl
      rw [hunder]
      rfl
  | true =>
      refine ⟨fun h => ?_, fun h => ?_⟩
      · have hneg := h.neg hS heven
        simpa only [signed, if_true, neg_neg] using hneg
      · have hneg := h.neg hS heven
        rwa [under_under] at hneg

end Signs

/-! ### Formats -/

/-- A floating-point format: the number of its fraction bits, the exponent of its unit, which is the
smallest number above zero, and the index of infinity. -/
structure Format where
  fraction : ℕ
  unit : ℤ
  infinity : ℕ

namespace Format

variable (F : Format)

/-- How often the unit of a number has been doubled: the exponent field, where 0 is as 1. -/
def doublings (n : ℕ) : ℕ := n / 2 ^ F.fraction - 1

/-- The number with an index.  Infinity counts as the number that would be there. -/
def value (n : ℕ) : ℚ :=
  ((n - F.doublings n * 2 ^ F.fraction : ℕ) : ℚ) * 2 ^ (F.unit + F.doublings n)

/-- The numbers of the format. -/
def numbers : Set ℚ := {y | ∃ n ≤ F.infinity, ∃ neg, y = signed neg (F.value n)}

/-- Those with an even significand. -/
def evens : Set ℚ := {y | ∃ n ≤ F.infinity, Even n ∧ ∃ neg, y = signed neg (F.value n)}

/-- The format with `d` more bits in its fraction. -/
def widen (d : ℕ) : Format where
  fraction := F.fraction + d
  unit := F.unit - d
  infinity := F.infinity * 2 ^ d

theorem doublings_mul_le (n : ℕ) : F.doublings n * 2 ^ F.fraction ≤ n := by
  have hle := Nat.div_mul_le_self n (2 ^ F.fraction)
  exact (Nat.mul_le_mul_right _ (Nat.sub_le ..)).trans hle

/-- The distance to the next number. -/
theorem value_succ (n : ℕ) : F.value (n + 1) = F.value n + 2 ^ (F.unit + F.doublings n) := by
  have hpos : 0 < 2 ^ F.fraction := Nat.two_pow_pos _
  have hle := F.doublings_mul_le n
  by_cases hsame : F.doublings (n + 1) = F.doublings n
  · rw [value, value, hsame, Nat.succ_sub hle]
    push_cast
    ring
  · -- a power of two is reached, where the distance is doubled
    have hcases : (n + 1) / 2 ^ F.fraction =
        n / 2 ^ F.fraction + if 2 ^ F.fraction ∣ n + 1 then 1 else 0 := Nat.succ_div
    have hdvd : 2 ^ F.fraction ∣ n + 1 := by
      by_contra hnot
      rw [if_neg hnot] at hcases
      exact hsame (by rw [doublings, hcases, doublings, Nat.add_zero])
    rw [if_pos hdvd] at hcases
    have hone : 1 ≤ n / 2 ^ F.fraction := by
      by_contra hzero
      exact hsame (by rw [doublings, doublings]; omega)
    have hnext : F.doublings (n + 1) = F.doublings n + 1 := by
      rw [doublings, doublings]
      omega
    have hindex : n + 1 = F.doublings n * 2 ^ F.fraction + 2 * 2 ^ F.fraction := by
      rw [← Nat.add_mul, ← Nat.div_mul_cancel hdvd, hcases, doublings]
      congr 1
      omega
    have hsig : n + 1 - F.doublings (n + 1) * 2 ^ F.fraction = 2 ^ F.fraction := by
      rw [hnext, Nat.add_mul]
      omega
    have hsig' : n - F.doublings n * 2 ^ F.fraction + 1 = 2 * 2 ^ F.fraction := by omega
    have hcast : ((n - F.doublings n * 2 ^ F.fraction : ℕ) : ℚ) + 1 = 2 * 2 ^ F.fraction := by
      exact_mod_cast hsig'
    rw [value, value, hsig, hnext]
    push_cast
    rw [show F.unit + ((F.doublings n : ℤ) + 1) = F.unit + F.doublings n + 1 by ring,
      zpow_add_one₀ (by norm_num)]
    linear_combination (-(2 : ℚ) ^ (F.unit + (F.doublings n : ℤ))) * hcast

theorem value_strictMono : StrictMono F.value := strictMono_nat_of_lt_succ fun n => by
  rw [value_succ]
  exact lt_add_of_pos_right _ (by positivity)

theorem value_nonneg (n : ℕ) : 0 ≤ F.value n := by
  rw [value]
  positivity

theorem neg_mem_numbers {y : ℚ} (h : y ∈ F.numbers) : -y ∈ F.numbers := by
  obtain ⟨n, hn, neg, rfl⟩ := h
  exact ⟨n, hn, !neg, by cases neg <;> simp [signed]⟩

theorem neg_mem_evens {y : ℚ} (h : y ∈ F.evens) : -y ∈ F.evens := by
  obtain ⟨n, hn, heven, neg, rfl⟩ := h
  exact ⟨n, hn, heven, !neg, by cases neg <;> simp [signed]⟩

/-- Indices are told by magnitudes. -/
theorem eq_of_value_eq {m n : ℕ} {neg : Bool} (h : F.value n = signed neg (F.value m)) : n = m := by
  have habs := congrArg (|·|) h
  rw [abs_signed, abs_of_nonneg (F.value_nonneg n), abs_of_nonneg (F.value_nonneg m)] at habs
  exact F.value_strictMono.injective habs

theorem value_mem_numbers {n : ℕ} (hn : n ≤ F.infinity) : F.value n ∈ F.numbers :=
  ⟨n, hn, false, rfl⟩

theorem value_mem_evens_iff {n : ℕ} (hn : n ≤ F.infinity) : F.value n ∈ F.evens ↔ Even n := by
  refine ⟨fun h => ?_, fun h => ⟨n, hn, h, false, rfl⟩⟩
  obtain ⟨m, -, heven, neg, heq⟩ := h
  rwa [F.eq_of_value_eq heq]

/-- **Numbers with consecutive indices are neighbours.** -/
theorem between {n : ℕ} (hn : n < F.infinity) :
    Between F.numbers F.evens (F.value n) (F.value (n + 1)) (Odd n) where
  nonneg := F.value_nonneg n
  lt := F.value_strictMono (Nat.lt_succ_self n)
  left := F.value_mem_numbers hn.le
  right := F.value_mem_numbers hn
  gap := by
    rintro z ⟨m, -, neg, rfl⟩
    cases neg with
    | true => exact Or.inl ((neg_nonpos.2 (F.value_nonneg m)).trans (F.value_nonneg n))
    | false =>
        rcases Nat.lt_or_ge n m with hlt | hge
        · exact Or.inr (F.value_strictMono.monotone hlt)
        · exact Or.inl (F.value_strictMono.monotone hge)
  even_left := by rw [F.value_mem_evens_iff hn.le, Nat.not_odd_iff_even]
  even_right := by rw [F.value_mem_evens_iff hn, Nat.even_add_one, Nat.not_even_iff_odd]

/-- **The values of a format with a longer fraction** lie evenly between two neighbours. -/
theorem value_widen (d n : ℕ) {r : ℕ} (hr : r < 2 ^ d) :
    (F.widen d).value (n * 2 ^ d + r) =
      F.value n + (r : ℚ) / 2 ^ d * (F.value (n + 1) - F.value n) := by
  have hdoublings : (F.widen d).doublings (n * 2 ^ d + r) = F.doublings n := by
    rw [doublings, doublings, widen, Nat.pow_add, Nat.mul_comm (2 ^ F.fraction),
      ← Nat.div_div_eq_div_mul, Nat.mul_comm n, Nat.mul_add_div (Nat.two_pow_pos d),
      Nat.div_eq_of_lt hr, Nat.add_zero]
  have hle := F.doublings_mul_le n
  have hsig : n * 2 ^ d + r - F.doublings n * 2 ^ (F.fraction + d) =
      (n - F.doublings n * 2 ^ F.fraction) * 2 ^ d + r := by
    have hmul := Nat.mul_le_mul_right (2 ^ d) hle
    rw [Nat.pow_add, ← Nat.mul_assoc, Nat.sub_mul]
    omega
  have hunit : (2 : ℚ) ^ (F.unit - d + F.doublings n) = 2 ^ (F.unit + F.doublings n) / 2 ^ d := by
    rw [show F.unit - (d : ℤ) + F.doublings n = F.unit + F.doublings n - d by ring,
      zpow_sub₀ (by norm_num), zpow_natCast]
  rw [value_succ, value, hdoublings]
  show ((n * 2 ^ d + r - F.doublings n * 2 ^ (F.fraction + d) : ℕ) : ℚ) *
    2 ^ (F.unit - d + F.doublings n) = _
  rw [hsig, hunit, value]
  push_cast
  field_simp
  ring

/-- The numbers of a format are numbers of the one with a longer fraction. -/
theorem value_widen_mul (d n : ℕ) : (F.widen d).value (n * 2 ^ d) = F.value n := by
  have hx := F.value_widen d n (Nat.two_pow_pos d)
  rwa [Nat.add_zero, Nat.cast_zero, zero_div, zero_mul, add_zero] at hx

end Format

/-! ### Unbounded exponents -/

/-- The numbers with a significand of `p` bits and any exponent. -/
def precise (p : ℕ) : Set ℚ := {y | ∃ k e : ℤ, |k| < 2 ^ p ∧ y = k * 2 ^ e}

section Precise

variable {p K : ℕ} {e : ℤ}

theorem neg_mem_precise {y : ℚ} (h : y ∈ precise p) : -y ∈ precise p := by
  obtain ⟨k, e, hk, rfl⟩ := h
  exact ⟨-k, e, by rwa [abs_neg], by push_cast; ring⟩

theorem mem_precise (hK : K < 2 ^ p) : (K : ℚ) * 2 ^ e ∈ precise p :=
  ⟨K, e, by rw [Nat.abs_cast]; exact_mod_cast hK, by push_cast; rfl⟩

/-- An even significand may have a bit more. -/
theorem mem_precise_of_even (heven : Even K) (hK : K < 2 ^ (p + 1)) :
    (K : ℚ) * 2 ^ e ∈ precise p := by
  obtain ⟨j, rfl⟩ := heven
  have hmem := mem_precise (e := e + 1) (show j < 2 ^ p by rw [Nat.pow_succ] at hK; omega)
  rw [zpow_add_one₀ (by norm_num)] at hmem
  convert hmem using 1
  push_cast
  ring

/-- So may one that is a power of two. -/
theorem mem_precise_two_pow (hp : 0 < p) (q : ℕ) : ((2 ^ q : ℕ) : ℚ) * 2 ^ e ∈ precise p := by
  have hmem := mem_precise (K := 1) (e := q + e) (Nat.one_lt_two_pow hp.ne')
  rw [zpow_add₀ (by norm_num), zpow_natCast] at hmem
  convert hmem using 1
  push_cast
  ring

/-- A number with fewer bits whose significand may have more has an even one. -/
theorem even_of_mem_precise (hK : 2 ^ p ≤ K) (h : (K : ℚ) * 2 ^ e ∈ precise p) : Even K := by
  obtain ⟨k, f, hk, heq⟩ := h
  rcases le_or_gt f e with hle | hlt
  · have hk' : (k : ℚ) < 2 ^ p := by exact_mod_cast (le_abs_self k).trans_lt hk
    have hK' : (2 : ℚ) ^ p ≤ K := by exact_mod_cast hK
    have hpow : (2 : ℚ) ^ f ≤ 2 ^ e := zpow_le_zpow_right₀ (by norm_num) hle
    have hlt : (k : ℚ) * 2 ^ f < K * 2 ^ e := by
      calc (k : ℚ) * 2 ^ f < 2 ^ p * 2 ^ f := by gcongr
        _ ≤ K * 2 ^ e := by gcongr
    exact absurd heq hlt.ne'
  · obtain ⟨j, rfl⟩ : ∃ j : ℕ, f = e + 1 + j := ⟨(f - e - 1).toNat, by omega⟩
    rw [zpow_add₀ (by norm_num), zpow_add_one₀ (by norm_num), zpow_natCast] at heq
    have hcast : (K : ℚ) = 2 * (k * 2 ^ j) := by
      refine mul_right_cancel₀ (zpow_ne_zero e (by norm_num : (2 : ℚ) ≠ 0)) ?_
      rw [heq]
      ring
    have hint : (K : ℤ) = 2 * (k * 2 ^ j) := by exact_mod_cast hcast
    exact (Int.even_coe_nat K).1 ⟨k * 2 ^ j, by omega⟩

/-- Nothing lies between consecutive significands of full length. -/
theorem precise_gap (hK : 2 ^ p ≤ K) {z : ℚ} (hz : z ∈ precise (p + 1)) :
    z ≤ K * 2 ^ e ∨ ((K + 1 : ℕ) : ℚ) * 2 ^ e ≤ z := by
  obtain ⟨k, f, hk, rfl⟩ := hz
  rcases le_or_gt e f with hle | hlt
  · -- both are multiples of the same power
    obtain ⟨j, rfl⟩ : ∃ j : ℕ, f = e + j := ⟨(f - e).toNat, by omega⟩
    rw [zpow_add₀ (by norm_num), zpow_natCast, mul_comm ((2 : ℚ) ^ e), ← mul_assoc]
    rcases le_or_gt (k * 2 ^ j) K with hbelow | habove
    · have hcast : (k : ℚ) * 2 ^ j ≤ K := by exact_mod_cast hbelow
      exact Or.inl (by gcongr)
    · have hcast : ((K + 1 : ℕ) : ℚ) ≤ k * 2 ^ j := by exact_mod_cast habove
      exact Or.inr (by gcongr)
  · have hk' : (k : ℚ) ≤ 2 ^ (p + 1) := by exact_mod_cast (le_abs_self k).trans hk.le
    have hK' : (2 : ℚ) ^ p ≤ K := by exact_mod_cast hK
    have hpow : (2 : ℚ) ^ (f + 1) ≤ 2 ^ e := zpow_le_zpow_right₀ (by norm_num) hlt
    refine Or.inl ?_
    calc (k : ℚ) * 2 ^ f ≤ 2 ^ (p + 1) * 2 ^ f := by gcongr
      _ = 2 ^ p * 2 ^ (f + 1) := by rw [zpow_add_one₀ (by norm_num)]; ring
      _ ≤ K * 2 ^ e := by gcongr

/-- **Consecutive significands of full length are neighbours.** -/
theorem between_precise (hp : 0 < p) (hK : 2 ^ p ≤ K) (hK' : K < 2 ^ (p + 1)) :
    Between (precise (p + 1)) (precise p) (K * 2 ^ e) ((K + 1 : ℕ) * 2 ^ e) (Odd K) where
  nonneg := by positivity
  lt := by
    push_cast
    gcongr
    exact lt_add_one _
  left := mem_precise hK'
  right := by
    rcases Nat.lt_or_eq_of_le (Nat.succ_le_of_lt hK') with hlt | heq
    · exact mem_precise hlt
    · rw [Nat.succ_eq_add_one] at heq
      rw [heq]
      exact mem_precise_two_pow (Nat.succ_pos p) _
  gap := fun z hz => precise_gap hK hz
  even_left := by
    rw [Nat.not_odd_iff_even]
    exact ⟨even_of_mem_precise hK, fun heven => mem_precise_of_even heven hK'⟩
  even_right := by
    rw [← Nat.not_even_iff_odd, ← Nat.even_add_one]
    refine ⟨even_of_mem_precise (Nat.le_succ_of_le hK), fun heven => ?_⟩
    rcases Nat.lt_or_eq_of_le (Nat.succ_le_of_lt hK') with hlt | heq
    · exact mem_precise_of_even heven hlt
    · rw [Nat.succ_eq_add_one] at heq
      rw [heq]
      exact mem_precise_two_pow hp _

/-- Every number can be rounded. -/
theorem exists_rounds (hp : 0 < p) (mode : Mode) {x : ℚ} (hx : 0 ≤ x) :
    ∃ y, Rounds (precise (p + 1)) (precise p) mode x y := by
  rcases hx.eq_or_lt with rfl | hpos
  · refine ⟨0, rounds_self ?_⟩
    have hmem := mem_precise (p := p + 1) (e := 0) (Nat.two_pow_pos (p + 1))
    rwa [Nat.cast_zero, zero_mul] at hmem
  · -- the leading bit fixes the exponent
    obtain ⟨e, he⟩ : ∃ e, Int.log 2 x = e + p := ⟨Int.log 2 x - p, by ring⟩
    have hpow : (0 : ℚ) < 2 ^ e := by positivity
    have hlow : (2 : ℚ) ^ p ≤ x / 2 ^ e := by
      have hlog := Int.zpow_log_le_self (b := 2) (by norm_num) hpos
      rw [he, Nat.cast_ofNat, zpow_add₀ (by norm_num), zpow_natCast] at hlog
      rw [le_div_iff₀ hpow]
      linarith
    have hhigh : x / 2 ^ e < 2 ^ (p + 1) := by
      have hlog := Int.lt_zpow_succ_log_self (b := 2) (by norm_num) x
      rw [he, Nat.cast_ofNat, show e + (p : ℤ) + 1 = e + (p + 1 : ℕ) by push_cast; ring,
        zpow_add₀ (by norm_num), zpow_natCast] at hlog
      rw [div_lt_iff₀ hpow]
      linarith
    have hfloor := Nat.floor_le (a := x / 2 ^ e) (by positivity)
    have hfloor' := Nat.lt_floor_add_one (x / 2 ^ e)
    have hK : 2 ^ p ≤ ⌊x / 2 ^ e⌋₊ := Nat.le_floor (by exact_mod_cast hlow)
    have hK' : ⌊x / 2 ^ e⌋₊ < 2 ^ (p + 1) := by
      rw [Nat.floor_lt (by positivity)]
      exact_mod_cast hhigh
    have hx' : x = ⌊x / 2 ^ e⌋₊ * 2 ^ e + (x / 2 ^ e - ⌊x / 2 ^ e⌋₊) *
        (((⌊x / 2 ^ e⌋₊ + 1 : ℕ) : ℚ) * 2 ^ e - ⌊x / 2 ^ e⌋₊ * 2 ^ e) := by
      push_cast
      field_simp
      ring
    have hrounds :=
      (between_precise hp hK hK').rounds_iff (sub_nonneg.2 hfloor) (by linarith) hx' mode
    by_cases haway : mode.Away (Odd ⌊x / 2 ^ e⌋₊) (x / 2 ^ e - ⌊x / 2 ^ e⌋₊)
    · exact ⟨_, (hrounds _).2 (Or.inl ⟨haway, rfl⟩)⟩
    · exact ⟨_, (hrounds _).2 (Or.inr ⟨haway, rfl⟩)⟩

end Precise

/-! ### Rounding to a shorter fraction -/

namespace Format

variable (F : Format)

/-- The number is rounded as if the exponent were not bounded. -/
def RoundsUnbounded (mode : Mode) (x y : ℚ) : Prop :=
  Rounds (precise (F.fraction + 1)) (precise F.fraction) mode x y

/-- **Overflow**: with an unbounded exponent, the number is rounded to one above the largest finite
number. -/
def Overflows (mode : Mode) (x : ℚ) : Prop :=
  ∃ y, F.RoundsUnbounded mode x y ∧ F.value (F.infinity - 1) < |y|

/-- **Tininess after rounding**: with an unbounded exponent, the number is rounded to one below the
smallest normal number. -/
def Tiny (mode : Mode) (x : ℚ) : Prop :=
  ∃ y, F.RoundsUnbounded mode x y ∧ |y| < F.value (2 ^ F.fraction)

section Widen

variable {F} {mode : Mode} {neg : Bool}

/-- The fraction of the way that a number with a longer fraction has gone. -/
theorem div_two_pow_bounds {d r : ℕ} (hr : r < 2 ^ d) :
    0 ≤ (r : ℚ) / 2 ^ d ∧ (r : ℚ) / 2 ^ d < 1 := by
  have hcast : (r : ℚ) < 2 ^ d := by exact_mod_cast hr
  exact ⟨by positivity, (div_lt_one (by positivity)).2 hcast⟩

/-- **Rounding to a format with a shorter fraction.** -/
theorem rounds_widen (F : Format) (mode : Mode) (neg : Bool) {d n r : ℕ} (hn : n < F.infinity)
    (hr : r < 2 ^ d) :
    ((mode.under neg).Away (Odd n) ((r : ℚ) / 2 ^ d) →
      Rounds F.numbers F.evens mode (signed neg ((F.widen d).value (n * 2 ^ d + r)))
        (signed neg (F.value (n + 1)))) ∧
    (¬ (mode.under neg).Away (Odd n) ((r : ℚ) / 2 ^ d) →
      Rounds F.numbers F.evens mode (signed neg ((F.widen d).value (n * 2 ^ d + r)))
        (signed neg (F.value n))) := by
  obtain ⟨h0, h1⟩ := div_two_pow_bounds hr
  have hx := F.value_widen d n hr
  simp only [rounds_signed_iff F.neg_mem_numbers F.neg_mem_evens]
  exact ⟨(F.between hn).rounds_right h0 h1 hx, (F.between hn).rounds_left h0 h1 hx⟩

/-- Which numbers with a longer fraction are numbers of the format. -/
theorem value_widen_mem_numbers_iff {d n r : ℕ} (hn : n < F.infinity) (hr : r < 2 ^ d) :
    signed neg ((F.widen d).value (n * 2 ^ d + r)) ∈ F.numbers ↔ r = 0 := by
  constructor
  · rintro ⟨m, -, neg', heq⟩
    have habs := congrArg (|·|) heq
    rw [abs_signed, abs_signed, abs_of_nonneg ((F.widen d).value_nonneg _),
      abs_of_nonneg (F.value_nonneg m), ← F.value_widen_mul d m] at habs
    have hindex := (F.widen d).value_strictMono.injective habs
    have hmod := congrArg (· % 2 ^ d) hindex
    simpa only [Nat.mul_add_mod_self_right, Nat.mul_mod_left, Nat.mod_eq_of_lt hr] using hmod
  · rintro rfl
    rw [Nat.add_zero, value_widen_mul]
    exact ⟨n, hn.le, neg, rfl⟩

/-- A number of the format is rounded to itself. -/
theorem rounds_widen_self {d n : ℕ} (hn : n ≤ F.infinity) :
    Rounds F.numbers F.evens mode (signed neg ((F.widen d).value (n * 2 ^ d)))
      (signed neg (F.value n)) := by
  rw [value_widen_mul]
  exact rounds_self ⟨n, hn, neg, rfl⟩

/-- Below the normal numbers and among the smallest of them the unit is not doubled. -/
theorem value_of_lt {n : ℕ} (hn : n < 2 ^ (F.fraction + 1)) : F.value n = n * 2 ^ F.unit := by
  have hzero : F.doublings n = 0 := by
    rw [doublings, Nat.sub_eq_zero_iff_le, ← Nat.lt_succ_iff]
    exact Nat.div_lt_of_lt_mul (by rwa [← Nat.pow_succ])
  rw [value, hzero]
  simp

/-- Normal numbers with consecutive indices are neighbours also with an unbounded exponent. -/
theorem between_normal (hp : 0 < F.fraction) {n : ℕ} (hn : 2 ^ F.fraction ≤ n) :
    Between (precise (F.fraction + 1)) (precise F.fraction) (F.value n) (F.value (n + 1))
      (Odd n) := by
  have hle := F.doublings_mul_le n
  have hpos : 0 < n / 2 ^ F.fraction := Nat.div_pos hn (Nat.two_pow_pos _)
  have hindex : n = F.doublings n * 2 ^ F.fraction + 2 ^ F.fraction + n % 2 ^ F.fraction := by
    rw [← Nat.succ_mul, doublings, Nat.succ_eq_add_one, Nat.sub_add_cancel hpos, Nat.div_add_mod']
  have hmod := Nat.mod_lt n (Nat.two_pow_pos F.fraction)
  have hbetween := between_precise (K := n - F.doublings n * 2 ^ F.fraction)
    (e := F.unit + F.doublings n) hp (by omega) (by rw [Nat.pow_succ]; omega)
  have hnext : ((n - F.doublings n * 2 ^ F.fraction + 1 : ℕ) : ℚ) * 2 ^ (F.unit + F.doublings n) =
      F.value (n + 1) := by
    rw [value_succ, value]
    push_cast
    ring
  have hodd : Odd (n - F.doublings n * 2 ^ F.fraction) ↔ Odd n := by
    have heven : Even (F.doublings n * 2 ^ F.fraction) :=
      Even.mul_left ((Nat.even_pow' hp.ne').2 even_two) _
    rw [← Nat.not_even_iff_odd, ← Nat.not_even_iff_odd, Nat.even_sub hle, iff_true_right heven]
  rw [hnext, propext hodd] at hbetween
  exact hbetween

theorem exists_roundsUnbounded_signed_iff {x : ℚ} {P : ℚ → Prop} :
    (∃ y, F.RoundsUnbounded mode (signed neg x) y ∧ P |y|) ↔
      ∃ y, F.RoundsUnbounded (mode.under neg) x y ∧ P |y| := by
  constructor
  · rintro ⟨y, hy, hP⟩
    refine ⟨signed neg y, (rounds_signed_iff neg_mem_precise neg_mem_precise neg).1 ?_, ?_⟩
    · rwa [signed_signed]
    · rwa [abs_signed]
  · rintro ⟨y, hy, hP⟩
    exact ⟨signed neg y, (rounds_signed_iff neg_mem_precise neg_mem_precise neg).2 hy, by
      rwa [abs_signed]⟩

theorem zero_mem_precise (p : ℕ) : (0 : ℚ) ∈ precise p := by
  have hmem := mem_precise (p := p) (e := 0) (Nat.two_pow_pos p)
  rwa [Nat.cast_zero, zero_mul] at hmem

/-- The smallest normal number has any precision. -/
theorem value_two_pow_mem (q : ℕ) : F.value (2 ^ F.fraction) ∈ precise (q + 1) := by
  rw [value_of_lt (Nat.pow_lt_pow_right (by norm_num) (Nat.lt_succ_self _))]
  exact mem_precise_two_pow (Nat.succ_pos q) _

/-- **Overflow, for a format with a longer fraction.** -/
theorem overflows_widen_iff (hp : 0 < F.fraction) (hnormal : 2 ^ F.fraction + 1 < F.infinity)
    {d n r : ℕ} (hn : n < F.infinity) (hr : r < 2 ^ d) :
    F.Overflows mode (signed neg ((F.widen d).value (n * 2 ^ d + r))) ↔
      n + 1 = F.infinity ∧ (mode.under neg).Away (Odd n) ((r : ℚ) / 2 ^ d) := by
  obtain ⟨h0, h1⟩ := div_two_pow_bounds hr
  have hx := F.value_widen d n hr
  rw [Overflows, exists_roundsUnbounded_signed_iff (P := fun y => F.value (F.infinity - 1) < y)]
  rcases Nat.lt_or_ge n (2 ^ F.fraction) with hlt | hge
  · -- a number below the smallest normal number is not rounded to one above it
    have hle : (F.widen d).value (n * 2 ^ d + r) ≤ F.value (2 ^ F.fraction) := by
      obtain ⟨-, hxb, -⟩ := (F.between hn).position h0 h1 hx
      exact hxb.le.trans (F.value_strictMono.monotone hlt)
    refine ⟨?_, fun h => absurd h.1 (by omega)⟩
    rintro ⟨y, hy, habove⟩
    have hnonneg := (F.widen d).value_nonneg (n * 2 ^ d + r)
    have hy0 : 0 ≤ y := Rounds.le_of_le hy (zero_mem_precise _) le_rfl hnonneg
    have hyle : y ≤ F.value (2 ^ F.fraction) := Rounds.ge_of_ge hy (value_two_pow_mem _) hnonneg hle
    have hmono : F.value (2 ^ F.fraction) < F.value (F.infinity - 1) :=
      F.value_strictMono (by omega)
    rw [abs_of_nonneg hy0] at habove
    exact absurd (habove.trans_le hyle) hmono.le.not_gt
  · have hrounds := (between_normal hp hge).rounds_iff h0 h1 hx (mode.under neg)
    have hindex : ∀ k, F.value (F.infinity - 1) < |F.value k| ↔ F.infinity - 1 < k := fun k => by
      rw [abs_of_nonneg (F.value_nonneg k), F.value_strictMono.lt_iff_lt]
    constructor
    · rintro ⟨y, hy, habove⟩
      rcases (hrounds y).1 hy with ⟨haway, rfl⟩ | ⟨-, rfl⟩
      · have hlast := (hindex _).1 habove
        exact ⟨by omega, haway⟩
      · have hlast := (hindex _).1 habove
        omega
    · rintro ⟨hlast, haway⟩
      exact ⟨_, (hrounds _).2 (Or.inl ⟨haway, rfl⟩), (hindex _).2 (by omega)⟩

/-- The index of the smallest normal number in a format with a longer fraction. -/
theorem value_widen_two_pow (d : ℕ) :
    (F.widen (d + 1)).value (2 ^ (F.fraction + 1) * 2 ^ d) = F.value (2 ^ F.fraction) := by
  rw [← F.value_widen_mul (d + 1), Nat.pow_succ, Nat.pow_succ, Nat.mul_assoc, Nat.mul_comm 2]

/-- The index of the last number below it that has full precision. -/
def lastTiny (F : Format) (d : ℕ) : ℕ := (2 ^ (F.fraction + 1) - 1) * 2 ^ d

theorem lastTiny_add (F : Format) (d : ℕ) :
    F.lastTiny d + 2 ^ d = 2 ^ (F.fraction + 1) * 2 ^ d := by
  rw [lastTiny, ← Nat.succ_mul, Nat.succ_eq_add_one, Nat.sub_add_cancel Nat.one_le_two_pow]

/-- The numbers with a longer fraction behind it. -/
theorem value_widen_lastTiny {d r : ℕ} (hr : r ≤ 2 ^ d) :
    (F.widen (d + 1)).value (F.lastTiny d + r) =
      ((2 ^ (F.fraction + 1) - 1 : ℕ) + (r : ℚ) / 2 ^ d) * 2 ^ (F.unit - 1) := by
  have hlast := F.lastTiny_add d
  have hbound : F.lastTiny d + r < 2 ^ ((F.widen (d + 1)).fraction + 1) := by
    refine (Nat.add_le_add_left hr _).trans_lt ?_
    rw [hlast, ← Nat.pow_add]
    refine Nat.pow_lt_pow_right (by norm_num) ?_
    show F.fraction + 1 + d < F.fraction + (d + 1) + 1
    omega
  have hunit : (2 : ℚ) ^ (F.unit - 1) = 2 ^ (F.widen (d + 1)).unit * 2 ^ d := by
    rw [← zpow_natCast, ← zpow_add₀ (by norm_num)]
    congr 1
    show F.unit - 1 = F.unit - ((d + 1 : ℕ) : ℤ) + d
    push_cast
    ring
  rw [value_of_lt hbound, hunit, lastTiny]
  push_cast
  field_simp

theorem value_lastTiny (d : ℕ) :
    (F.widen (d + 1)).value (F.lastTiny d) = (2 ^ (F.fraction + 1) - 1 : ℕ) * 2 ^ (F.unit - 1) := by
  have hzero := value_widen_lastTiny (F := F) (Nat.zero_le (2 ^ d))
  rwa [Nat.cast_zero, zero_div, add_zero, add_zero] at hzero

/-- **The last two numbers of full precision** up to the smallest normal number are neighbours. -/
theorem between_lastTiny (hp : 0 < F.fraction) (d : ℕ) :
    Between (precise (F.fraction + 1)) (precise F.fraction) ((F.widen (d + 1)).value (F.lastTiny d))
      (F.value (2 ^ F.fraction)) True := by
  have hone : 1 ≤ 2 ^ (F.fraction + 1) := Nat.one_le_two_pow
  have hbetween := between_precise (K := 2 ^ (F.fraction + 1) - 1) (e := F.unit - 1) hp
    (by rw [Nat.pow_succ] at hone ⊢; omega) (by omega)
  have hodd : Odd (2 ^ (F.fraction + 1) - 1) := by
    rw [Nat.pow_succ] at hone ⊢
    exact ⟨2 ^ F.fraction - 1, by omega⟩
  have hright : F.value (2 ^ F.fraction) = ((2 ^ (F.fraction + 1) - 1 + 1 : ℕ) : ℚ) * 2 ^
      (F.unit - 1) := by
    rw [← value_widen_two_pow d, ← F.lastTiny_add d, value_widen_lastTiny le_rfl]
    push_cast
    rw [div_self (by positivity)]
  rwa [← value_lastTiny d, ← hright, eq_true hodd] at hbetween

/-- **Tininess, for a format with a longer fraction.**  The numbers behind the last one below the
smallest normal number that has full precision may be rounded up to it. -/
theorem tiny_widen_iff (hp : 0 < F.fraction) {d m : ℕ} :
    F.Tiny mode (signed neg ((F.widen (d + 1)).value m)) ↔
      m < 2 ^ (F.fraction + 1) * 2 ^ d ∧
        ∀ r, m = F.lastTiny d + r → ¬ (mode.under neg).Away True ((r : ℚ) / 2 ^ d) := by
  have hnonneg := (F.widen (d + 1)).value_nonneg m
  have hmono := (F.widen (d + 1)).value_strictMono.monotone
  have hbetween := between_lastTiny hp d
  rw [Tiny, exists_roundsUnbounded_signed_iff (P := fun y => y < F.value (2 ^ F.fraction))]
  rcases Nat.lt_or_ge m (2 ^ (F.fraction + 1) * 2 ^ d) with hlt | hge
  · rcases Nat.lt_or_ge m (F.lastTiny d) with hbelow | hband
    · refine iff_of_true ?_ ⟨hlt, fun r hr => absurd hr (by omega)⟩
      obtain ⟨y, hy⟩ := exists_rounds hp (mode.under neg) hnonneg
      have hy0 : 0 ≤ y := hy.le_of_le (zero_mem_precise _) le_rfl hnonneg
      have hyle := hy.ge_of_ge hbetween.left hnonneg (hmono hbelow.le)
      exact ⟨y, hy, by rw [abs_of_nonneg hy0]; exact hyle.trans_lt hbetween.lt⟩
    · obtain ⟨r, rfl⟩ := Nat.exists_eq_add_of_le hband
      have hr : r < 2 ^ d := by
        rw [← F.lastTiny_add d] at hlt
        exact Nat.lt_of_add_lt_add_left hlt
      obtain ⟨h0, h1⟩ := div_two_pow_bounds hr
      have hx : (F.widen (d + 1)).value (F.lastTiny d + r) =
          (F.widen (d + 1)).value (F.lastTiny d) +
          (r : ℚ) / 2 ^ d *
            (F.value (2 ^ F.fraction) - (F.widen (d + 1)).value (F.lastTiny d)) := by
        rw [← value_widen_two_pow d, ← F.lastTiny_add d, value_widen_lastTiny le_rfl,
          value_widen_lastTiny hr.le, value_lastTiny]
        push_cast
        rw [div_self (by positivity)]
        ring
      have hrounds := hbetween.rounds_iff h0 h1 hx (mode.under neg)
      constructor
      · rintro ⟨y, hy, hsmall⟩
        refine ⟨hlt, fun r' hr' => ?_⟩
        obtain rfl := Nat.add_left_cancel hr'
        rcases (hrounds y).1 hy with ⟨-, rfl⟩ | ⟨haway, -⟩
        · rw [abs_of_nonneg (F.value_nonneg _)] at hsmall
          exact absurd hsmall (lt_irrefl _)
        · exact haway
      · rintro ⟨-, haway⟩
        refine ⟨_, (hrounds _).2 (Or.inr ⟨haway r rfl, rfl⟩), ?_⟩
        rw [abs_of_nonneg hbetween.nonneg]
        exact hbetween.lt
  · refine iff_of_false ?_ fun h => absurd h.1 hge.not_gt
    rintro ⟨y, hy, hsmall⟩
    have hle : F.value (2 ^ F.fraction) ≤ y := by
      refine Rounds.le_of_le hy (value_two_pow_mem _) (F.value_nonneg _) ?_
      rw [← value_widen_two_pow d]
      exact hmono hge
    exact absurd (hle.trans (le_abs_self y)) hsmall.not_ge

end Widen

end Format

end FloatRounding
