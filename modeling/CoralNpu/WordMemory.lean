/-
**Words in a memory of bytes.**

A memory gives a byte to every address of a fixed width; addresses wrap around.  Words are four
bytes, lowest first.

Main definitions:

* `WordMemory.loadWord`, `WordMemory.storeWord` — the word at an address, and a word written there.

Main results:

* `WordMemory.loadWord_storeWord` — a stored word is loaded again;
* `WordMemory.storeWord_loadWord` — storing the word that is there changes nothing;
* `WordMemory.loadWord_storeWord_of_disjoint` — words elsewhere are kept.
-/

import Mathlib.Data.BitVec

set_option relaxedAutoImplicit false
set_option autoImplicit false

namespace WordMemory

variable {w : ℕ}

/-- The little-endian word at an address. -/
def loadWord (memory : BitVec w → BitVec 8) (a : BitVec w) : BitVec 32 :=
  memory (a + 3#w) ++ memory (a + 2#w) ++ memory (a + 1#w) ++ memory a

/-- The memory with a word at an address. -/
def storeWord (memory : BitVec w → BitVec 8) (a : BitVec w) (value : BitVec 32) :
    BitVec w → BitVec 8 :=
  fun b => if (b - a).toNat < 4 then value.extractLsb' (8 * (b - a).toNat) 8 else memory b

/-- Small offsets are what they say. -/
theorem toNat_offset (hw : 2 ≤ w) {k : ℕ} (hk : k < 4) : (BitVec.ofNat w k).toNat = k := by
  have hpow : 2 ^ 2 ≤ 2 ^ w := Nat.pow_le_pow_right (by decide) hw
  rw [BitVec.toNat_ofNat, Nat.mod_eq_of_lt (by omega)]

/-- Memories with the same four bytes have the same word. -/
theorem loadWord_congr (hw : 2 ≤ w) {memory memory' : BitVec w → BitVec 8} {a : BitVec w}
    (h : ∀ k : BitVec w, k.toNat < 4 → memory (a + k) = memory' (a + k)) :
    loadWord memory a = loadWord memory' a := by
  have hbyte : ∀ n, n < 4 → memory (a + BitVec.ofNat w n) = memory' (a + BitVec.ofNat w n) :=
    fun n hn => h _ (by rw [toNat_offset hw hn]; exact hn)
  have hzero := hbyte 0 (by decide)
  rw [BitVec.add_zero] at hzero
  rw [loadWord, hbyte 3 (by decide), hbyte 2 (by decide), hbyte 1 (by decide), hzero, loadWord]

theorem storeWord_add (memory : BitVec w → BitVec 8) (a : BitVec w) (value : BitVec 32)
    {k : BitVec w} (h : k.toNat < 4) :
    storeWord memory a value (a + k) = value.extractLsb' (8 * k.toNat) 8 := by
  have hoffset : a + k - a = k := by rw [BitVec.add_comm, BitVec.add_sub_cancel]
  rw [storeWord, hoffset, if_pos h]

/-- A byte of a word. -/
theorem extractLsb'_loadWord (hw : 2 ≤ w) (memory : BitVec w → BitVec 8) (a : BitVec w)
    {k : BitVec w} (h : k.toNat < 4) :
    (loadWord memory a).extractLsb' (8 * k.toNat) 8 = memory (a + k) := by
  have hk : k = 0#w ∨ k = 1#w ∨ k = 2#w ∨ k = 3#w := by
    have hcases : k.toNat = 0 ∨ k.toNat = 1 ∨ k.toNat = 2 ∨ k.toNat = 3 := by omega
    have hof : ∀ n, n < 4 → k.toNat = n → k = BitVec.ofNat w n := by
      intro n hn heq
      exact BitVec.eq_of_toNat_eq (by rw [toNat_offset hw hn, heq])
    rcases hcases with h | h | h | h
    · exact Or.inl (hof 0 (by decide) h)
    · exact Or.inr (Or.inl (hof 1 (by decide) h))
    · exact Or.inr (Or.inr (Or.inl (hof 2 (by decide) h)))
    · exact Or.inr (Or.inr (Or.inr (hof 3 (by decide) h)))
  rcases hk with rfl | rfl | rfl | rfl <;>
  · rw [toNat_offset hw (by decide), loadWord]
    ext i hi
    simp
    grind

/-- **A stored word is loaded again.** -/
theorem loadWord_storeWord (hw : 2 ≤ w) (memory : BitVec w → BitVec 8) (a : BitVec w)
    (value : BitVec 32) : loadWord (storeWord memory a value) a = value := by
  have hbyte : ∀ n, n < 4 → storeWord memory a value (a + BitVec.ofNat w n) =
      value.extractLsb' (8 * n) 8 := by
    intro n hn
    have hlt : (BitVec.ofNat w n).toNat < 4 := by rw [toNat_offset hw hn]; exact hn
    rw [storeWord_add _ _ _ hlt, toNat_offset hw hn]
  have hzero := hbyte 0 (by decide)
  rw [BitVec.add_zero] at hzero
  rw [loadWord, hbyte 3 (by decide), hbyte 2 (by decide), hbyte 1 (by decide), hzero]
  ext i hi
  simp
  grind

/-- **Storing the word that is there changes nothing.** -/
theorem storeWord_loadWord (hw : 2 ≤ w) (memory : BitVec w → BitVec 8) (a : BitVec w) :
    storeWord memory a (loadWord memory a) = memory := by
  funext b
  by_cases h : (b - a).toNat < 4
  · rw [storeWord, if_pos h, extractLsb'_loadWord hw _ _ h, BitVec.add_comm, BitVec.sub_add_cancel]
  · rw [storeWord, if_neg h]

/-- The bytes of a word elsewhere are outside the window of a word. -/
theorem not_toNat_add_sub_lt {a b k : BitVec w} (hk : k.toNat < 4) (h : 4 ≤ (b - a).toNat)
    (h' : (b - a).toNat + 4 ≤ 2 ^ w) : ¬ (b + k - a).toNat < 4 := by
  have hoffset : b + k - a = b - a + k := by
    rw [BitVec.sub_eq_add_neg, BitVec.sub_eq_add_neg, BitVec.add_assoc, BitVec.add_comm k,
      ← BitVec.add_assoc]
  rw [hoffset, BitVec.toNat_add, Nat.mod_eq_of_lt (by omega)]
  omega

/-- The window of a word, seen from another address. -/
theorem storeWord_add_of_disjoint (memory : BitVec w → BitVec 8) {a b k : BitVec w}
    (value : BitVec 32) (hk : k.toNat < 4) (h : 4 ≤ (b - a).toNat)
    (h' : (b - a).toNat + 4 ≤ 2 ^ w) : storeWord memory a value (b + k) = memory (b + k) :=
  if_neg (not_toNat_add_sub_lt hk h h')

/-- **A word elsewhere is kept.** -/
theorem loadWord_storeWord_of_disjoint (hw : 2 ≤ w) (memory : BitVec w → BitVec 8)
    {a b : BitVec w} (value : BitVec 32) (h : 4 ≤ (b - a).toNat)
    (h' : (b - a).toNat + 4 ≤ 2 ^ w) :
    loadWord (storeWord memory a value) b = loadWord memory b :=
  loadWord_congr hw fun _ hk => storeWord_add_of_disjoint memory value hk h h'

end WordMemory
