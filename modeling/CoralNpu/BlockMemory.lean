/-
**A memory kept in blocks.**

A memory is handed over as a list of blocks of one size, the last of which may be shorter.  An
address is the number of its block and an offset there.  Seen from outside it is a flat memory: a
piece of a block is a range of it, and replacing the piece writes the range.

Main definitions:

* `BlockMemory.patch` — a list with a part of it replaced;
* `BlockMemory.view` — the flat memory the blocks are;
* `BlockMemory.Covers` — the blocks have a place for each address of a range.

Main results:

* `BlockMemory.patch_patch` — two parts, one behind the other, are replaced as one;
* `BlockMemory.take_drop_eq_read`, `BlockMemory.view_set_patch` — a piece of a block is a range of
  the flat memory;
* `BlockMemory.Covers.set` — writing keeps the places.
-/

import CoralNpu.FlatMemory
import Mathlib.Tactic.Ring

set_option relaxedAutoImplicit false
set_option autoImplicit false

namespace BlockMemory

open FlatMemory

variable {w : ℕ} {β : Type}

/-! ### Replacing a part of a list -/

/-- The list with `ys` in place of what it has from `p` on. -/
def patch (xs : List β) (p : ℕ) (ys : List β) : List β := xs.take p ++ ys ++ xs.drop (p + ys.length)

theorem length_patch {xs ys : List β} {p : ℕ} (h : p + ys.length ≤ xs.length) :
    (patch xs p ys).length = xs.length := by
  rw [patch, List.length_append, List.length_append, List.length_take, List.length_drop]
  omega

/-- The part replaced. -/
theorem getElem?_patch_inside {xs ys : List β} {p i : ℕ} (hp : p ≤ xs.length) (hlo : p ≤ i)
    (hhi : i < p + ys.length) : (patch xs p ys)[i]? = ys[i - p]? := by
  rw [patch, List.getElem?_append_left, List.getElem?_append_right, List.length_take_of_le hp]
  · rw [List.length_take_of_le hp]
    exact hlo
  · rw [List.length_append, List.length_take_of_le hp]
    exact hhi

/-- The rest of the list. -/
theorem getElem?_patch_outside {xs ys : List β} {p i : ℕ} (hp : p ≤ xs.length)
    (h : i < p ∨ p + ys.length ≤ i) : (patch xs p ys)[i]? = xs[i]? := by
  rcases h with h | h
  · rw [patch, List.append_assoc,
      List.getElem?_append_left (by rw [List.length_take_of_le hp]; exact h),
      List.getElem?_take_of_lt h]
  · have hlen : (xs.take p ++ ys).length = p + ys.length := by
      rw [List.length_append, List.length_take_of_le hp]
    rw [patch, List.getElem?_append_right (by rw [hlen]; exact h), hlen, List.getElem?_drop]
    congr 1
    omega

/-- **Two parts, one behind the other, are replaced as one.** -/
theorem patch_patch {xs : List β} {p : ℕ} (ys zs : List β) (h : p ≤ xs.length) :
    patch (patch xs p ys) (p + ys.length) zs = patch xs p (ys ++ zs) := by
  have hlen : (xs.take p ++ ys).length = p + ys.length := by
    rw [List.length_append, List.length_take_of_le h]
  have htake : (patch xs p ys).take (p + ys.length) = xs.take p ++ ys := by
    rw [patch, List.take_append_of_le_length hlen.ge, ← hlen, List.take_length]
  have hdrop : (patch xs p ys).drop (p + ys.length + zs.length) =
      xs.drop (p + (ys ++ zs).length) := by
    rw [patch, ← hlen, List.drop_length_add_append, List.drop_drop, hlen, List.length_append]
    congr 1
    omega
  rw [patch, htake, hdrop, patch, List.append_assoc (xs.take p)]

theorem patch_all {xs ys : List β} (h : ys.length = xs.length) : patch xs 0 ys = ys := by
  rw [patch, Nat.zero_add, h, List.drop_length, List.take_zero, List.nil_append, List.append_nil]

/-! ### The flat memory -/

/-- The value at an address: its block is found by dividing. -/
def view (d : β) (size : ℕ) (blocks : List (List β)) : BitVec w → β :=
  fun a => (blocks.getD (a.toNat / size) []).getD (a.toNat % size) d

/-- The blocks have a place for each address of the range. -/
def Covers (size : ℕ) (blocks : List (List β)) (lo hi : ℕ) : Prop :=
  ∀ a, lo ≤ a → a < hi → ∃ block, blocks[a / size]? = some block ∧ a % size < block.length

/-- The value at an address of a block. -/
theorem view_of_block (d : β) {size : ℕ} {blocks : List (List β)} {block : List β} {a : BitVec w}
    (h : blocks[a.toNat / size]? = some block) :
    view d size blocks a = block.getD (a.toNat % size) d := by
  rw [view, List.getD_eq_getElem?_getD (l := blocks), h, Option.getD_some]

/-- An address of the same block. -/
theorem div_mod_add (a i size : ℕ) (h : a % size + i < size) :
    (a + i) / size = a / size ∧ (a + i) % size = a % size + i := by
  apply (Nat.div_mod_unique (by omega)).2
  refine ⟨?_, h⟩
  have hdiv := Nat.div_add_mod a size
  have hcomm : a % size + i + size * (a / size) = size * (a / size) + a % size + i := by ring
  rw [hcomm, hdiv]

/-- The offset of an address in a range that does not go around. -/
theorem toNat_sub_lt_iff {a b : BitVec w} {n : ℕ} (hn : a.toNat + n ≤ 2 ^ w) :
    (b - a).toNat < n ↔ a.toNat ≤ b.toNat ∧ b.toNat < a.toNat + n := by
  have ha := a.isLt
  have hb := b.isLt
  rw [BitVec.toNat_sub]
  rcases le_or_gt a.toNat b.toNat with h | h
  · have hsub : (2 ^ w - a.toNat + b.toNat) % 2 ^ w = b.toNat - a.toNat := by
      rw [show 2 ^ w - a.toNat + b.toNat = b.toNat - a.toNat + 2 ^ w by omega, Nat.add_mod_right,
        Nat.mod_eq_of_lt (by omega)]
    omega
  · rw [Nat.mod_eq_of_lt (by omega)]
    omega

/-- **A piece of a block is a range of the memory.** -/
theorem take_drop_eq_read {d : β} {size n : ℕ} {blocks : List (List β)} {block : List β}
    {a : BitVec w} (hblock : blocks[a.toNat / size]? = some block)
    (hsize : a.toNat % size + n ≤ size) (hlength : a.toNat % size + n ≤ block.length)
    (hn : a.toNat + n ≤ 2 ^ w) :
    (block.drop (a.toNat % size)).take n = read (view d size blocks) a n := by
  apply List.ext_getElem
  · rw [List.length_take, List.length_drop, length_read]
    omega
  · intro i hi hi'
    rw [length_read] at hi'
    obtain ⟨hdiv, hmod⟩ := div_mod_add a.toNat i size (by omega)
    have haddr : (a + BitVec.ofNat w i).toNat = a.toNat + i := by
      rw [BitVec.toNat_add, BitVec.toNat_ofNat, Nat.mod_eq_of_lt (a := i) (by omega),
        Nat.mod_eq_of_lt (by omega)]
    have hblock' : blocks[(a + BitVec.ofNat w i).toNat / size]? = some block := by
      rw [haddr, hdiv, hblock]
    rw [getElem_read, view_of_block d hblock', haddr, hmod, List.getD_eq_getElem _ _ (by omega),
      List.getElem_take, List.getElem_drop]

/-- **Replacing a piece of a block writes a range of the memory.** -/
theorem view_set_patch {d : β} {size : ℕ} {blocks : List (List β)} {block values : List β}
    {a : BitVec w} (hblock : blocks[a.toNat / size]? = some block)
    (hsize : a.toNat % size + values.length ≤ size)
    (hlength : a.toNat % size + values.length ≤ block.length)
    (hn : a.toNat + values.length ≤ 2 ^ w) :
    view d size (blocks.set (a.toNat / size) (patch block (a.toNat % size) values)) =
      write (view d size blocks) a values := by
  have hlt : a.toNat / size < blocks.length := (List.getElem?_eq_some_iff.1 hblock).1
  funext b
  by_cases hsame : b.toNat / size = a.toNat / size
  · have hset :
        (blocks.set (a.toNat / size) (patch block (a.toNat % size) values))[b.toNat / size]? =
        some (patch block (a.toNat % size) values) := by
      rw [hsame, List.getElem?_set_self hlt]
    have hdivA := Nat.div_add_mod a.toNat size
    have hdivB := Nat.div_add_mod b.toNat size
    rw [hsame] at hdivB
    rw [view_of_block d hset, List.getD_eq_getElem?_getD]
    rcases Nat.lt_or_ge (b - a).toNat values.length with hin | hout
    · have hrange := (toNat_sub_lt_iff hn).1 hin
      have hoffset : b.toNat % size - a.toNat % size = (b - a).toNat := by
        rw [BitVec.toNat_sub_of_le (BitVec.le_def.2 hrange.1)]
        omega
      rw [write_of_inside _ hin, getElem?_patch_inside (by omega) (by omega) (by omega), hoffset,
        List.getElem?_eq_getElem hin, Option.getD_some]
    · -- elsewhere in the block
      have hrange := mt (toNat_sub_lt_iff hn).2 (not_lt.2 hout)
      rw [write_of_outside _ hout, view_of_block d (hsame ▸ hblock),
        getElem?_patch_outside (by omega) (by omega), List.getD_eq_getElem?_getD]
  · -- another block
    have hout : values.length ≤ (b - a).toNat := by
      refine not_lt.1 (mt (toNat_sub_lt_iff hn).1 fun hrange => hsame ?_)
      obtain ⟨hdiv, -⟩ :=
        div_mod_add a.toNat (b.toNat - a.toNat) size (by omega)
      rw [← hdiv, Nat.add_sub_cancel' hrange.1]
    have hset := List.getElem?_set_ne (a := patch block (a.toNat % size) values) (l := blocks)
      (Ne.symm hsame)
    rw [write_of_outside _ hout, view, List.getD_eq_getElem?_getD (l := List.set ..), hset,
      ← List.getD_eq_getElem?_getD, view]

/-- Replacing a block by one of its length keeps the places. -/
theorem Covers.set {size lo hi : ℕ} {blocks : List (List β)} (h : Covers size blocks lo hi) {k : ℕ}
    {block block' : List β} (hblock : blocks[k]? = some block)
    (hlength : block'.length = block.length) :
    Covers size (blocks.set k block') lo hi := by
  intro a hlo hhi
  obtain ⟨found, hfound, hlt⟩ := h a hlo hhi
  rw [List.getElem?_set, if_pos (List.getElem?_eq_some_iff.1 hblock).1]
  by_cases hk : k = a / size
  · rw [hk, hfound] at hblock
    obtain rfl := Option.some.inj hblock
    exact ⟨block', if_pos hk, hlength ▸ hlt⟩
  · exact ⟨found, by rw [if_neg hk, hfound], hlt⟩

end BlockMemory
