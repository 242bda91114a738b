/-
**The vector instruction groups.**

Most vector instructions come as a family: one pattern for each element width, form of the operands
and mask.  The patterns of a family share constraints and differ in the fields `sz`, `form` and `m`.

Main definitions:

* `CoralNpu.VectorOpcode` — the opcodes of the groups;
* `CoralNpu.VectorFamily` — a family, with facts about any word that one of its patterns matches;
* `CoralNpu.vectorArithInst`, `CoralNpu.vectorConvInst`, `CoralNpu.vectorMemoryInst`,
  `CoralNpu.vectorMulInst`, `CoralNpu.vectorShiftInst` — the groups.

Main results:

* `CoralNpu.VectorFamily.opcode_eq` — **one family does not claim a word twice**.
-/

import CoralNpu.BinFmt
import CoralNpu.CodeImage

set_option relaxedAutoImplicit false
set_option autoImplicit false

namespace CoralNpu

open BinFmt
open CodeImage (Word)

/-! ### Formats -/

-- CoralNPU 2 args Vector format.
def CoralNPUV2ArgsType.func2 : Field := ⟨26, 6⟩
def CoralNPUV2ArgsType.vs2 : Field := ⟨20, 6⟩
def CoralNPUV2ArgsType.vs1 : Field := ⟨14, 6⟩
def CoralNPUV2ArgsType.sz : Field := ⟨12, 2⟩
def CoralNPUV2ArgsType.vd : Field := ⟨6, 6⟩
def CoralNPUV2ArgsType.m : Field := ⟨5, 1⟩
def CoralNPUV2ArgsType.func1 : Field := ⟨2, 3⟩
def CoralNPUV2ArgsType.form : Field := ⟨0, 2⟩
-- For accumulation register support.
def CoralNPUV2ArgsType.vs1Low4 : Field := ⟨14, 4⟩
def CoralNPUV2ArgsType.vs1Low2 : Field := ⟨14, 2⟩
def CoralNPUV2ArgsType.vdLow2 : Field := ⟨6, 2⟩

-- CoralNPU 3 args vector format.
def CoralNPUV3ArgsType.vs2 : Field := ⟨20, 6⟩
def CoralNPUV3ArgsType.func3Hi : Field := ⟨12, 2⟩
def CoralNPUV3ArgsType.vd : Field := ⟨6, 6⟩
def CoralNPUV3ArgsType.m : Field := ⟨5, 1⟩
def CoralNPUV3ArgsType.func3Lo : Field := ⟨3, 2⟩
def CoralNPUV3ArgsType.form : Field := ⟨0, 3⟩
def CoralNPUV3ArgsType.vs2Hi1 : Field := ⟨25, 1⟩
def CoralNPUV3ArgsType.vs1Low4 : Field := ⟨14, 4⟩
def CoralNPUV3ArgsType.vs3Low3 : Field := ⟨26, 3⟩
def CoralNPUV3ArgsType.vdLow2 : Field := ⟨6, 2⟩

/-! ### Opcodes -/

/-- The name of an instruction up to width, form and mask, with its modifier at the end: `vltU` is
for `vlt_u_b_vv` and the like. -/
inductive VectorStem where
  | vadd | vsub | vrsub | veq | vne | vlt | vltU | vle | vleU | vgt | vgtU | vge | vgeU | vabsd
  | vabsdU | vmax | vmaxU | vmin | vminU | vadd3 | vadds | vaddsU | vsubs | vsubsU | vaddw | vaddwU
  | vsubw | vsubwU | vacc | vaccU | vpadd | vpaddU | vpsub | vpsubU | vhadd | vhaddR | vhaddU
  | vhaddUr | vhsub | vhsubR | vhsubU | vhsubUr | vand | vor | vxor | vrev | vror | vmvp | aconv
  | adwconv | vdwconv | vld | vldP | vldL | vldLp | vldS | vldSp | vldTp | vst | vstP | vstL
  | vstLp | vstS | vstSp | vstTp | vstqS | vstqSp | vdup | vcget | acset | actr | adwinit | vmul
  | vmuls | vmulsu | vmulw | vmulwU | vmulh | vmulhR | vmulhU | vmulhUr | vdmulh | vdmulhR
  | vdmulhRn | vmacc | vmadd | vsll | vsra | vsrl | vsha | vshaR | vshl | vshlR | vnot | vclb
  | vclz | vcpop | vmv | vsrans | vsransR | vsransu | vsransuR | vsraqs | vsraqsR | vsraqsu
  | vsraqsuR | vsliden1 | vsliden2 | vsliden3 | vsliden4 | vslidevn1 | vslidevn2 | vslidevn3
  | vslidevn4 | vslidehn1 | vslidehn2 | vslidehn3 | vslidehn4 | vslidep1 | vslidep2 | vslidep3
  | vslidep4 | vslidevp1 | vslidevp2 | vslidevp3 | vslidevp4 | vslidehp1 | vslidehp2 | vslidehp3
  | vslidehp4 | vsel | vevn | vodd | vevnodd | vzip
  deriving DecidableEq

/-- The width of an element. -/
inductive VectorWidth where
  | b | h | w
  deriving DecidableEq

/-- `sz`. -/
def VectorWidth.value : VectorWidth → ℕ
  | b => 0b00
  | h => 0b01
  | w => 0b10

/-- The form of the operands. -/
inductive VectorForm where
  | vv | vx | v | x | xx | vxv
  deriving DecidableEq

/-- `form`, which has a bit more for `vxv`. -/
def VectorForm.value : VectorForm → ℕ
  | vv => 0b00
  | vx => 0b10
  | v => 0b10
  | x => 0b11
  | xx => 0b11
  | vxv => 0b101

/-- A vector opcode; the name of a masked one ends in `_m`. -/
structure VectorOpcode where
  stem : VectorStem
  width : Option VectorWidth
  form : Option VectorForm
  masked : Bool
  deriving DecidableEq

theorem VectorWidth.value_injective : Function.Injective VectorWidth.value := by
  intro width width' h
  cases width <;> cases width' <;> first | rfl | cases h

/-! ### Families -/

section Family

open CoralNPUV2ArgsType

/-- Patterns with one opcode up to width, form and mask.  The facts hold of every word that one of
the patterns matches, and a word has one opcode at most. -/
structure VectorFamily where
  stem : VectorStem
  facts : List Constraint
  patterns : List (Pattern VectorOpcode)
  stem_eq : ∀ p ∈ patterns, p.opcode.stem = stem
  facts_hold : ∀ p ∈ patterns, ∀ w : Word, p.Matches w → ∀ c ∈ facts, c.Holds w
  opcode_eq : ∀ p ∈ patterns, ∀ q ∈ patterns, ∀ w : Word, p.Matches w → q.Matches w →
    p.opcode = q.opcode

/-- The pattern of one form, with a mask or without. -/
def variant (stem : VectorStem) (shared : List Constraint) (width : Option VectorWidth)
    (vform : VectorForm) (masked : Bool) : Pattern VectorOpcode :=
  ⟨⟨stem, width, some vform, masked⟩,
    shared ++ (width.map fun width => Constraint.eq sz width.value).toList ++
      [.eq m masked.toNat, .eq form vform.value]⟩

/-- The patterns of all forms, with the masks. -/
def variants (stem : VectorStem) (shared : List Constraint) (width : Option VectorWidth)
    (forms : List VectorForm) (masks : List Bool) : List (Pattern VectorOpcode) :=
  forms.flatMap fun form => masks.map fun masked => variant stem shared width form masked

/-- What is known about `m`. -/
def maskFacts : List Bool → List Constraint
  | [masked] => [.eq m masked.toNat]
  | _ => []

/-- The lowest bit of `form`. -/
def formLow1 : Field := ⟨0, 1⟩

/-- What is known about `form`. -/
def formFacts : List VectorForm → List Constraint
  | [vform] => [.eq form vform.value]
  | forms => if ∀ vform ∈ forms, vform.value % 2 = 0 then [.eq formLow1 0] else []

variable {stem : VectorStem} {shared : List Constraint} {width width' : Option VectorWidth}
  {forms : List VectorForm} {masks : List Bool} {vform vform' : VectorForm} {masked masked' : Bool}
  {w : Word}

theorem mem_variants {p : Pattern VectorOpcode} : p ∈ variants stem shared width forms masks ↔
    ∃ vform ∈ forms, ∃ masked ∈ masks, variant stem shared width vform masked = p := by
  simp [variants]

theorem variant_matches (h : (variant stem shared width vform masked).Matches w) :
    (∀ c ∈ shared, c.Holds w) ∧ (∀ width' ∈ width, sz.get w = width'.value) ∧
      m.get w = masked.toNat ∧ form.get w = vform.value := by
  refine ⟨fun c hc => h c ?_, fun width' hwidth => h (.eq sz width'.value) ?_, h (.eq m _) ?_,
    h (.eq form _) ?_⟩
  · simp [variant, hc]
  · simp [variant, Option.mem_def.1 hwidth]
  · simp [variant]
  · simp [variant]

theorem maskFacts_hold (hmasked : masked ∈ masks) (h : m.get w = masked.toNat) :
    ∀ c ∈ maskFacts masks, c.Holds w := by
  intro c hc
  rw [maskFacts.eq_def] at hc
  split at hc
  · rw [List.mem_singleton] at hc hmasked
    subst hc hmasked
    exact h
  · cases hc

theorem formLow1_get (w : Word) : formLow1.get w = form.get w % 2 := by
  simp only [Field.get, BitVec.extractLsb'_toNat, formLow1, form]
  omega

theorem formFacts_hold (hform : vform ∈ forms) (h : form.get w = vform.value) :
    ∀ c ∈ formFacts forms, c.Holds w := by
  intro c hc
  rw [formFacts.eq_def] at hc
  split at hc
  · rw [List.mem_singleton] at hc hform
    subst hc hform
    exact h
  · split at hc
    · rename_i heven
      obtain rfl := List.mem_singleton.1 hc
      rw [Constraint.Holds, formLow1_get, h, heven vform hform]
    · cases hc

/-- The facts of a family hold of the words that its patterns match. -/
theorem variant_facts_hold (hform : vform ∈ forms) (hmasked : masked ∈ masks)
    (h : (variant stem shared width vform masked).Matches w) :
    ∀ c ∈ shared ++ maskFacts masks ++ formFacts forms, c.Holds w := by
  obtain ⟨hshared, -, hm, hf⟩ := variant_matches h
  intro c hc
  rw [List.mem_append, List.mem_append] at hc
  obtain (hc | hc) | hc := hc
  · exact hshared c hc
  · exact maskFacts_hold hmasked hm c hc
  · exact formFacts_hold hform hf c hc

/-- Forms that the field tells apart. -/
def Told (forms : List VectorForm) : Prop :=
  ∀ vform ∈ forms, ∀ vform' ∈ forms, vform.value = vform'.value → vform = vform'

instance : Decidable (Told forms) :=
  inferInstanceAs (Decidable (∀ vform ∈ forms, ∀ vform' ∈ forms, _ → _))

theorem variant_opcode_eq (htold : Told forms) (hform : vform ∈ forms) (hform' : vform' ∈ forms)
    (hwidth : width = none ↔ width' = none) (h : (variant stem shared width vform masked).Matches w)
    (h' : (variant stem shared width' vform' masked').Matches w) :
    (variant stem shared width vform masked).opcode =
      (variant stem shared width' vform' masked').opcode := by
  obtain ⟨-, hsz, hm, hf⟩ := variant_matches h
  obtain ⟨-, hsz', hm', hf'⟩ := variant_matches h'
  have hmasked : masked = masked' :=
    Function.LeftInverse.injective Bool.ofNat_toNat (hm.symm.trans hm')
  have hforms : vform = vform' := htold vform hform vform' hform' (hf.symm.trans hf')
  have hwidths : width = width' := by
    cases width with
    | none => rw [hwidth.1 rfl]
    | some width =>
        cases width' with
        | none => cases hwidth.2 rfl
        | some width' =>
            rw [VectorWidth.value_injective ((hsz width rfl).symm.trans (hsz' width' rfl))]
  rw [variant, variant, hmasked, hforms, hwidths]

namespace VectorFamily

/-- A family without element widths. -/
def unsized (stem : VectorStem) (shared : List Constraint) (forms : List VectorForm)
    (masks : List Bool) (htold : Told forms := by decide) : VectorFamily where
  stem := stem
  facts := shared ++ maskFacts masks ++ formFacts forms
  patterns := variants stem shared none forms masks
  stem_eq p hp := by
    obtain ⟨vform, -, masked, -, rfl⟩ := mem_variants.1 hp
    rfl
  facts_hold p hp w h := by
    obtain ⟨vform, hform, masked, hmasked, rfl⟩ := mem_variants.1 hp
    exact variant_facts_hold hform hmasked h
  opcode_eq p hp q hq w h h' := by
    obtain ⟨vform, hform, masked, -, rfl⟩ := mem_variants.1 hp
    obtain ⟨vform', hform', masked', -, rfl⟩ := mem_variants.1 hq
    exact variant_opcode_eq htold hform hform' Iff.rfl h h'

/-- A family with element widths. -/
def sized (stem : VectorStem) (shared : List Constraint) (widths : List VectorWidth)
    (forms : List VectorForm) (masks : List Bool) (htold : Told forms := by decide) :
    VectorFamily where
  stem := stem
  facts := shared ++ maskFacts masks ++ formFacts forms
  patterns := widths.flatMap fun width => variants stem shared (some width) forms masks
  stem_eq p hp := by
    obtain ⟨width, -, hvariant⟩ := List.mem_flatMap.1 hp
    obtain ⟨vform, -, masked, -, rfl⟩ := mem_variants.1 hvariant
    rfl
  facts_hold p hp w h := by
    obtain ⟨width, -, hvariant⟩ := List.mem_flatMap.1 hp
    obtain ⟨vform, hform, masked, hmasked, rfl⟩ := mem_variants.1 hvariant
    exact variant_facts_hold hform hmasked h
  opcode_eq p hp q hq w h h' := by
    obtain ⟨width, -, hvariant⟩ := List.mem_flatMap.1 hp
    obtain ⟨vform, hform, masked, -, rfl⟩ := mem_variants.1 hvariant
    obtain ⟨width', -, hvariant'⟩ := List.mem_flatMap.1 hq
    obtain ⟨vform', hform', masked', -, rfl⟩ := mem_variants.1 hvariant'
    exact variant_opcode_eq htold hform hform' (by simp) h h'

/-- A single pattern. -/
def single (stem : VectorStem) (vform : Option VectorForm) (constraints : List Constraint) :
    VectorFamily where
  stem := stem
  facts := constraints
  patterns := [⟨⟨stem, none, vform, false⟩, constraints⟩]
  stem_eq p hp := by rw [List.mem_singleton.1 hp]
  facts_hold p hp w h := by
    obtain rfl := List.mem_singleton.1 hp
    exact h
  opcode_eq p hp q hq w _ _ := by rw [List.mem_singleton.1 hp, List.mem_singleton.1 hq]

/-- Vectors or a scalar as the second operand, with a mask or without. -/
def vvVx (stem : VectorStem) (func2 func1 : ℕ) (widths : List VectorWidth) : VectorFamily :=
  sized stem [.eq CoralNPUV2ArgsType.func2 func2, .eq CoralNPUV2ArgsType.func1 func1] widths
    [.vv, .vx] [false, true]

/-- The same for elements of any width. -/
def any (stem : VectorStem) (func2 func1 : ℕ) : VectorFamily := vvVx stem func2 func1 [.b, .h, .w]

/-- The slides, whose masked form is another instruction. -/
def slide (stem : VectorStem) (func2 : ℕ) (masked : Bool) : VectorFamily :=
  sized stem [.eq CoralNPUV2ArgsType.func2 func2, .eq func1 0b110] [.b, .h, .w] [.vv] [masked]

/-- Loads and stores without an offset register. -/
def addressX (stem : VectorStem) (func2 : ℕ) : VectorFamily :=
  sized stem [.eq CoralNPUV2ArgsType.func2 func2, .eq vs2 0, .eq func1 0b111] [.b, .h, .w] [.x]
    [false, true]

/-- Loads and stores with an offset register. -/
def addressXx (stem : VectorStem) (func2 : ℕ) : VectorFamily :=
  sized stem [.eq CoralNPUV2ArgsType.func2 func2, .ne vs2 0, .eq func1 0b111] [.b, .h, .w] [.xx]
    [false, true]

end VectorFamily

/-! ### The groups -/

/-- `CoralNPUVectorArithInst`. -/
def vectorArithInst : List VectorFamily := [
  .any .vadd 0b00_0000 0b000,
  .any .vsub 0b00_0001 0b000,
  .any .vrsub 0b00_0010 0b000,
  .any .veq 0b00_0110 0b000,
  .any .vne 0b00_0111 0b000,
  .any .vlt 0b00_1000 0b000,
  .any .vltU 0b00_1001 0b000,
  .any .vle 0b00_1010 0b000,
  .any .vleU 0b00_1011 0b000,
  .any .vgt 0b00_1100 0b000,
  .any .vgtU 0b00_1101 0b000,
  .any .vge 0b00_1110 0b000,
  .any .vgeU 0b00_1111 0b000,
  .any .vabsd 0b01_0000 0b000,
  .any .vabsdU 0b01_0001 0b000,
  .any .vmax 0b01_0010 0b000,
  .any .vmaxU 0b01_0011 0b000,
  .any .vmin 0b01_0100 0b000,
  .any .vminU 0b01_0101 0b000,
  .any .vadd3 0b01_1000 0b000,
  .any .vadds 0b00_0000 0b100,
  .any .vaddsU 0b00_0001 0b100,
  .any .vsubs 0b00_0010 0b100,
  .any .vsubsU 0b00_0011 0b100,
  .vvVx .vaddw 0b00_0100 0b100 [.h, .w],
  .vvVx .vaddwU 0b00_0101 0b100 [.h, .w],
  .vvVx .vsubw 0b00_0110 0b100 [.h, .w],
  .vvVx .vsubwU 0b00_0111 0b100 [.h, .w],
  .vvVx .vacc 0b00_1010 0b100 [.h, .w],
  .vvVx .vaccU 0b00_1011 0b100 [.h, .w],
  .sized .vpadd [.eq func2 0b00_1100, .eq vs2 0, .eq func1 0b100] [.h, .w] [.v] [false, true],
  .sized .vpaddU [.eq func2 0b00_1101, .eq vs2 0, .eq func1 0b100] [.h, .w] [.v] [false, true],
  .sized .vpsub [.eq func2 0b00_1110, .eq vs2 0, .eq func1 0b100] [.h, .w] [.v] [false, true],
  .sized .vpsubU [.eq func2 0b00_1111, .eq vs2 0, .eq func1 0b100] [.h, .w] [.v] [false, true],
  .any .vhadd 0b01_0000 0b100,
  .any .vhaddR 0b01_0010 0b100,
  .any .vhaddU 0b01_0001 0b100,
  .any .vhaddUr 0b01_0011 0b100,
  .any .vhsub 0b01_0100 0b100,
  .any .vhsubR 0b01_0110 0b100,
  .any .vhsubU 0b01_0101 0b100,
  .any .vhsubUr 0b01_0111 0b100,
  .unsized .vand [.eq func2 0b00_0000, .eq func1 0b001] [.vv] [false, true],
  .sized .vand [.eq func2 0b00_0000, .eq func1 0b001] [.b, .h, .w] [.vx] [false, true],
  .unsized .vor [.eq func2 0b00_0001, .eq func1 0b001] [.vv] [false, true],
  .sized .vor [.eq func2 0b00_0001, .eq func1 0b001] [.b, .h, .w] [.vx] [false, true],
  .unsized .vxor [.eq func2 0b00_0010, .eq func1 0b001] [.vv] [false, true],
  .sized .vxor [.eq func2 0b00_0010, .eq func1 0b001] [.b, .h, .w] [.vx] [false, true],
  .any .vrev 0b00_0100 0b001,
  .any .vror 0b00_0101 0b001,
  .unsized .vmvp [.eq func2 0b00_1101, .eq func1 0b001] [.vv] [false, true],
  .sized .vmvp [.eq func2 0b00_1101, .eq func1 0b001] [.b, .h, .w] [.vx] [false, true]]

end Family

open CoralNPUV3ArgsType in
/-- `CoralNPUVectorConvInst`. -/
def vectorConvInst : List VectorFamily := [
  .single .aconv (some .vxv) [.eq func3Hi 0b10, .eq func3Lo 0b00, .eq vd 48, .eq vs1Low4 0b0000,
      .ne vs2 0, .eq vs3Low3 0b000, .eq m 0, .eq form 0b101],
  .single .adwconv (some .vxv) [.eq func3Hi 0b10, .eq func3Lo 0b10, .eq vdLow2 0b00,
      .eq vs2Hi1 1, .eq m 0, .eq form 0b101],
  .single .vdwconv (some .vxv) [.eq func3Hi 0b10, .eq func3Lo 0b10, .eq vdLow2 0b00,
      .eq vs2Hi1 0, .eq m 0, .eq form 0b101]]

open CoralNPUV2ArgsType in
/-- `CoralNPUVectorMemoryInst`. -/
def vectorMemoryInst : List VectorFamily := [
  .addressX .vld 0b00_0000,
  .addressX .vldP 0b00_0100,
  .addressXx .vldP 0b00_0100,
  .addressXx .vldL 0b00_0001,
  .addressXx .vldLp 0b00_0101,
  .addressXx .vldS 0b00_0010,
  .addressXx .vldSp 0b00_0110,
  .addressXx .vldTp 0b00_0111,
  .addressX .vst 0b00_1000,
  .addressX .vstP 0b00_1100,
  .addressXx .vstP 0b00_1100,
  .addressXx .vstL 0b00_1001,
  .addressXx .vstLp 0b00_1101,
  .addressXx .vstS 0b00_1010,
  .addressXx .vstSp 0b00_1110,
  .addressXx .vstTp 0b00_1111,
  .addressXx .vstqS 0b01_1010,
  .addressXx .vstqSp 0b01_1110,
  .sized .vdup [.eq func2 0b01_0000, .eq vs1 0, .eq func1 0b111] [.b, .h, .w] [.x] [false, true],
  .single .vcget none [.eq func2 0b01_0100, .eq vs2 0, .eq vs1 0, .eq vd 48, .eq func1 0b111,
      .eq form 0b11],
  .single .acset none [.eq func2 0b01_0000, .eq vs2 0, .eq m 0, .eq vd 48],
  .single .actr none [.eq func2 0b01_0001, .eq vs2 0, .eq vs1Low4 0b0000, .eq m 0, .eq vd 48],
  .single .adwinit none [.eq func2 0b01_0010, .eq vs2 0, .eq vs1Low2 0b00, .eq sz 0b00, .eq m 0,
      .eq vdLow2 0b00]]

open CoralNPUV2ArgsType in
/-- `CoralNPUVectorMulInst`. -/
def vectorMulInst : List VectorFamily := [
  .any .vmul 0b00_0000 0b011,
  .any .vmuls 0b00_0010 0b011,
  .any .vmulsu 0b00_0011 0b011,
  .vvVx .vmulw 0b00_0100 0b011 [.h, .w],
  .vvVx .vmulwU 0b00_0101 0b011 [.h, .w],
  .any .vmulh 0b00_1000 0b011,
  .any .vmulhR 0b00_1010 0b011,
  .any .vmulhU 0b00_1001 0b011,
  .any .vmulhUr 0b00_1011 0b011,
  .any .vdmulh 0b01_0000 0b011,
  .any .vdmulhR 0b01_0010 0b011,
  .any .vdmulhRn 0b01_0011 0b011,
  .any .vmacc 0b01_0100 0b011,
  .any .vmadd 0b01_0101 0b011]

open CoralNPUV2ArgsType in
/-- `CoralNPUVectorShiftInst`. -/
def vectorShiftInst : List VectorFamily := [
  .any .vsll 0b00_0001 0b010,
  .any .vsra 0b00_0010 0b010,
  .any .vsrl 0b00_0011 0b010,
  .any .vsha 0b00_1000 0b010,
  .any .vshaR 0b00_1010 0b010,
  .any .vshl 0b00_1001 0b010,
  .any .vshlR 0b00_1011 0b010,
  .unsized .vnot [.eq func2 0b00_0011, .eq vs2 0, .eq func1 0b001] [.v] [false, true],
  .sized .vclb [.eq func2 0b00_1000, .eq vs2 0, .eq func1 0b001] [.b, .h, .w] [.v] [false, true],
  .sized .vclz [.eq func2 0b00_1001, .eq vs2 0, .eq func1 0b001] [.b, .h, .w] [.v] [false, true],
  .sized .vcpop [.eq func2 0b00_1010, .eq vs2 0, .eq func1 0b001] [.b, .h, .w] [.v] [false, true],
  .unsized .vmv [.eq func2 0b00_1100, .eq vs2 0, .eq func1 0b001] [.v] [false, true],
  .vvVx .vsrans 0b01_0000 0b010 [.b, .h],
  .vvVx .vsransR 0b01_0010 0b010 [.b, .h],
  .vvVx .vsransu 0b01_0001 0b010 [.b, .h],
  .vvVx .vsransuR 0b01_0011 0b010 [.b, .h],
  .vvVx .vsraqs 0b01_1000 0b010 [.b],
  .vvVx .vsraqsR 0b01_1010 0b010 [.b],
  .vvVx .vsraqsu 0b01_1001 0b010 [.b],
  .vvVx .vsraqsuR 0b01_1011 0b010 [.b],
  .slide .vsliden1 0b00_0000 false,
  .slide .vsliden2 0b00_0001 false,
  .slide .vsliden3 0b00_0010 false,
  .slide .vsliden4 0b00_0011 false,
  .slide .vslidevn1 0b00_0000 true,
  .slide .vslidevn2 0b00_0001 true,
  .slide .vslidevn3 0b00_0010 true,
  .slide .vslidevn4 0b00_0011 true,
  .slide .vslidehn1 0b00_0100 true,
  .slide .vslidehn2 0b00_0101 true,
  .slide .vslidehn3 0b00_0110 true,
  .slide .vslidehn4 0b00_0111 true,
  .slide .vslidep1 0b00_1000 false,
  .slide .vslidep2 0b00_1001 false,
  .slide .vslidep3 0b00_1010 false,
  .slide .vslidep4 0b00_1011 false,
  .slide .vslidevp1 0b00_1000 true,
  .slide .vslidevp2 0b00_1001 true,
  .slide .vslidevp3 0b00_1010 true,
  .slide .vslidevp4 0b00_1011 true,
  .slide .vslidehp1 0b00_1100 true,
  .slide .vslidehp2 0b00_1101 true,
  .slide .vslidehp3 0b00_1110 true,
  .slide .vslidehp4 0b00_1111 true,
  .any .vsel 0b01_0000 0b110,
  .any .vevn 0b01_1000 0b110,
  .any .vodd 0b01_1001 0b110,
  .any .vevnodd 0b01_1010 0b110,
  .any .vzip 0b01_1100 0b110]

end CoralNpu
