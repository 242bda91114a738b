/-
**The register groups of vector operands.**

An instruction description lists the operands of an opcode; the encoding class makes each of them
from fields of the instruction word.  A vector operand is a group of registers with consecutive
numbers: one, or four when the instruction is strip-mined, times a widening factor.  The factors are
found by looking at fields of the word, for all opcodes alike.

Main definitions:

* `CoralNpu.getVRegGroup`, `CoralNpu.getVectorSource`, `CoralNpu.getVectorDestination` — the
  operands, as the encoding class makes them;
* `CoralNpu.vectorSources`, `CoralNpu.vectorDestinations` — the operands of an opcode;
* `CoralNpu.sourceGroupSize`, `CoralNpu.destGroupSize` — the sizes of the groups, by opcode;
* `CoralNpu.NoPhantom` — the registers of all groups exist.

Main results:

* `CoralNpu.getVectorSource_eq`, `CoralNpu.getVectorDestination_eq` — the fields give the sizes of
  the opcode;
* `CoralNpu.noPhantom_iff` — **no register is missing exactly when every group ends in time**.
-/

import CoralNpu.CoralNpuEncoding

set_option relaxedAutoImplicit false
set_option autoImplicit false

namespace CoralNpu

open BinFmt
open CodeImage (Word)
open CoralNPUV2ArgsType (func1 func2 sz form m)

/-! ### Operands -/

/-- The fields of the source operands. -/
inductive VectorSourceOp where
  | vs1 | vs2 | vd | vs3 | rs2
  deriving DecidableEq

/-- The fields of the destination operands. -/
inductive VectorDestOp where
  | vd | vs1
  deriving DecidableEq

/-- An operand: a literal zero, a scalar register or a group of vector registers, by their
numbers. -/
inductive VectorOperand where
  | zero
  | xreg (num : ℕ)
  | vregs (group : List ℕ)
  deriving DecidableEq

/-- `kNumVregs`. -/
def kNumVregs : ℕ := 64

/-- `GetVRegGroup`: the numbers in the names of the registers. -/
def getVRegGroup (regNum : ℕ) (stripMine : Bool) (widenFactor : ℕ) : List ℕ :=
  (List.range ((if stripMine then 4 else 1) * widenFactor)).map fun i => regNum + i

/-- `GetSrc1WidenFactor`, from the fields of the word; `func2` is looked at without its lowest
bit. -/
def getSrc1WidenFactor (stem : VectorStem) (func1 func2 sz : ℕ) : ℕ :=
  let func2IgnoreUnsigned := func2 / 2 * 2
  if func1 = 0b100 ∧ func2IgnoreUnsigned = 0b1010 then 2
  else if func1 = 0b010 ∧ (sz = 0 ∨ sz = 1) ∧
      (func2IgnoreUnsigned = 0b010000 ∨ func2IgnoreUnsigned = 0b010010) then 2
  else if func1 = 0b010 ∧ sz = 0 ∧
      (func2IgnoreUnsigned = 0b011000 ∨ func2IgnoreUnsigned = 0b011010) then 4
  else if stem = .aconv ∨ stem = .acset ∨ stem = .actr then 8
  else 1

/-- `IsWidenDestinationRegisterOp`, from the fields of the word. -/
def isWidenDestinationRegisterOp (stem : VectorStem) (func1 func2 : ℕ) : Bool :=
  let func2IgnoreUnsigned := func2 / 2 * 2
  if func1 = 0b100 ∧ (func2IgnoreUnsigned = 0b100 ∨ func2IgnoreUnsigned = 0b110) then true
  else if func1 = 0b100 ∧ func2IgnoreUnsigned = 0b1010 then true
  else if func1 = 0b001 ∧ func2 = 0b1101 then true
  else if func1 = 0b011 ∧ func2IgnoreUnsigned = 0b0100 then true
  else if func1 = 0b110 ∧ (func2 = 0b011100 ∨ func2 = 0b011010) then true
  else if stem = .vcget then true
  else false

/-- The scalar in place of `vs1`, whose field has a bit more than that of a scalar register. -/
def scalarVs1 (instWord : Word) : VectorOperand :=
  let regNum := CoralNPUV2ArgsType.vs1.get instWord
  if regNum = 0 then .zero else .xreg (regNum / 2)

/-- The scalar in place of `vs2`. -/
def scalarVs2 (instWord : Word) : VectorOperand :=
  let regNum := CoralNPUV2ArgsType.vs2.get instWord
  if regNum = 0 then .zero else .xreg (regNum % 32)

/-- The scalar `rs2`. -/
def scalarRs2 (instWord : Word) : VectorOperand :=
  let num := Field.get ⟨20, 5⟩ instWord
  if num = 0 then .zero else .xreg num

/-- The getter of `kVs1`. -/
def getVs1 (stem : VectorStem) (instWord : Word) : VectorOperand :=
  let regNum := CoralNPUV2ArgsType.vs1.get instWord
  let stripMine := decide (m.get instWord = 1)
  -- .xx form uses scalar xs1.
  if form.get instWord = 3 then scalarVs1 instWord
  else if stem = .adwconv ∨ stem = .vdwconv then .vregs (getVRegGroup regNum false 9)
  else
    -- `adwinit` borrows the strip_mine setting to set 4x registers.
    let stripMine := stripMine || stem = .adwinit
    .vregs (getVRegGroup regNum stripMine
      (getSrc1WidenFactor stem (func1.get instWord) (func2.get instWord) (sz.get instWord)))

/-- The getter of `kVs2`. -/
def getVs2 (stem : VectorStem) (instWord : Word) : VectorOperand :=
  let regNum := CoralNPUV2ArgsType.vs2.get instWord
  let stripMine := decide (m.get instWord = 1)
  -- .vx or .xx forms are using scalar xs2, also for aconv op
  if form.get instWord = 2 ∨ form.get instWord = 3 ∨ stem = .aconv then scalarVs2 instWord
  else .vregs (getVRegGroup regNum stripMine 1)

/-- The source operands. -/
def getVectorSource (stem : VectorStem) (instWord : Word) : VectorSourceOp → VectorOperand
  | .vs1 => getVs1 stem instWord
  | .vs2 => getVs2 stem instWord
  | .vd => .vregs (getVRegGroup (CoralNPUV2ArgsType.vd.get instWord)
      (decide (m.get instWord = 1)) 1)
  | .vs3 =>
    .vregs (getVRegGroup (Field.get ⟨26, 6⟩ instWord) false (if stem = .aconv then 8 else 4))
  | .rs2 => scalarRs2 instWord

/-- The destination operands; `vs1` is the scalar register with the address. -/
def getVectorDestination (stem : VectorStem) (instWord : Word) : VectorDestOp → VectorOperand
  | .vd =>
      let stripMine := decide (m.get instWord = 1)
      -- Borrow the strip_mine setting to set 4x/8x registers.
      let stripMine := stripMine || stem = .vcget || stem = .adwinit || stem = .vdwconv
      let widening := isWidenDestinationRegisterOp stem (func1.get instWord) (func2.get instWord)
      .vregs (getVRegGroup (CoralNPUV2ArgsType.vd.get instWord) stripMine
        (if widening then 2 else 1))
  | .vs1 => scalarVs1 instWord

/-! ### The operands of an opcode -/

/-- The source operands in the description of an opcode. -/
def vectorSources (op : VectorOpcode) : List VectorSourceOp :=
  match op.stem with
  | .vadd3 | .vsel => [.vs1, .vs2, .vd]
  | .vld | .vldP | .vldL | .vldLp | .vldS | .vldSp | .vldTp =>
      if op.form = some .xx then [.vs1, .vs2] else [.vs1]
  | .vst | .vstP | .vstL | .vstLp | .vstS | .vstSp | .vstTp | .vstqS | .vstqSp =>
      if op.form = some .xx then [.vd, .vs1, .vs2] else [.vd, .vs1]
  | .vdup => [.vs2]
  | .vcget => []
  | .acset | .actr | .adwinit => [.vs1]
  | .aconv => [.vs1, .vs2, .vs3]
  | .adwconv | .vdwconv => [.vs1, .rs2, .vs3]
  | _ => if op.form = some .v then [.vs1] else [.vs1, .vs2]

/-- The destination operands in the description of an opcode; those of the loads are the parent's
and the child's. -/
def vectorDestinations (op : VectorOpcode) : List VectorDestOp :=
  match op.stem with
  | .vldP | .vldLp | .vldSp | .vldTp => [.vs1, .vd]
  | .vst | .vstL | .vstS | .vstqS => []
  | .vstP | .vstLp | .vstSp | .vstTp | .vstqSp => [.vs1]
  | _ => [.vd]

/-! ### The sizes of the groups -/

/-- The vector operations of an instruction: strip mining issues four. -/
def numOps (op : VectorOpcode) : ℕ := if op.masked then 4 else 1

/-- The registers of `vs1` for one operation: accumulating and narrowing instructions read elements
of twice or four times the width. -/
def src1Factor : VectorStem → ℕ
  | .vacc | .vaccU | .vsrans | .vsransR | .vsransu | .vsransuR => 2
  | .vsraqs | .vsraqsR | .vsraqsu | .vsraqsuR => 4
  | .aconv => 8
  | _ => 1

/-- The registers of `vd` for one operation: widening instructions and those with two results write
two. -/
def destFactor : VectorStem → ℕ
  | .vaddw | .vaddwU | .vsubw | .vsubwU | .vacc | .vaccU | .vmvp | .vmulw | .vmulwU |
    .vevnodd | .vzip
  | .vcget => 2
  | _ => 1

/-- The convolutions. -/
def isConv (stem : VectorStem) : Bool := stem = .aconv || stem = .adwconv || stem = .vdwconv

theorem destFactor_eq (stem : VectorStem) : destFactor stem = 1 ∨ destFactor stem = 2 := by
  rw [destFactor.eq_def]
  split
  all_goals first | exact Or.inr rfl | exact Or.inl rfl

/-- The opcodes whose patterns leave fields open. -/
def isOpen (stem : VectorStem) : Bool := stem = .acset || stem = .actr || stem = .adwinit

/-- What an opcode whose pattern leaves fields open reads `vs1` as. -/
def openVs1Size (stem : VectorStem) (w : Word) : Option ℕ :=
  if form.get w = 3 then none
  else if func1.get w = 0b010 ∧ (sz.get w = 0 ∨ sz.get w = 1) then
    some (if stem = .adwinit then 8 else 2)
  else some (if stem = .adwinit then 4 else 8)

/-- The number of registers of a source operand; `none` for a scalar. -/
def sourceGroupSize (op : VectorOpcode) (w : Word) : VectorSourceOp → Option ℕ
  | .vs1 =>
      if isOpen op.stem then openVs1Size op.stem w
      else if op.stem = .adwconv ∨ op.stem = .vdwconv then some 9
      else if op.form = some .x ∨ op.form = some .xx then none
      else some (numOps op * src1Factor op.stem)
  | .vs2 => if op.form = some .vv then some (numOps op) else none
  | .vd => some (numOps op)
  | .vs3 => some (if op.stem = .aconv then 8 else 4)
  | .rs2 => none

/-- The number of registers of the destination. -/
def destGroupSize (op : VectorOpcode) : ℕ :=
  if op.stem = .vcget then 8
  else if op.stem = .adwinit ∨ op.stem = .vdwconv then 4
  else numOps op * destFactor op.stem

/-- The field of a source operand. -/
def sourceField (w : Word) : VectorSourceOp → ℕ
  | .vs1 => CoralNPUV2ArgsType.vs1.get w
  | .vs2 => CoralNPUV2ArgsType.vs2.get w
  | .vd => CoralNPUV2ArgsType.vd.get w
  | .vs3 => Field.get ⟨26, 6⟩ w
  | .rs2 => Field.get ⟨20, 5⟩ w

/-- The registers of a group. -/
def consecutive (start size : ℕ) : VectorOperand :=
  .vregs ((List.range size).map fun i => start + i)

/-- What the fields that a pattern determines say about its opcode. -/
def fieldsAgree (p : Pattern VectorOpcode) : Bool :=
  (p.opcode.stem = .vcget || fieldValues p.constraints m = [p.opcode.masked.toNat]) &&
  (match p.opcode.form with
    | some vform => fieldValues p.constraints form = [vform.value % 4]
    | none => p.opcode.stem = .vcget || isOpen p.opcode.stem) &&
  decide (p.opcode.form = some .vxv) = isConv p.opcode.stem &&
  (!isOpen p.opcode.stem || !p.opcode.masked) &&
  (fieldValues p.constraints func1).all fun f₁ => (fieldValues p.constraints func2).all fun f₂ =>
    isWidenDestinationRegisterOp p.opcode.stem f₁ f₂ = decide (destFactor p.opcode.stem = 2) &&
    (fieldValues p.constraints sz).all fun z =>
      if isOpen p.opcode.stem then
        decide (getSrc1WidenFactor p.opcode.stem f₁ f₂ z =
          if f₁ = 0b010 ∧ (z = 0 ∨ z = 1) then 2 else if p.opcode.stem = .adwinit then 1 else 8)
      else decide (getSrc1WidenFactor p.opcode.stem f₁ f₂ z = src1Factor p.opcode.stem)

/-- All patterns. -/
theorem fieldsAgree_of_mem : ∀ p ∈ vectorPatterns, fieldsAgree p = true := by
  decide +kernel

/-- The fields of a word, as its opcode has them. -/
structure FieldsOf (op : VectorOpcode) (w : Word) : Prop where
  m_eq : op.stem ≠ .vcget → m.get w = op.masked.toNat
  form_eq : ∀ vform, op.form = some vform → form.get w = vform.value % 4
  form_none : op.form = none → op.stem = .vcget ∨ isOpen op.stem = true
  form_vxv : op.form = some .vxv ↔ isConv op.stem = true
  masked_open : isOpen op.stem = true → op.masked = false
  widen_eq : isWidenDestinationRegisterOp op.stem (func1.get w) (func2.get w) =
    decide (destFactor op.stem = 2)
  factor_eq : isOpen op.stem = false →
    getSrc1WidenFactor op.stem (func1.get w) (func2.get w) (sz.get w) = src1Factor op.stem
  factor_open : isOpen op.stem = true →
    getSrc1WidenFactor op.stem (func1.get w) (func2.get w) (sz.get w) =
      if func1.get w = 0b010 ∧ (sz.get w = 0 ∨ sz.get w = 1) then 2
      else if op.stem = .adwinit then 1 else 8

/-- A word that a pattern matches has the fields of its opcode. -/
theorem fieldsOf_of_matches {p : Pattern VectorOpcode} (hp : p ∈ vectorPatterns) {w : Word}
    (hw : p.Matches w) : FieldsOf p.opcode w := by
  have hagree := fieldsAgree_of_mem p hp
  simp only [fieldsAgree, Bool.and_eq_true, decide_eq_true_eq] at hagree
  obtain ⟨⟨⟨⟨hm, hform⟩, hvxv⟩, hmasked⟩, hall⟩ := hagree
  rw [List.all_eq_true] at hall
  have hfunc := hall _ (mem_fieldValues func1 hw)
  rw [List.all_eq_true] at hfunc
  have hvalues := hfunc _ (mem_fieldValues func2 hw)
  rw [Bool.and_eq_true, decide_eq_true_eq, List.all_eq_true] at hvalues
  obtain ⟨hwiden, hsz⟩ := hvalues
  have hfactor := hsz _ (mem_fieldValues sz hw)
  refine ⟨?_, ?_, ?_, ?_, ?_, hwiden, ?_, ?_⟩
  · intro hstem
    rw [Bool.or_eq_true, decide_eq_true_eq, decide_eq_true_eq] at hm
    have hmem := mem_fieldValues m hw
    rw [hm.resolve_left hstem] at hmem
    exact List.mem_singleton.1 hmem
  · intro vform hsome
    rw [hsome] at hform
    have hmem := mem_fieldValues form hw
    rw [of_decide_eq_true hform] at hmem
    exact List.mem_singleton.1 hmem
  · intro hnone
    rw [hnone, Bool.or_eq_true, decide_eq_true_eq] at hform
    exact hform
  · rw [← hvxv, decide_eq_true_eq]
  · intro hopen
    rw [hopen, Bool.not_true, Bool.false_or, Bool.not_eq_true'] at hmasked
    exact hmasked
  · intro hopen
    rw [hopen, if_neg Bool.false_ne_true, decide_eq_true_eq] at hfactor
    exact hfactor
  · intro hopen
    rw [if_pos hopen, decide_eq_true_eq] at hfactor
    exact hfactor

/-- The scalar in place of a source operand. -/
def scalarOf (w : Word) : VectorSourceOp → VectorOperand
  | .vs1 => scalarVs1 w
  | .vs2 => scalarVs2 w
  | _ => scalarRs2 w

/-- A scalar is zero or one register. -/
theorem scalarOf_eq (w : Word) (s : VectorSourceOp) :
    scalarOf w s = .zero ∨ ∃ num, scalarOf w s = .xreg num := by
  have hite : ∀ (p : Prop) [Decidable p] (num : ℕ),
      (if p then VectorOperand.zero else .xreg num) = .zero ∨
        ∃ num', (if p then VectorOperand.zero else .xreg num) = .xreg num' := by
    intro p _ num
    split
    · exact Or.inl rfl
    · exact Or.inr ⟨num, rfl⟩
  cases s with
  | vs1 | vs2 | vd | vs3 | rs2 => exact hite _ _

theorem getVRegGroup_eq (regNum widenFactor : ℕ) (stripMine : Bool) :
    VectorOperand.vregs (getVRegGroup regNum stripMine widenFactor) =
      consecutive regNum ((if stripMine then 4 else 1) * widenFactor) := rfl


namespace FieldsOf

variable {op : VectorOpcode} {w : Word}

/-- Strip mining, as the word has it. -/
theorem strip_eq (h : FieldsOf op w) (hstem : op.stem ≠ .vcget) :
    (if decide (m.get w = 1) = true then 4 else 1) = numOps op := by
  rw [h.m_eq hstem, numOps]
  cases op.masked <;> rfl

/-- An opcode without open fields, and with operands, has a form. -/
theorem exists_form (h : FieldsOf op w) (hopen : isOpen op.stem = false)
    (hstem : op.stem ≠ .vcget) : ∃ vform, op.form = some vform := by
  refine Option.ne_none_iff_exists'.1 fun hnone => ?_
  rcases h.form_none hnone with hvcget | hopen'
  · exact hstem hvcget
  · rw [hopen] at hopen'
    cases hopen'

/-- The field `form` is that of scalars exactly in the forms with a scalar address. -/
theorem form_eq_three_iff (h : FieldsOf op w) {vform : VectorForm} (hform : op.form = some vform) :
    form.get w = 3 ↔ op.form = some .x ∨ op.form = some .xx := by
  rw [h.form_eq vform hform, hform]
  cases vform <;> decide

theorem isConv_of_dwconv {stem : VectorStem} (h : stem = .adwconv ∨ stem = .vdwconv) :
    isConv stem = true := by
  rcases h with rfl | rfl <;> rfl

theorem not_scalar_of_isConv (h : FieldsOf op w) (hconv : isConv op.stem = true) :
    ¬ (op.form = some .x ∨ op.form = some .xx) := by
  rw [h.form_vxv.2 hconv]
  decide

/-- `vs1` of an opcode whose pattern leaves no field open. -/
theorem vs1_eq (h : FieldsOf op w) (hopen : isOpen op.stem = false) (hstem : op.stem ≠ .vcget) :
    getVs1 op.stem w = match sourceGroupSize op w .vs1 with
      | some n => consecutive (CoralNPUV2ArgsType.vs1.get w) n
      | none => scalarVs1 w := by
  obtain ⟨vform, hform⟩ := h.exists_form hopen hstem
  have hadwinit : op.stem ≠ .adwinit := fun heq => by
    rw [heq] at hopen
    cases hopen
  have hclosed : ¬ isOpen op.stem = true := by
    rw [hopen]
    decide
  rw [getVs1, sourceGroupSize, if_neg hclosed]
  by_cases hdwconv : op.stem = .adwconv ∨ op.stem = .vdwconv
  · have hthree : form.get w ≠ 3 := fun heq =>
      h.not_scalar_of_isConv (isConv_of_dwconv hdwconv) ((h.form_eq_three_iff hform).1 heq)
    rw [if_neg hthree, if_pos hdwconv, if_pos hdwconv]
    rfl
  · by_cases hscalar : op.form = some .x ∨ op.form = some .xx
    · rw [if_pos ((h.form_eq_three_iff hform).2 hscalar), if_neg hdwconv, if_pos hscalar]
    · rw [if_neg (mt (h.form_eq_three_iff hform).1 hscalar), if_neg hdwconv, if_neg hdwconv,
        if_neg hscalar, h.factor_eq hopen, decide_eq_false hadwinit, Bool.or_false, getVRegGroup_eq,
        h.strip_eq hstem]

/-- `vs1` of an opcode whose pattern leaves fields open. -/
theorem vs1_eq_of_open (h : FieldsOf op w) (hopen : isOpen op.stem = true) :
    getVs1 op.stem w = match sourceGroupSize op w .vs1 with
      | some n => consecutive (CoralNPUV2ArgsType.vs1.get w) n
      | none => scalarVs1 w := by
  have hvcget : op.stem ≠ .vcget := fun heq => by
    rw [heq] at hopen
    cases hopen
  have hdwconv : ¬ (op.stem = .adwconv ∨ op.stem = .vdwconv) := by
    rintro (heq | heq) <;> · rw [heq] at hopen; cases hopen
  have hm : decide (m.get w = 1) = false := by
    rw [h.m_eq hvcget, h.masked_open hopen]
    rfl
  rw [getVs1, sourceGroupSize, if_pos hopen, openVs1Size, h.factor_open hopen, hm, Bool.false_or]
  by_cases hthree : form.get w = 3
  · rw [if_pos hthree, if_pos hthree]
  · rw [if_neg hthree, if_neg hthree, if_neg hdwconv]
    by_cases hadwinit : op.stem = .adwinit
    · by_cases hsrans : func1.get w = 0b010 ∧ (sz.get w = 0 ∨ sz.get w = 1)
      · simp only [hadwinit, if_pos hsrans, decide_true, if_true, getVRegGroup_eq]
      · simp only [hadwinit, if_neg hsrans, decide_true, if_true, getVRegGroup_eq]
    · by_cases hsrans : func1.get w = 0b010 ∧ (sz.get w = 0 ∨ sz.get w = 1)
      · simp only [hadwinit, if_pos hsrans, decide_false, if_false, getVRegGroup_eq, one_mul,
          Bool.false_eq_true]
      · simp only [hadwinit, if_neg hsrans, decide_false, if_false, getVRegGroup_eq, one_mul,
          Bool.false_eq_true]

/-- `vs2`. -/
theorem vs2_eq (h : FieldsOf op w) (hs : .vs2 ∈ vectorSources op) :
    getVs2 op.stem w = match sourceGroupSize op w .vs2 with
      | some n => consecutive (CoralNPUV2ArgsType.vs2.get w) n
      | none => scalarVs2 w := by
  have hopen : isOpen op.stem = false := by
    rw [← Bool.not_eq_true]
    intro hopen
    rw [isOpen, Bool.or_eq_true, Bool.or_eq_true, decide_eq_true_eq, decide_eq_true_eq,
      decide_eq_true_eq] at hopen
    rcases hopen with (heq | heq) | heq <;> simp [vectorSources, heq] at hs
  have hvcget : op.stem ≠ .vcget := fun heq => by simp [vectorSources, heq] at hs
  obtain ⟨vform, hform⟩ := h.exists_form hopen hvcget
  have hvalue := h.form_eq vform hform
  rw [getVs2, sourceGroupSize]
  by_cases hvv : op.form = some .vv
  · have haconv : op.stem ≠ .aconv := fun heq => by
      have hvxv := h.form_vxv.2 (by rw [heq]; rfl)
      rw [hvv] at hvxv
      cases hvxv
    rw [hvv] at hform
    cases hform
    rw [if_neg (by rw [hvalue]; simp [haconv, VectorForm.value]), if_pos hvv, getVRegGroup_eq,
      h.strip_eq hvcget, mul_one]
  · have hscalar : form.get w = 2 ∨ form.get w = 3 ∨ op.stem = .aconv := by
      rw [hvalue]
      cases vform with
      | vv => exact absurd hform hvv
      | vx | v => exact Or.inl rfl
      | x | xx => exact Or.inr (Or.inl rfl)
      | vxv =>
          have hconv := h.form_vxv.1 hform
          rw [isConv, Bool.or_eq_true, Bool.or_eq_true, decide_eq_true_eq, decide_eq_true_eq,
            decide_eq_true_eq] at hconv
          rcases hconv with (heq | heq) | heq
          · exact Or.inr (Or.inr heq)
          · simp [vectorSources, heq] at hs
          · simp [vectorSources, heq] at hs
    rw [if_pos hscalar, if_neg hvv]

end FieldsOf

/-- **A source operand is the group of its opcode, or a scalar.** -/
theorem getVectorSource_eq {op : VectorOpcode} {w : Word} (h : FieldsOf op w) {s : VectorSourceOp}
    (hs : s ∈ vectorSources op) :
    getVectorSource op.stem w s = match sourceGroupSize op w s with
      | some n => consecutive (sourceField w s) n
      | none => scalarOf w s := by
  have hvcget : op.stem ≠ .vcget := fun heq => by simp [vectorSources, heq] at hs
  cases s with
  | vs1 =>
      cases hopen : isOpen op.stem with
      | false => exact h.vs1_eq hopen hvcget
      | true => exact h.vs1_eq_of_open hopen
  | vs2 => exact h.vs2_eq hs
  | vd =>
      rw [getVectorSource, sourceGroupSize, getVRegGroup_eq, h.strip_eq hvcget, mul_one]
      rfl
  | vs3 =>
      rw [getVectorSource, sourceGroupSize, getVRegGroup_eq, if_neg Bool.false_ne_true, one_mul]
      rfl
  | rs2 => rfl

/-- **The destination is the group of its opcode.** -/
theorem getVectorDestination_eq {op : VectorOpcode} {w : Word} (h : FieldsOf op w) :
    getVectorDestination op.stem w .vd =
      consecutive (CoralNPUV2ArgsType.vd.get w) (destGroupSize op) := by
  rw [getVectorDestination, h.widen_eq, getVRegGroup_eq, destGroupSize]
  by_cases hvcget : op.stem = .vcget
  · simp [hvcget, destFactor]
  · by_cases hforced : op.stem = .adwinit ∨ op.stem = .vdwconv
    · rcases hforced with heq | heq <;> simp [heq, destFactor]
    · have hnone :
          (decide (m.get w = 1) || decide (op.stem = .vcget) || decide (op.stem = .adwinit) ||
          decide (op.stem = .vdwconv)) = decide (m.get w = 1) := by
        rw [not_or] at hforced
        simp [hvcget, hforced.1, hforced.2]
      have hfactor : (if decide (destFactor op.stem = 2) = true then 2 else 1) =
          destFactor op.stem := by
        rcases destFactor_eq op.stem with heq | heq <;> rw [heq] <;> rfl
      rw [hnone, h.strip_eq hvcget, hfactor, if_neg hvcget, if_neg hforced]

/-! ### Registers that do not exist -/

/-- Groups of the bit manipulation extension have its opcodes only. -/
def OnlyZbb (zbb : List (List (Pattern Opcode))) : Prop :=
  ∀ group ∈ zbb, ∀ q ∈ group, ∃ index, q.opcode = .zbb index

/-- A word parsed as a vector opcode matches one of its patterns. -/
theorem exists_pattern_of_parse {zbb : List (List (Pattern Opcode))} (hzbb : OnlyZbb zbb)
    (decoders : Decoders 32 (decodeGroups zbb)) {w : Word} {op : VectorOpcode}
    (h : parseInstruction decoders w = some (.vector op)) :
    ∃ p ∈ vectorPatterns, p.opcode = op ∧ p.Matches w := by
  obtain ⟨group, hgroup, q, hq, hop, hmatches⟩ := Decoders.exists_of_parse decoders h
  rw [decodeGroups, List.cons_append, List.mem_cons, List.mem_append] at hgroup
  rcases hgroup with rfl | hgroup | hgroup
  · obtain ⟨p, -, rfl⟩ := List.mem_map.1 hq
    cases hop
  · obtain ⟨families, hfamilies, rfl⟩ := List.mem_map.1 hgroup
    obtain ⟨family, hfamily, p, hp, rfl⟩ := mem_vectorGroup.1 hq
    exact ⟨p, mem_vectorPatterns.2 ⟨families, hfamilies, family, hfamily, hp⟩,
      Opcode.vector.inj hop, hmatches⟩
  · obtain ⟨index, hindex⟩ := hzbb group hgroup q hq
    rw [hop] at hindex
    cases hindex

/-- It has the fields of the opcode. -/
theorem fieldsOf_of_parse {zbb : List (List (Pattern Opcode))} (hzbb : OnlyZbb zbb)
    (decoders : Decoders 32 (decodeGroups zbb)) {w : Word} {op : VectorOpcode}
    (h : parseInstruction decoders w = some (.vector op)) : FieldsOf op w := by
  obtain ⟨p, hp, rfl, hmatches⟩ := exists_pattern_of_parse hzbb decoders h
  exact fieldsOf_of_matches hp hmatches

/-- The vector registers that an operand names. -/
def VectorOperand.named : VectorOperand → List ℕ
  | .vregs group => group
  | _ => []

/-- The vector registers that the operands of an instruction name; only the vector groups have
vector operands. -/
def namedVregs (w : Word) : Opcode → List ℕ
  | .vector op =>
      (vectorSources op).flatMap (fun s => (getVectorSource op.stem w s).named) ++
        (vectorDestinations op).flatMap fun d => (getVectorDestination op.stem w d).named
  | .base _ => []
  | .zbb _ => []

/-- The operands name architectural registers only. -/
def NoPhantom (op : Opcode) (w : Word) : Prop := ∀ n ∈ namedVregs w op, n < kNumVregs

instance instDecidableNoPhantom (op : Opcode) (w : Word) : Decidable (NoPhantom op w) :=
  inferInstanceAs (Decidable (∀ n ∈ namedVregs w op, n < kNumVregs))

/-- Every group ends with the last register at the latest. -/
def GroupsEnd (w : Word) : Opcode → Prop
  | .vector op =>
      (∀ s ∈ vectorSources op, ∀ n ∈ sourceGroupSize op w s, sourceField w s + n ≤ kNumVregs) ∧
        (.vd ∈ vectorDestinations op →
          CoralNPUV2ArgsType.vd.get w + destGroupSize op ≤ kNumVregs)
  | .base _ => True
  | .zbb _ => True

/-- A group that starts with a register and ends in time. -/
theorem consecutive_named_lt_iff {start size : ℕ} (h : start < kNumVregs) :
    (∀ n ∈ (consecutive start size).named, n < kNumVregs) ↔ start + size ≤ kNumVregs := by
  rw [consecutive, VectorOperand.named, List.forall_mem_map]
  constructor
  · intro hall
    rcases Nat.eq_zero_or_pos size with rfl | hpos
    · exact h.le
    · have hlast := hall (size - 1) (List.mem_range.2 (by omega))
      omega
  · intro hend i hi
    have hlt := List.mem_range.1 hi
    omega

/-- The fields of vector operands are numbers of registers. -/
theorem sourceField_lt (w : Word) (s : VectorSourceOp) : sourceField w s < kNumVregs := by
  cases s with
  | rs2 => exact lt_of_lt_of_le (Field.get_lt _ w) (by decide)
  | vs1 | vs2 | vd | vs3 => exact Field.get_lt _ w

theorem scalarOf_named (w : Word) (s : VectorSourceOp) : (scalarOf w s).named = [] := by
  rcases scalarOf_eq w s with heq | ⟨num, heq⟩ <;> rw [heq] <;> rfl

/-- **When no register is missing**: when every group ends in time. -/
theorem noPhantom_iff {zbb : List (List (Pattern Opcode))} (hzbb : OnlyZbb zbb)
    (decoders : Decoders 32 (decodeGroups zbb)) {w : Word} {op : Opcode}
    (h : parseInstruction decoders w = some op) : NoPhantom op w ↔ GroupsEnd w op := by
  cases op with
  | base op => exact iff_of_true (fun n hn => by cases hn) trivial
  | zbb index => exact iff_of_true (fun n hn => by cases hn) trivial
  | vector op =>
      have hfields := fieldsOf_of_parse hzbb decoders h
      rw [NoPhantom, namedVregs, GroupsEnd]
      simp only [List.forall_mem_append, List.forall_mem_flatMap]
      refine and_congr (forall₂_congr fun s hs => ?_) ?_
      · rw [getVectorSource_eq hfields hs]
        cases sourceGroupSize op w s with
        | none => simp [scalarOf_named]
        | some n => simpa using consecutive_named_lt_iff (sourceField_lt w s)
      · have hvd := @consecutive_named_lt_iff (CoralNPUV2ArgsType.vd.get w) (destGroupSize op)
          (sourceField_lt w .vd)
        rw [← hvd, ← getVectorDestination_eq hfields]
        constructor
        · intro hall hmem
          exact hall .vd hmem
        · intro hall d hd
          cases d with
          | vd => exact hall hd
          | vs1 =>
              have hscalar : (getVectorDestination op.stem w .vs1).named = [] :=
                scalarOf_named w .vs1
              rw [hscalar]
              intro n hn
              cases hn

/-- `vadd_b_vv` and `vadd_b_vv_m`. -/
def vaddPattern (masked : Bool) : Pattern VectorOpcode :=
  variant .vadd [.eq CoralNPUV2ArgsType.func2 0b00_0000, .eq CoralNPUV2ArgsType.func1 0b000]
    (some .b) .vv masked

/-- Their words are parsed as such. -/
theorem parseInstruction_vadd {zbb : List (List (Pattern Opcode))}
    (decoders : Decoders 32 (decodeGroups zbb)) (masked : Bool) {w : Word}
    (hw : (vaddPattern masked).Matches w) :
    parseInstruction decoders w = some (.vector ⟨.vadd, some .b, some .vv, masked⟩) :=
  parseInstruction_of_not_shadowed decoders (p := vaddPattern masked)
    (by cases masked <;> decide +kernel) hw (not_shadowed_of_shadowing_eq rfl w)

/-- `vadd_b_vv` of the registers `v1` and `v2`. -/
theorem noPhantom_iff_vadd :
    NoPhantom (.vector ⟨.vadd, some .b, some .vv, false⟩) 0x204000 ↔
      GroupsEnd 0x204000 (.vector ⟨.vadd, some .b, some .vv, false⟩) :=
  @noPhantom_iff [] (fun _ h => by cases h) (Decoders.of (Decoder.preferring ⟨.zbb 0, []⟩) _) _ _
    (parseInstruction_vadd _ false (by decide +kernel))

/-- A strip-mined `vadd_b_vv_m` of four registers from `v63` on. -/
theorem not_noPhantom_vadd :
    ¬ ∀ (w : Word) (op : Opcode) (decoders : Decoders 32 (decodeGroups [])),
    parseInstruction decoders w = some op → NoPhantom op w := by
  intro h
  have hphantom := h 0xfc020 _ (Decoders.of (Decoder.preferring ⟨.zbb 0, []⟩) _)
    (parseInstruction_vadd _ true (by decide +kernel))
  exact absurd hphantom (by decide +kernel)

end CoralNpu
