/-
**Register zero in the vector instructions.**

Integer operands of the vector instructions come from the fields of vector registers, which have a
bit more than a register number.  The getters look for zero before they take that bit off, so that
there are two ways to name register zero: a literal, or in place of a destination a register that
nothing reads; and the register `x0` itself, which a load or a store with post-increment writes.

Main definitions:

* `CoralNpu.IntegerRegisters` — the integer registers, as operands read and write them;
* `CoralNpu.executeVector` — what a vector instruction does to them;
* `CoralNpu.coralNPUGetVl` — `CoralNPUGetVl`;
* `CoralNpu.executeInteger`, `CoralNpu.runInteger` — runs of instruction words;
* `CoralNpu.IncrementsZero` — a post-increment of the register `x0`.

Main results:

* `CoralNpu.sourcesRead` — sources read the registers of their fields while `x0` is zero;
* `CoralNpu.increment_eq` — the increment of the address register, by the opcode;
* `CoralNpu.staysZero_iff` — **register zero stays zero in a run exactly when** no step increments
  it.
-/

import CoralNpu.CoralNpuVectorLoadStore

set_option relaxedAutoImplicit false
set_option autoImplicit false

namespace CoralNpu

open BinFmt LoadStore
open CodeImage (Word)

/-! ### Integer registers -/

/-- The integer registers, by the numbers in their names, and the register `X0Dest`. -/
structure IntegerRegisters where
  x : ℕ → BitVec 32
  x0Dest : BitVec 32

namespace IntegerRegisters

variable (regs : IntegerRegisters)

/-- What an integer source reads; `none` for vector registers. -/
def read : VectorOperand → Option (BitVec 32)
  | .zero => some 0
  | .xreg num => some (regs.x num)
  | .vregs _ => none

/-- A write to an integer destination; the destination for zero is `X0Dest`. -/
def write (operand : VectorOperand) (value : BitVec 32) : IntegerRegisters :=
  match operand with
  | .zero => { regs with x0Dest := value }
  | .xreg num => { regs with x := Function.update regs.x num value }
  | .vregs _ => regs

/-- The value of a register by its number, with zero for register 0. -/
def named (num : ℕ) : BitVec 32 := if num = 0 then 0 else regs.x num

end IntegerRegisters

/-- The getter of `kRs1`. -/
def scalarRs1 (instWord : Word) : VectorOperand :=
  let num := RType.rs1.get instWord
  if num = 0 then .zero else .xreg num

/-- The getter of `kRd`. -/
def scalarRd (instWord : Word) : VectorOperand :=
  let num := RType.rd.get instWord
  if num = 0 then .zero else .xreg num

/-! ### Loads and stores -/

/-- The type of the elements. -/
def elementType (op : VectorOpcode) : ElementType :=
  match op.width with
  | some .b => .int8
  | some .h => .int16
  | some .w | none => .int32

/-- The operands of a load or a store. -/
def loadStoreOperands (hasLength hasStride : Bool) (op : VectorOpcode) (instWord : Word)
    (regs : IntegerRegisters) : LoadStoreOperands where
  hasLength := hasLength
  hasStride := hasStride
  stripMine := op.masked
  destinationsSize := ((vectorDestinations op).filter (· = .vs1)).length
  sources := (vectorSources op).filterMap fun s => regs.read (getVectorSource op.stem instWord s)

/-- The new contents of the address register, if that is a destination. -/
def newAddress (maxPhysicalAddress : BitVec 64) (op : VectorOpcode) (instWord : Word)
    (regs : IntegerRegisters) : Option (BitVec 32) :=
  match semfunc op.stem with
  | .load hasLength hasStride =>
      let inst := loadStoreOperands hasLength hasStride op instWord regs
      if inst.destinationsSize = 1 then
        some (loadIncrement (elementType op) inst (inst.addr maxPhysicalAddress))
      else none
  | .store hasLength hasStride isQuad =>
      let inst := loadStoreOperands hasLength hasStride op instWord regs
      if inst.destinationsSize = 1 then
        some (storeIncrement (elementType op) isQuad inst (inst.addr maxPhysicalAddress))
      else none
  | _ => none

/-- A vector instruction, on the integer registers. -/
def executeVector (maxPhysicalAddress : BitVec 64) (op : VectorOpcode) (instWord : Word)
    (regs : IntegerRegisters) : IntegerRegisters :=
  match newAddress maxPhysicalAddress op instWord regs with
  | some address => regs.write (getVectorDestination op.stem instWord .vs1) address
  | none => regs

/-! ### Vector lengths -/

/-- What the descriptions bind to `CoralNPUGetVl`. -/
structure GetVlArgs where
  type : ElementType
  stripMine : Bool
  isRs1 : Bool
  isRs2 : Bool

/-- The instructions for the vector length. -/
def getVlArgs : BaseOpcode → Option GetVlArgs
  | .getmaxvlB => some ⟨.int8, false, false, false⟩
  | .getmaxvlH => some ⟨.int16, false, false, false⟩
  | .getmaxvlW => some ⟨.int32, false, false, false⟩
  | .getvlBX => some ⟨.int8, false, true, false⟩
  | .getvlHX => some ⟨.int16, false, true, false⟩
  | .getvlWX => some ⟨.int32, false, true, false⟩
  | .getvlBXx => some ⟨.int8, false, true, true⟩
  | .getvlHXx => some ⟨.int16, false, true, true⟩
  | .getvlWXx => some ⟨.int32, false, true, true⟩
  | .getmaxvlBM => some ⟨.int8, true, false, false⟩
  | .getmaxvlHM => some ⟨.int16, true, false, false⟩
  | .getmaxvlWM => some ⟨.int32, true, false, false⟩
  | .getvlBXM => some ⟨.int8, true, true, false⟩
  | .getvlHXM => some ⟨.int16, true, true, false⟩
  | .getvlWXM => some ⟨.int32, true, true, false⟩
  | .getvlBXxM => some ⟨.int8, true, true, true⟩
  | .getvlHXxM => some ⟨.int16, true, true, true⟩
  | .getvlWXxM => some ⟨.int32, true, true, true⟩
  | _ => none

/-- `std::min`. -/
def minWord (a b : BitVec 32) : BitVec 32 := if b < a then b else a

/-- `CoralNPUGetVl`: what it writes to `rd`. -/
def coralNPUGetVl (args : GetVlArgs) (rs1 rs2 : BitVec 32) : BitVec 32 :=
  let vlen := BitVec.ofNat 32 args.type.eltsPerRegister
  let vlen := if args.stripMine then vlen * 4 else vlen
  let vlen := if args.isRs1 then minWord vlen rs1 else vlen
  if args.isRs2 then minWord vlen rs2 else vlen

/-! ### Runs -/

/-- An instruction that is executed.  One outside the vector extension computes a result for `rd`,
or none for an instruction without `rd`. -/
structure IntegerStep where
  instWord : Word
  result : Option (BitVec 32)

section Run

variable {zbb : List (List (Pattern Opcode))} (decoders : Decoders 32 (decodeGroups zbb))
  (maxPhysicalAddress : BitVec 64)

/-- An instruction, on the integer registers. -/
def executeInteger (regs : IntegerRegisters) (step : IntegerStep) : IntegerRegisters :=
  let other := match step.result with
    | some value => regs.write (scalarRd step.instWord) value
    | none => regs
  match parseInstruction decoders step.instWord with
  | some (.vector op) => executeVector maxPhysicalAddress op step.instWord regs
  | some (.base op) =>
      match getVlArgs op with
      | some args =>
          let rs1 := (regs.read (scalarRs1 step.instWord)).getD 0
          let rs2 := (regs.read (scalarRs2 step.instWord)).getD 0
          regs.write (scalarRd step.instWord) (coralNPUGetVl args rs1 rs2)
      | none => other
  | _ => other

/-- A run. -/
def runInteger (steps : List IntegerStep) (regs : IntegerRegisters) : IntegerRegisters :=
  steps.foldl (executeInteger decoders maxPhysicalAddress) regs

/-- The field of an integer register in place of a source. -/
def registerField : VectorSourceOp → Field
  | .vs1 => RType.rs1
  | _ => RType.rs2

/-- The source operands of the vector extension, with the fields of integer registers. -/
def extensionSources (op : Opcode) (instWord : Word) : List (Field × VectorOperand) :=
  match op with
  | .vector op => (vectorSources op).map fun s =>
      (registerField s, getVectorSource op.stem instWord s)
  | .base op =>
      match getVlArgs op with
      | some args =>
          (if args.isRs1 then [(RType.rs1, scalarRs1 instWord)] else []) ++
            (if args.isRs2 then [(RType.rs2, scalarRs2 instWord)] else [])
      | none => []
  | .zbb _ => []

/-- Integer sources read the registers of their fields, and zero for register 0. -/
def SourcesRead (regs : IntegerRegisters) (step : IntegerStep) : Prop :=
  ∀ op, parseInstruction decoders step.instWord = some op →
    ∀ source ∈ extensionSources op step.instWord, ∀ value, regs.read source.2 = some value →
      value = regs.named (source.1.get step.instWord)

/-- **Register zero stays zero**: the sources of an instruction read the registers of their fields,
and it leaves `x0` as it is. -/
def StaysZero (regs : IntegerRegisters) (step : IntegerStep) : Prop :=
  SourcesRead decoders regs step ∧
  (executeInteger decoders maxPhysicalAddress regs step).x 0 = regs.x 0

/-- What is added to an address register, given the second integer operand. -/
def addressIncrement (op : VectorOpcode) (operand2 : BitVec 32) : BitVec 32 :=
  let size := BitVec.ofNat 32 (elementType op).size
  let registers := opsOf op.masked
  match op.stem with
  | .vldP | .vstP =>
      if op.form = some .xx then operand2 * size
        else BitVec.ofNat 32 (kVectorRegisterWidth * registers)
  | .vldLp | .vstLp =>
      BitVec.ofNat 32 (min operand2.toNat (registers * (elementType op).eltsPerRegister) *
        (elementType op).size)
  | .vldSp | .vstSp => operand2 * size * BitVec.ofNat 32 registers
  | .vstqSp => operand2 * size * BitVec.ofNat 32 (registers * 4)
  | .vldTp | .vstTp => if operand2 = 0 then 0 else BitVec.ofNat 32 kVectorRegisterWidth
  | _ => 0

/-- **A post-increment of the register `x0`**: the field of the address register is 1, which is not
zero but has the register number 0, and the increment is not zero. -/
def IncrementsZero (regs : IntegerRegisters) (step : IntegerStep) : Prop :=
  ∃ op, parseInstruction decoders step.instWord = some (.vector op) ∧ .vs1 ∈ vectorDestinations op ∧
    CoralNPUV2ArgsType.vs1.get step.instWord = 1 ∧
    addressIncrement op (regs.named (RType.rs2.get step.instWord)) ≠ 0

end Run

/-! ### Sources -/

section Sources

variable {regs : IntegerRegisters} {w : Word}

theorem rs1_get (w : Word) : RType.rs1.get w = CoralNPUV2ArgsType.vs1.get w / 2 := by
  simp only [Field.get, RType.rs1, CoralNPUV2ArgsType.vs1, BitVec.extractLsb'_toNat,
    Nat.shiftRight_eq_div_pow]
  omega

theorem rs2_get (w : Word) : RType.rs2.get w = CoralNPUV2ArgsType.vs2.get w % 32 := by
  simp only [Field.get, RType.rs2, CoralNPUV2ArgsType.vs2, BitVec.extractLsb'_toNat,
    Nat.shiftRight_eq_div_pow]
  omega

/-- A literal zero or a register, against the register of a field, when zero is looked for in a
wider field. -/
theorem read_register (h0 : regs.x 0 = 0) {field num : ℕ} (hzero : field = 0 → num = 0) :
    regs.read (if field = 0 then .zero else .xreg num) = some (regs.named num) := by
  by_cases hfield : field = 0
  · rw [if_pos hfield, IntegerRegisters.named, if_pos (hzero hfield)]
    rfl
  · rw [if_neg hfield, IntegerRegisters.named]
    by_cases hnum : num = 0
    · rw [if_pos hnum, hnum, ← h0]
      rfl
    · rw [if_neg hnum]
      rfl

/-- **An integer source reads the register of its field.** -/
theorem read_scalarOf (h0 : regs.x 0 = 0) (s : VectorSourceOp) :
    regs.read (scalarOf w s) = some (regs.named ((registerField s).get w)) := by
  cases s with
  | vs1 =>
      rw [scalarOf, registerField, rs1_get]
      exact read_register h0 fun h => by rw [h]
  | vs2 =>
      change regs.read (scalarVs2 w) = some (regs.named (RType.rs2.get w))
      rw [rs2_get]
      exact read_register h0 fun h => by rw [h]
  | vd | vs3 | rs2 => exact read_register h0 id

/-- A source is a group of vector registers or an integer. -/
theorem getVectorSource_cases (stem : VectorStem) (w : Word) (s : VectorSourceOp) :
    (∃ group, getVectorSource stem w s = .vregs group) ∨
    getVectorSource stem w s = scalarOf w s := by
  cases s with
  | vs1 =>
      rw [getVectorSource, getVs1]
      split
      · exact Or.inr rfl
      · split
        · exact Or.inl ⟨_, rfl⟩
        · exact Or.inl ⟨_, rfl⟩
  | vs2 =>
      rw [getVectorSource, getVs2]
      split
      · exact Or.inr rfl
      · exact Or.inl ⟨_, rfl⟩
  | vd | vs3 => exact Or.inl ⟨_, rfl⟩
  | rs2 => exact Or.inr rfl

variable {zbb : List (List (Pattern Opcode))} (decoders : Decoders 32 (decodeGroups zbb))

/-- **Sources read the registers of their fields** while `x0` is zero. -/
theorem sourcesRead (h0 : regs.x 0 = 0) (step : IntegerStep) : SourcesRead decoders regs step := by
  intro op _ source hsource value hvalue
  cases op with
  | vector op =>
      obtain ⟨s, -, rfl⟩ := List.mem_map.1 hsource
      rcases getVectorSource_cases op.stem step.instWord s with ⟨group, hgroup⟩ | hscalar
      · rw [hgroup] at hvalue
        cases hvalue
      · rw [hscalar, read_scalarOf h0] at hvalue
        exact (Option.some.inj hvalue).symm
  | base op =>
      rw [extensionSources] at hsource
      split at hsource
      next args _ =>
        have hrs1 : regs.read (scalarRs1 step.instWord) =
            some (regs.named (RType.rs1.get step.instWord)) := read_register h0 id
        have hrs2 : regs.read (scalarRs2 step.instWord) =
            some (regs.named (RType.rs2.get step.instWord)) := read_register h0 id
        rcases List.mem_append.1 hsource with hmem | hmem
        · split at hmem
          · cases List.mem_singleton.1 hmem
            exact (Option.some.inj (hrs1.symm.trans hvalue)).symm
          · cases hmem
        · split at hmem
          · cases List.mem_singleton.1 hmem
            exact (Option.some.inj (hrs2.symm.trans hvalue)).symm
          · cases hmem
      next => cases hsource
  | zbb index => cases hsource

end Sources

/-! ### Increments -/

/-- The instructions with post-increment, by the semantic functions and the sources. -/
theorem address_stems {op : VectorOpcode} (h : .vs1 ∈ vectorDestinations op) :
    op.stem ∈ [.vldP, .vldLp, .vldSp, .vldTp, .vstP, .vstLp, .vstSp, .vstTp, .vstqSp] := by
  rw [vectorDestinations.eq_def] at h
  split at h
  all_goals first | (simp at h; done) | simp [*]

/-- Their forms. -/
theorem address_form : ∀ p ∈ vectorPatterns, .vs1 ∈ vectorDestinations p.opcode →
    p.opcode.form = some .xx ∨ p.opcode.form = some .x ∧
    (p.opcode.stem = .vldP ∨ p.opcode.stem = .vstP) := by
  decide +kernel

section Increment

variable {t : ElementType} {inst : LoadStoreOperands}

theorem addr_eq_zero (h : inst.sources.getD 0 0 = 0) (maxPhysicalAddress : BitVec 64) :
    inst.addr maxPhysicalAddress = 0 := by
  rw [LoadStoreOperands.addr, h]
  split
  · exact BitVec.zero_and
  · rfl

theorem opsOf_pos (stripMine : Bool) : 0 < opsOf stripMine := by cases stripMine <;> decide

theorem elts_pos (h : inst.hasLength = false) : 0 < inst.elts t := by
  rw [LoadStoreOperands.elts, h, if_neg Bool.false_ne_true]
  exact Nat.mul_pos (opsOf_pos _) (eltsPerRegister_pos t)

/-- The increment of a whole number of registers. -/
theorem loadIncrement_registers (hlength : inst.hasLength = false)
    (hstride : inst.hasStride = false) (hsources : inst.sources.length = 1) :
    loadIncrement t inst 0 = BitVec.ofNat 32 (kVectorRegisterWidth * opsOf inst.stripMine) := by
  rw [loadIncrement, if_pos (elts_pos hlength)]
  simp [hlength, hstride, hsources]

/-- The increment by a number of elements. -/
theorem loadIncrement_elements (hlength : inst.hasLength = false) (hstride : inst.hasStride = false)
    (hsources : inst.sources.length = 2) :
    loadIncrement t inst 0 = inst.operand2 * BitVec.ofNat 32 t.size := by
  rw [loadIncrement, if_pos (elts_pos hlength)]
  simp [hlength, hstride, hsources]

/-- The increment by the length. -/
theorem loadIncrement_length (hlength : inst.hasLength = true) (hstride : inst.hasStride = false) :
    loadIncrement t inst 0 = BitVec.ofNat 32
      (min inst.operand2.toNat (opsOf inst.stripMine * t.eltsPerRegister) * t.size) := by
  have helts : inst.elts t = min inst.operand2.toNat
      (opsOf inst.stripMine * t.eltsPerRegister) := by
    rw [LoadStoreOperands.elts, hlength, if_pos rfl]
  rw [← helts, loadIncrement]
  rcases Nat.eq_zero_or_pos (inst.elts t) with hzero | hpos
  · rw [hzero, if_neg (Nat.lt_irrefl 0), Nat.zero_mul]
    rfl
  · rw [if_pos hpos]
    simp [hlength, hstride]

/-- The increment by a stride for each register. -/
theorem loadIncrement_stride (hlength : inst.hasLength = false) (hstride : inst.hasStride = true) :
    loadIncrement t inst 0 =
      inst.operand2 * BitVec.ofNat 32 t.size * BitVec.ofNat 32 (opsOf inst.stripMine) := by
  rw [loadIncrement, if_pos (elts_pos hlength)]
  simp [hlength, hstride, LoadStoreOperands.strideBytes, LoadStoreOperands.strideElts]

/-- The increment of one register, when there is a length that is not zero. -/
theorem loadIncrement_both (hlength : inst.hasLength = true) (hstride : inst.hasStride = true) :
    loadIncrement t inst 0 =
      if inst.operand2 = 0 then 0 else BitVec.ofNat 32 kVectorRegisterWidth := by
  have helts : inst.elts t > 0 ↔ inst.operand2 ≠ 0 := by
    have hpos : 0 < inst.operand2.toNat ↔ inst.operand2 ≠ 0 := by
      rw [Nat.pos_iff_ne_zero, ne_eq, ne_eq, ← BitVec.toNat_inj]
      rfl
    rw [LoadStoreOperands.elts, hlength, if_pos rfl, gt_iff_lt, lt_min_iff, hpos]
    exact and_iff_left (Nat.mul_pos (opsOf_pos _) (eltsPerRegister_pos t))
  rw [loadIncrement]
  by_cases hzero : inst.operand2 = 0
  · rw [if_neg (mt helts.1 (not_not_intro hzero)), if_pos hzero]
  · rw [if_pos (helts.2 hzero), if_neg hzero]
    simp [hlength, hstride]

/-- A store increments as a load does, but for the quarters. -/
theorem storeIncrement_eq (inst : LoadStoreOperands) (memAddr : BitVec 32) :
    storeIncrement t false inst memAddr = loadIncrement t inst memAddr := by
  simp [storeIncrement, loadIncrement]

theorem storeIncrement_quad (hlength : inst.hasLength = false) (hstride : inst.hasStride = true) :
    storeIncrement t true inst 0 =
      inst.operand2 * BitVec.ofNat 32 t.size * BitVec.ofNat 32 (opsOf inst.stripMine * 4) := by
  rw [storeIncrement, if_pos (elts_pos hlength)]
  simp [hlength, hstride, LoadStoreOperands.strideBytes, LoadStoreOperands.strideElts]

variable {regs : IntegerRegisters} {w : Word} {op : VectorOpcode}

/-- The integer operands of an instruction with post-increment of `x0`. -/
theorem sources_eq (h0 : regs.x 0 = 0) (hvs1 : .vs1 ∈ vectorDestinations op)
    (hscalar : CoralNPUV2ArgsType.form.get w = 3) (hzero : CoralNPUV2ArgsType.vs1.get w = 1)
    (hasLength hasStride : Bool) :
    (loadStoreOperands hasLength hasStride op w regs).sources =
      if op.form = some .xx then [0, regs.named (RType.rs2.get w)] else [0] := by
  have hvs1Read : regs.read (getVectorSource op.stem w .vs1) = some 0 := by
    have hsource : getVectorSource op.stem w .vs1 = scalarOf w .vs1 := if_pos hscalar
    rw [hsource, read_scalarOf h0, registerField, rs1_get, hzero]
    rfl
  have hvs2Read : regs.read (getVectorSource op.stem w .vs2) =
      some (regs.named (RType.rs2.get w)) := by
    have hsource : getVectorSource op.stem w .vs2 = scalarOf w .vs2 :=
      if_pos (Or.inr (Or.inl hscalar))
    rw [hsource, read_scalarOf h0]
    rfl
  have hvdRead : regs.read (getVectorSource op.stem w .vd) = none := rfl
  have hsources : vectorSources op = (if op.form = some .xx then [.vs1, .vs2] else [.vs1]) ∨
      vectorSources op = if op.form = some .xx then [.vd, .vs1, .vs2] else [.vd, .vs1] := by
    have hstem := address_stems hvs1
    simp only [List.mem_cons, List.not_mem_nil, or_false] at hstem
    rcases hstem with hstem | hstem | hstem | hstem | hstem | hstem | hstem | hstem | hstem <;>
      simp only [vectorSources, hstem, true_or, or_true]
  rw [loadStoreOperands]
  rcases hsources with hsources | hsources
  · rw [hsources]
    split <;> simp [hvs1Read, hvs2Read]
  · rw [hsources]
    split <;> simp [hvs1Read, hvs2Read, hvdRead]

theorem destinationsSize_eq (hvs1 : .vs1 ∈ vectorDestinations op) (hasLength hasStride : Bool) :
    (loadStoreOperands hasLength hasStride op w regs).destinationsSize = 1 := by
  have hstem := address_stems hvs1
  simp only [List.mem_cons, List.not_mem_nil, or_false] at hstem
  rw [loadStoreOperands, vectorDestinations]
  rcases hstem with hstem | hstem | hstem | hstem | hstem | hstem | hstem | hstem | hstem <;>
    · rw [hstem]
      rfl

/-- **The increment of an address register that is zero.** -/
theorem increment_eq (h0 : regs.x 0 = 0) (hvs1 : .vs1 ∈ vectorDestinations op)
    (hform : op.form = some .xx ∨ op.form = some .x ∧ (op.stem = .vldP ∨ op.stem = .vstP))
    (hscalar : CoralNPUV2ArgsType.form.get w = 3) (hzero : CoralNPUV2ArgsType.vs1.get w = 1)
    (maxPhysicalAddress : BitVec 64) :
    newAddress maxPhysicalAddress op w regs =
      some (addressIncrement op (regs.named (RType.rs2.get w))) := by
  have hsources := sources_eq h0 hvs1 hscalar hzero
  have hsize (hasLength hasStride : Bool) := @destinationsSize_eq regs w op hvs1 hasLength hasStride
  have haddr (hasLength hasStride : Bool) :
      (loadStoreOperands hasLength hasStride op w regs).addr maxPhysicalAddress = 0 := by
    refine addr_eq_zero ?_ _
    rw [hsources]
    split <;> rfl
  generalize regs.named (RType.rs2.get w) = v at hsources ⊢
  have hoperand2 (hxx : op.form = some .xx) (hasLength hasStride : Bool) :
      (loadStoreOperands hasLength hasStride op w regs).operand2 = v := by
    rw [LoadStoreOperands.operand2, hsources, if_pos hxx]
    rfl
  -- only the increments by registers or elements come without a second operand
  have hxx (hne : op.stem ≠ .vldP ∧ op.stem ≠ .vstP) : op.form = some .xx :=
    hform.resolve_right fun h => h.2.elim hne.1 hne.2
  have hplain : loadIncrement (elementType op) (loadStoreOperands false false op w regs) 0 =
      if op.form = some .xx then v * BitVec.ofNat 32 (elementType op).size
      else BitVec.ofNat 32 (kVectorRegisterWidth * opsOf op.masked) := by
    by_cases hform : op.form = some .xx
    · rw [if_pos hform, loadIncrement_elements rfl rfl (by rw [hsources, if_pos hform]; rfl),
        hoperand2 hform]
    · rw [if_neg hform, loadIncrement_registers rfl rfl (by rw [hsources, if_neg hform]; rfl)]
      rfl
  have hlength (h : op.form = some .xx) :
      loadIncrement (elementType op) (loadStoreOperands true false op w regs) 0 = BitVec.ofNat 32
        (min v.toNat (opsOf op.masked * (elementType op).eltsPerRegister) *
          (elementType op).size) := by
    rw [loadIncrement_length rfl rfl, hoperand2 h]
    rfl
  have hstride (h : op.form = some .xx) :
      loadIncrement (elementType op) (loadStoreOperands false true op w regs) 0 =
        v * BitVec.ofNat 32 (elementType op).size * BitVec.ofNat 32 (opsOf op.masked) := by
    rw [loadIncrement_stride rfl rfl, hoperand2 h]
    rfl
  have hquad (h : op.form = some .xx) :
      storeIncrement (elementType op) true (loadStoreOperands false true op w regs) 0 =
        v * BitVec.ofNat 32 (elementType op).size * BitVec.ofNat 32 (opsOf op.masked * 4) := by
    rw [storeIncrement_quad rfl rfl, hoperand2 h]
    rfl
  have hboth (h : op.form = some .xx) :
      loadIncrement (elementType op) (loadStoreOperands true true op w regs) 0 =
        if v = 0 then 0 else BitVec.ofNat 32 kVectorRegisterWidth := by
    rw [loadIncrement_both rfl rfl, hoperand2 h]
  have hstem := address_stems hvs1
  simp only [List.mem_cons, List.not_mem_nil, or_false] at hstem
  rw [newAddress, addressIncrement]
  rcases hstem with hstem | hstem | hstem | hstem | hstem | hstem | hstem | hstem | hstem
  · have hsemfunc : semfunc .vldP = .load false false := rfl
    simp only [hsemfunc, hstem, hsize, haddr, if_true, hplain]
  · have hsemfunc : semfunc .vldLp = .load true false := rfl
    simp only [hsemfunc, hstem, hsize, haddr, if_true, hlength (hxx (by simp [hstem]))]
  · have hsemfunc : semfunc .vldSp = .load false true := rfl
    simp only [hsemfunc, hstem, hsize, haddr, if_true, hstride (hxx (by simp [hstem]))]
  · have hsemfunc : semfunc .vldTp = .load true true := rfl
    simp only [hsemfunc, hstem, hsize, haddr, if_true, hboth (hxx (by simp [hstem]))]
  · have hsemfunc : semfunc .vstP = .store false false false := rfl
    simp only [hsemfunc, hstem, hsize, haddr, if_true, storeIncrement_eq, hplain]
  · have hsemfunc : semfunc .vstLp = .store true false false := rfl
    simp only [hsemfunc, hstem, hsize, haddr, if_true, storeIncrement_eq,
      hlength (hxx (by simp [hstem]))]
  · have hsemfunc : semfunc .vstSp = .store false true false := rfl
    simp only [hsemfunc, hstem, hsize, haddr, if_true, storeIncrement_eq,
      hstride (hxx (by simp [hstem]))]
  · have hsemfunc : semfunc .vstTp = .store true true false := rfl
    simp only [hsemfunc, hstem, hsize, haddr, if_true, storeIncrement_eq,
      hboth (hxx (by simp [hstem]))]
  · have hsemfunc : semfunc .vstqSp = .store false true true := rfl
    simp only [hsemfunc, hstem, hsize, haddr, if_true, hquad (hxx (by simp [hstem]))]

end Increment

/-! ### Register zero -/

section Zero

variable {zbb : List (List (Pattern Opcode))} {regs : IntegerRegisters}

/-- Destinations with a register number that is not zero, and `X0Dest`. -/
theorem write_x_zero {operand : VectorOperand} (h : operand ≠ .xreg 0) (value : BitVec 32) :
    (regs.write operand value).x 0 = regs.x 0 := by
  cases operand with
  | zero => rfl
  | xreg num =>
      have hnum : (0 : ℕ) ≠ num := fun heq => h (by rw [heq])
      exact Function.update_of_ne hnum _ _
  | vregs group => rfl

/-- `rd` is never the register `x0`. -/
theorem scalarRd_ne (w : Word) : scalarRd w ≠ .xreg 0 := by
  rw [scalarRd]
  intro h
  split at h
  · cases h
  next hnum => exact hnum (VectorOperand.xreg.inj h)

/-- The address register is the register `x0` exactly when its field is 1. -/
theorem scalarVs1_eq_iff (w : Word) :
    scalarVs1 w = .xreg 0 ↔ CoralNPUV2ArgsType.vs1.get w = 1 := by
  rw [scalarVs1]
  constructor
  · intro h
    split at h
    · cases h
    · have hhalf := VectorOperand.xreg.inj h
      omega
  · intro h
    rw [if_neg (by omega), h]

/-- Only instructions with post-increment have an address register to write. -/
theorem vs1_mem_of_newAddress {maxPhysicalAddress : BitVec 64} {op : VectorOpcode} {w : Word}
    {address : BitVec 32} (h : newAddress maxPhysicalAddress op w regs = some address) :
    .vs1 ∈ vectorDestinations op := by
  have hsize {hasLength hasStride : Bool}
      (hsize : (loadStoreOperands hasLength hasStride op w regs).destinationsSize = 1) :
      .vs1 ∈ vectorDestinations op := by
    obtain ⟨d, hd⟩ := List.length_eq_one_iff.1 hsize
    have hmem : d ∈ (vectorDestinations op).filter (· = .vs1) := by
      rw [hd]; exact List.mem_singleton_self d
    obtain ⟨hmem, hvs1⟩ := List.mem_filter.1 hmem
    rwa [of_decide_eq_true hvs1] at hmem
  rw [newAddress] at h
  split at h
  · dsimp only at h
    split at h
    next hone => exact hsize hone
    next => cases h
  · dsimp only at h
    split at h
    next hone => exact hsize hone
    next => cases h
  · cases h

/-- **A vector instruction leaves `x0` zero** unless it increments it. -/
theorem executeVector_x_zero (hzbb : OnlyZbb zbb) (decoders : Decoders 32 (decodeGroups zbb))
    (maxPhysicalAddress : BitVec 64) (h0 : regs.x 0 = 0) {w : Word} {op : VectorOpcode}
    (hparse : parseInstruction decoders w = some (.vector op)) :
    (executeVector maxPhysicalAddress op w regs).x 0 = 0 ↔
      ¬ (.vs1 ∈ vectorDestinations op ∧ CoralNPUV2ArgsType.vs1.get w = 1 ∧
        addressIncrement op (regs.named (RType.rs2.get w)) ≠ 0) := by
  by_cases hzero : .vs1 ∈ vectorDestinations op ∧ CoralNPUV2ArgsType.vs1.get w = 1
  · obtain ⟨hvs1, hfield⟩ := hzero
    obtain ⟨p, hp, rfl, -⟩ := exists_pattern_of_parse hzbb decoders hparse
    have hform := address_form p hp hvs1
    have hscalar : CoralNPUV2ArgsType.form.get w = 3 := by
      have hfields := fieldsOf_of_parse hzbb decoders hparse
      rcases hform with hform | ⟨hform, -⟩
      · exact hfields.form_eq _ hform
      · exact hfields.form_eq _ hform
    have hdest : getVectorDestination p.opcode.stem w .vs1 = .xreg 0 :=
      (scalarVs1_eq_iff w).2 hfield
    rw [executeVector, increment_eq h0 hvs1 hform hscalar hfield]
    simp only [hdest, IntegerRegisters.write, Function.update_self, hvs1, hfield, true_and, not_not]
  · refine iff_of_true ?_ fun h => hzero ⟨h.1, h.2.1⟩
    rw [executeVector]
    split
    next address haddress =>
      have hvs1 := vs1_mem_of_newAddress haddress
      rw [write_x_zero, h0]
      exact fun hdest => hzero ⟨hvs1, (scalarVs1_eq_iff w).1 hdest⟩
    next => exact h0

variable (decoders : Decoders 32 (decodeGroups zbb)) (maxPhysicalAddress : BitVec 64)

/-- **An instruction leaves `x0` zero** unless it increments it. -/
theorem executeInteger_x_zero (hzbb : OnlyZbb zbb) (h0 : regs.x 0 = 0) (step : IntegerStep) :
    (executeInteger decoders maxPhysicalAddress regs step).x 0 = 0 ↔
      ¬ IncrementsZero decoders regs step := by
  have hother : (match step.result with
      | some value => regs.write (scalarRd step.instWord) value
      | none => regs).x 0 = 0 := by
    split
    · rw [write_x_zero (scalarRd_ne _), h0]
    · exact h0
  cases hparse : parseInstruction decoders step.instWord with
  | none =>
      rw [executeInteger, hparse]
      refine iff_of_true hother ?_
      rintro ⟨op, hop, -⟩
      rw [hparse] at hop
      cases hop
  | some op =>
      cases op with
      | vector op =>
          rw [executeInteger, hparse]
          refine (executeVector_x_zero hzbb decoders maxPhysicalAddress h0 hparse).trans
            (not_congr ⟨fun h => ⟨op, hparse, h⟩, ?_⟩)
          rintro ⟨op', hop, h⟩
          rw [hparse] at hop
          cases hop
          exact h
      | base op =>
          rw [executeInteger, hparse]
          refine iff_of_true ?_ ?_
          · cases hargs : getVlArgs op with
            | none =>
                simp only [hargs]
                exact hother
            | some args =>
                simp only [hargs]
                rw [write_x_zero (scalarRd_ne _), h0]
          · rintro ⟨op', hop, -⟩
            rw [hparse] at hop
            cases hop
      | zbb index =>
          rw [executeInteger, hparse]
          refine iff_of_true hother ?_
          rintro ⟨op', hop, -⟩
          rw [hparse] at hop
          cases hop

/-- A run whose steps keep `x0` zero. -/
theorem runInteger_x_zero (h0 : regs.x 0 = 0) {steps : List IntegerStep}
    (hstep : ∀ before step behind, steps = before ++ step :: behind →
      (runInteger decoders maxPhysicalAddress before regs).x 0 = 0 →
        (executeInteger decoders maxPhysicalAddress
          (runInteger decoders maxPhysicalAddress before regs) step).x 0 = 0)
    (before behind : List IntegerStep) (hsteps : steps = before ++ behind) :
    (runInteger decoders maxPhysicalAddress before regs).x 0 = 0 := by
  induction before using List.reverseRecOn generalizing behind with
  | nil => exact h0
  | append_singleton before step ih =>
      rw [List.append_assoc, List.singleton_append] at hsteps
      rw [runInteger, List.foldl_append, List.foldl_cons, List.foldl_nil]
      exact hstep before step behind hsteps (ih _ hsteps)

/-- **Register zero stays zero in a run exactly when** no step increments it. -/
theorem staysZero_iff (hzbb : OnlyZbb zbb) (h0 : regs.x 0 = 0) (steps : List IntegerStep) :
    (∀ before step behind, steps = before ++ step :: behind →
      StaysZero decoders maxPhysicalAddress
        (runInteger decoders maxPhysicalAddress before regs) step) ↔
    ∀ before step behind, steps = before ++ step :: behind →
      ¬ IncrementsZero decoders (runInteger decoders maxPhysicalAddress before regs) step := by
  constructor
  · intro hall
    have hrun :=
      runInteger_x_zero decoders maxPhysicalAddress h0 fun before step behind hsteps hzero =>
      (hall before step behind hsteps).2.trans hzero
    intro before step behind hsteps
    have hzero := hrun before (step :: behind) hsteps
    exact (executeInteger_x_zero decoders maxPhysicalAddress hzbb hzero step).1
      ((hall before step behind hsteps).2.trans hzero)
  · intro hall
    have hrun :=
      runInteger_x_zero decoders maxPhysicalAddress h0 fun before step behind hsteps hzero =>
      (executeInteger_x_zero decoders maxPhysicalAddress hzbb hzero step).2
        (hall before step behind hsteps)
    intro before step behind hsteps
    have hzero := hrun before (step :: behind) hsteps
    refine ⟨sourcesRead decoders hzero step, ?_⟩
    rw [hzero]
    exact (executeInteger_x_zero decoders maxPhysicalAddress hzbb hzero step).2
      (hall before step behind hsteps)

end Zero

/-- `vld_b_p_x` with an address register. -/
def vldPPattern : Pattern VectorOpcode :=
  variant .vldP [.eq CoralNPUV2ArgsType.func2 0b00_0100, .eq CoralNPUV2ArgsType.vs2 0,
    .eq CoralNPUV2ArgsType.func1 0b111] (some .b) .x false

/-- The registers after a reset. -/
def resetRegisters : IntegerRegisters := ⟨fun _ => 0, 0⟩

theorem parseInstruction_vldP {zbb : List (List (Pattern Opcode))}
    (decoders : Decoders 32 (decodeGroups zbb)) {w : Word} (hw : vldPPattern.Matches w) :
    parseInstruction decoders w = some (.vector ⟨.vldP, some .b, some .x, false⟩) :=
  parseInstruction_of_not_shadowed decoders (p := vldPPattern) (by decide +kernel) hw
    (not_shadowed_of_shadowing_eq rfl w)

/-- With the bit below the register number set, `vld.b.p.x v0, x0` takes `x0` to 32. -/
theorem executeInteger_vldP {zbb : List (List (Pattern Opcode))}
    (decoders : Decoders 32 (decodeGroups zbb)) :
    (executeInteger decoders 0x3fffff resetRegisters ⟨0x1000401f, none⟩).x 0 = 32 := by
  rw [executeInteger, parseInstruction_vldP decoders (by decide +kernel)]
  rfl

/-- Decoders of the groups without those of the bit manipulation extension. -/
def someDecoders : Decoders 32 (decodeGroups []) := Decoders.of (Decoder.preferring ⟨.zbb 0, []⟩) _

/-- `vld.b.p.x v0, x1` after a reset. -/
theorem staysZero_iff_reset :
    (∀ before step behind, [⟨0x1000801f, none⟩] = before ++ step :: behind →
      StaysZero someDecoders 0x3fffff
        (runInteger someDecoders 0x3fffff before resetRegisters) step) ↔
    ∀ before step behind, [⟨0x1000801f, none⟩] = before ++ step :: behind →
      ¬ IncrementsZero someDecoders (runInteger someDecoders 0x3fffff before resetRegisters) step :=
  staysZero_iff someDecoders 0x3fffff (fun _ h => by cases h) rfl _

/-- This `vld.b.p.x` after a reset. -/
theorem not_staysZero_vldP :
    (executeInteger someDecoders 0x3fffff resetRegisters ⟨0x1000401f, none⟩).x 0 = 32 ∧
      ¬ ∀ before step behind, [⟨0x1000401f, none⟩] = before ++ step :: behind →
        StaysZero someDecoders 0x3fffff
          (runInteger someDecoders 0x3fffff before resetRegisters) step := by
  have hvalue := executeInteger_vldP someDecoders
  refine ⟨hvalue, fun h => ?_⟩
  have hstays := h [] ⟨0x1000401f, none⟩ [] rfl
  rw [runInteger, List.foldl_nil] at hstays
  exact absurd (hvalue.symm.trans hstays.2) (by decide)

end CoralNpu
