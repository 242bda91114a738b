/-
**Execution of the vector operations.**

`CoralNPUBinaryVectorOp` and `CoralNPUUnaryVectorOp` run one operation, or the four of a strip-mined
instruction, one after the other.  An operation takes its arguments from elements of the source
operands, collects the results in data buffers, and submits these to its destination registers at
once: the next operation reads what this one has written.  Which elements the arguments are is what
the getters of the footprint say.

Main definitions:

* `CoralNpu.VectorFile` — the vector registers;
* `CoralNpu.VectorOrScalar`, `CoralNpu.VectorOperands` — the operands of an instruction;
* `CoralNpu.coralNPUBinaryVectorOp`, `CoralNpu.coralNPUUnaryVectorOp` — the loops; `none` when an
  element operation is undefined;
* `CoralNpu.filesAfter` — the registers before each operation;
* `CoralNpu.liveFile`, `CoralNpu.Executes` — the registers that an operation finds, and what a
  vector operation does.

Main results:

* `CoralNpu.filesAfter_of_forall_ne`, `CoralNpu.filesAfter_dest` — what the operations leave alone,
  and what they write;
* `CoralNpu.element_binaryVectorOp` — **every element of the result**.
-/

import CoralNpu.CoralNpuVectorFootprint
import CoralNpu.CoralNpuVectorShift
import CoralNpu.Lanes

set_option relaxedAutoImplicit false
set_option autoImplicit false

namespace CoralNpu

open Lanes

/-! ### Registers and operands -/

/-- `sizeof(T)`. -/
def ElementType.size (t : ElementType) : ℕ := t.bits / 8

/-- `elts_per_register`. -/
def ElementType.eltsPerRegister (t : ElementType) : ℕ := kVectorRegisterWidth / t.size

/-- `kVectorLengthInBits`. -/
def kVectorLengthInBits : ℕ := 256

/-- The vector registers, by the numbers in their names. -/
abbrev VectorFile := ℕ → BitVec kVectorLengthInBits

/-- An element of a register. -/
def element (t : ElementType) (x : BitVec kVectorLengthInBits) (e : ℕ) : BitVec t.bits :=
  lane t.bits x e

/-- The register with these elements. -/
def ofElements (t : ElementType) (f : ℕ → BitVec t.bits) : BitVec kVectorLengthInBits :=
  ofLanes kVectorLengthInBits t.bits f

/-- An element of a group of registers, which is given by its first register. -/
def groupElement (t : ElementType) (file : VectorFile) (start i : ℕ) : BitVec t.bits :=
  element t (file (start + i / t.eltsPerRegister)) (i % t.eltsPerRegister)

/-- Subtraction goes through the conversion to words. -/
theorem ofInt_sub (w : ℕ) (a b : ℤ) :
    BitVec.ofInt w (a - b) = BitVec.ofInt w a - BitVec.ofInt w b := by
  rw [sub_eq_add_neg, BitVec.ofInt_add, BitVec.ofInt_neg, BitVec.sub_eq_add_neg]

/-- A source operand: the value of a scalar register, or a group of vector registers. -/
inductive VectorOrScalar where
  | scalar (value : BitVec 32)
  | group (start : ℕ)

namespace VectorOrScalar

/-- An element of an operand. -/
def element (t : ElementType) (file : VectorFile) : VectorOrScalar → ℕ → BitVec t.bits
  | scalar value, _ => value.setWidth t.bits
  | group start, i => groupElement t file start i

/-- The element for element `e` of operation `k`: the scalar, or element `e` of register `k`. -/
def operationElement (t : ElementType) (file : VectorFile) : VectorOrScalar → ℕ → ℕ → BitVec t.bits
  | scalar value, _, _ => value.setWidth t.bits
  | group start, k, e => CoralNpu.element t (file (start + k)) e

/-- The form with a scalar. -/
def isScalar : VectorOrScalar → Bool
  | scalar _ => true
  | group _ => false

/-- The operand `i` registers further on; a scalar stays. -/
def shift (i : ℕ) : VectorOrScalar → VectorOrScalar
  | scalar value => scalar value
  | group start => group (start + i)

end VectorOrScalar

/-- The operands of a vector instruction: groups by their first registers. -/
structure VectorOperands where
  vd : ℕ
  vs1 : ℕ
  vs2 : VectorOrScalar

namespace VectorOperands

/-- `GetInstructionSource`. -/
def getInstructionSource (t : ElementType) (inst : VectorOperands) (file : VectorFile) :
    OperandAccess → BitVec t.bits
  | .element 0 _ index => groupElement t file inst.vs1 index
  | .element _ _ index => inst.vs2.element t file index
  | _ => 0

/-- The operands `i` registers further on. -/
def shift (i : ℕ) (inst : VectorOperands) : VectorOperands where
  vd := inst.vd + i
  vs1 := inst.vs1 + i
  vs2 := inst.vs2.shift i

end VectorOperands

/-! ### The loops -/

/-- The values of a function below a bound, when it has them all. -/
def allSome {α : Type} [Inhabited α] (n : ℕ) (f : ℕ → Option α) : Option (ℕ → α) :=
  if ∀ i < n, (f i).isSome then some fun i => (f i).getD default else none

/-- `Submit`, for `n` data buffers. -/
def submit (file : VectorFile) (dest : ℕ → ℕ) (data : ℕ → BitVec kVectorLengthInBits) :
    ℕ → VectorFile
  | 0 => file
  | n + 1 => Function.update (submit file dest data n) (dest n) (data n)

/-- Operations one after the other. -/
def runOps (op : ℕ → VectorFile → Option VectorFile) : ℕ → VectorFile → Option VectorFile
  | 0, file => some file
  | n + 1, file => (runOps op n file).bind (op n)

section Binary

variable {td t1 t2 : ElementType}

/-- The data buffer of a destination register of an operation. -/
def binaryOpData (scalar : Bool) (numOps : ℕ)
    (op : BitVec td.bits → BitVec t1.bits → BitVec t2.bits → Option (BitVec td.bits))
    (arg1Getter arg2Getter : SourceArgGetter) (inst : VectorOperands) (opIndex : ℕ)
    (file : VectorFile) (dstRegIndex : ℕ) : Option (BitVec kVectorLengthInBits) := do
  let span ← allSome td.eltsPerRegister fun e =>
    op (element td (file (inst.vd + (opIndex + dstRegIndex * numOps))) e)
      (inst.getInstructionSource t1 file (arg1Getter scalar numOps opIndex e dstRegIndex))
      (inst.getInstructionSource t2 file (arg2Getter scalar numOps opIndex e dstRegIndex))
  return ofElements td span

/-- An operation of `CoralNPUBinaryVectorOp`. -/
def binaryOp (destRegs : ℕ) (scalar : Bool) (numOps : ℕ)
    (op : BitVec td.bits → BitVec t1.bits → BitVec t2.bits → Option (BitVec td.bits))
    (arg1Getter arg2Getter : SourceArgGetter) (inst : VectorOperands) (opIndex : ℕ)
    (file : VectorFile) : Option VectorFile := do
  let data ← allSome destRegs
    (binaryOpData scalar numOps op arg1Getter arg2Getter inst opIndex file)
  return submit file (fun r => inst.vd + (opIndex + r * numOps)) data destRegs

/-- `CoralNPUBinaryVectorOp`.  The operation gets the old element of the destination too, which only
those that read the destination look at. -/
def coralNPUBinaryVectorOp (halftype widenDst scalar stripMine : Bool)
    (op : BitVec td.bits → BitVec t1.bits → BitVec t2.bits → Option (BitVec td.bits))
    (arg1Getter arg2Getter : SourceArgGetter) (inst : VectorOperands) :
    VectorFile → Option VectorFile :=
  let numOps := opsOf stripMine
  let destRegs := destRegsPerOp halftype widenDst td.size t2.size
  runOps (binaryOp destRegs scalar numOps op arg1Getter arg2Getter inst) numOps

/-- `CoralNPUUnaryVectorOp`. -/
def coralNPUUnaryVectorOp (stripMine : Bool) (op : BitVec t1.bits → Option (BitVec td.bits))
    (inst : VectorOperands) : VectorFile → Option VectorFile :=
  let numOps := opsOf stripMine
  let argGetter := commonBinaryOpGetArg1 td.size t1.size t1.size
  runOps (binaryOp 1 false numOps (fun _ vs (_ : BitVec t1.bits) => op vs) argGetter argGetter inst)
    numOps

end Binary

/-! ### Total operations -/

theorem allSome_some {α : Type} [Inhabited α] (n : ℕ) (f : ℕ → α) :
    allSome n (fun i => some (f i)) = some f := if_pos fun _ _ => rfl

theorem submit_of_ne {file : VectorFile} {dest : ℕ → ℕ} {data : ℕ → BitVec kVectorLengthInBits}
    {n m : ℕ} (h : ∀ r < n, m ≠ dest r) : submit file dest data n m = file m := by
  induction n with
  | zero => rfl
  | succ n ih =>
      rw [submit, Function.update_of_ne (h n (Nat.lt_succ_self n)),
        ih fun r hr => h r (Nat.lt_succ_of_lt hr)]

theorem submit_dest {file : VectorFile} {dest : ℕ → ℕ} {data : ℕ → BitVec kVectorLengthInBits}
    {n r : ℕ} (hr : r < n) (h : ∀ r' < n, dest r = dest r' → r = r') :
    submit file dest data n (dest r) = data r := by
  induction n with
  | zero => cases hr
  | succ n ih =>
      rw [submit]
      rcases Nat.lt_succ_iff_lt_or_eq.1 hr with hlt | rfl
      · have hne : dest r ≠ dest n := fun heq =>
          absurd (h n (Nat.lt_succ_self n) heq) (Nat.ne_of_lt hlt)
        rw [Function.update_of_ne hne, ih hlt fun r' hr' => h r' (Nat.lt_succ_of_lt hr')]
      · exact Function.update_self ..

/-- Data buffers of registers one behind the other. -/
theorem submit_consecutive {file : VectorFile} {vd : ℕ} {data : ℕ → BitVec kVectorLengthInBits}
    {n r : ℕ} (hr : r < n) : submit file (vd + ·) data n (vd + r) = data r :=
  submit_dest hr fun _ _ heq => Nat.add_left_cancel heq

/-- The registers after some operations that are all defined. -/
def filesAfter (op : ℕ → VectorFile → VectorFile) : ℕ → VectorFile → VectorFile
  | 0, file => file
  | n + 1, file => op n (filesAfter op n file)

theorem runOps_some (op : ℕ → VectorFile → VectorFile) (n : ℕ) (file : VectorFile) :
    runOps (fun k file => some (op k file)) n file = some (filesAfter op n file) := by
  induction n with
  | zero => rfl
  | succ n ih => rw [runOps, ih, Option.bind_some, filesAfter]

section Files

-- operation `k` submits `d` registers, `n` apart, from register `vd + k` on
variable {vd n d : ℕ} {data : ℕ → VectorFile → ℕ → BitVec kVectorLengthInBits} {file : VectorFile}

/-- The step of an operation with given results. -/
def writeOp (vd n d : ℕ) (data : ℕ → VectorFile → ℕ → BitVec kVectorLengthInBits) (k : ℕ)
    (file : VectorFile) : VectorFile :=
  submit file (fun r => vd + (k + r * n)) (data k file) d

/-- Registers that no operation has written yet. -/
theorem filesAfter_of_forall_ne {k m : ℕ} (h : ∀ j < k, ∀ r < d, m ≠ vd + (j + r * n)) :
    filesAfter (writeOp vd n d data) k file m = file m := by
  induction k with
  | zero => rfl
  | succ k ih =>
      rw [filesAfter, writeOp, submit_of_ne (h k (Nat.lt_succ_self k)),
        ih fun j hj => h j (Nat.lt_succ_of_lt hj)]

/-- Two operations never write one register. -/
theorem dest_injective {j k r r' : ℕ} (hj : j < n) (hk : k < n)
    (h : vd + (j + r * n) = vd + (k + r' * n)) : j = k ∧ r = r' := by
  have hsum : j + r * n = k + r' * n := Nat.add_left_cancel h
  have hmod := congrArg (· % n) hsum
  simp only [Nat.add_mul_mod_self_right, Nat.mod_eq_of_lt hj, Nat.mod_eq_of_lt hk] at hmod
  subst hmod
  exact ⟨rfl, Nat.eq_of_mul_eq_mul_right (Nat.lt_of_le_of_lt (Nat.zero_le j) hj)
    (Nat.add_left_cancel hsum)⟩

/-- **The registers that an operation has written.** -/
theorem filesAfter_dest {k r : ℕ} (hk : k < n) (hr : r < d) {m : ℕ} (hm : k < m) (hmn : m ≤ n) :
    filesAfter (writeOp vd n d data) m file (vd + (k + r * n)) =
      data k (filesAfter (writeOp vd n d data) k file) r := by
  induction m with
  | zero => cases hm
  | succ m ih =>
      rw [filesAfter, writeOp]
      rcases Nat.lt_succ_iff_lt_or_eq.1 hm with hlt | rfl
      · rw [submit_of_ne, ih hlt (Nat.le_of_succ_le hmn)]
        intro r' hr' heq
        exact absurd (dest_injective hk hmn heq).1 (Nat.ne_of_lt hlt)
      · refine submit_dest hr (?_ : ∀ r' < d, vd + (k + r * n) = vd + (k + r' * n) → r = r')
        exact fun r' _ heq => (dest_injective hk hk heq).2

end Files

section Elements

variable {td t1 t2 : ElementType}

/-- The data buffers of a total operation. -/
def totalData (scalar : Bool) (numOps : ℕ)
    (op : BitVec td.bits → BitVec t1.bits → BitVec t2.bits → BitVec td.bits)
    (arg1Getter arg2Getter : SourceArgGetter) (inst : VectorOperands) (opIndex : ℕ)
    (file : VectorFile) (r : ℕ) : BitVec kVectorLengthInBits :=
  ofElements td fun e =>
    op (element td (file (inst.vd + (opIndex + r * numOps))) e)
      (inst.getInstructionSource t1 file (arg1Getter scalar numOps opIndex e r))
      (inst.getInstructionSource t2 file (arg2Getter scalar numOps opIndex e r))

/-- A total operation. -/
theorem binaryOp_some (destRegs : ℕ) (scalar : Bool) (numOps : ℕ)
    (op : BitVec td.bits → BitVec t1.bits → BitVec t2.bits → BitVec td.bits)
    (arg1Getter arg2Getter : SourceArgGetter) (inst : VectorOperands) (opIndex : ℕ)
    (file : VectorFile) :
    binaryOp destRegs scalar numOps
      (fun d a b => some (op d a b)) arg1Getter arg2Getter inst opIndex
        file =
      some (writeOp inst.vd numOps destRegs
        (totalData scalar numOps op arg1Getter arg2Getter inst) opIndex file) := by
  have hdata : binaryOpData scalar numOps (fun d a b => some (op d a b)) arg1Getter arg2Getter inst
      opIndex file =
        fun r => some (totalData scalar numOps op arg1Getter arg2Getter inst opIndex file r) := by
    funext r
    rw [binaryOpData, allSome_some]
    rfl
  rw [binaryOp, hdata, allSome_some]
  rfl

theorem eltsPerRegister_mul_bits (t : ElementType) :
    t.eltsPerRegister * t.bits = kVectorLengthInBits := by
  cases t <;> rfl

theorem eltsPerRegister_pos (t : ElementType) : 0 < t.eltsPerRegister := by
  cases t <;> decide

/-- An element of the register with these elements. -/
theorem element_ofElements (t : ElementType) (f : ℕ → BitVec t.bits) {e : ℕ}
    (he : e < t.eltsPerRegister) : element t (ofElements t f) e = f e := by
  refine lane_ofLanes f ?_
  rw [← eltsPerRegister_mul_bits t, ← Nat.succ_mul]
  exact Nat.mul_le_mul_right _ he

/-- Registers with the same elements are the same. -/
theorem ext_of_elements (t : ElementType) {x y : BitVec kVectorLengthInBits}
    (h : ∀ e < t.eltsPerRegister, element t x e = element t y e) : x = y :=
  ext_of_lanes (eltsPerRegister_mul_bits t) h

/-- A group from a later register on. -/
theorem groupElement_add (t : ElementType) (file : VectorFile) (start k i : ℕ) :
    groupElement t file start (k * t.eltsPerRegister + i) = groupElement t file (start + k) i := by
  rw [groupElement, groupElement, Nat.mul_comm, Nat.mul_add_div (eltsPerRegister_pos t),
    Nat.mul_add_mod, Nat.add_assoc]

/-- An element of a register of a group. -/
theorem groupElement_of_lt (t : ElementType) (file : VectorFile) (start : ℕ) {e : ℕ}
    (he : e < t.eltsPerRegister) : groupElement t file start e = element t (file start) e := by
  rw [groupElement, Nat.div_eq_of_lt he, Nat.mod_eq_of_lt he, Nat.add_zero]

theorem groupElement_mul_add (t : ElementType) (file : VectorFile) (start k : ℕ) {e : ℕ}
    (he : e < t.eltsPerRegister) :
    groupElement t file start (k * t.eltsPerRegister + e) = element t (file (start + k)) e := by
  rw [groupElement_add, groupElement_of_lt t file _ he]

theorem size_pos (t : ElementType) : 0 < t.size := by cases t <;> decide

/-- The first argument of an operation on elements of one size. -/
theorem commonBinaryOpGetArg1_same (t : ElementType) (scalar : Bool) (numOps k e : ℕ) :
    commonBinaryOpGetArg1 t.size t.size t.size scalar numOps k e 0 =
      .element 0 t.size (k * t.eltsPerRegister + e) := by
  have hpos := size_pos t
  rw [commonBinaryOpGetArg1, if_neg (by omega), Nat.mul_div_cancel _ hpos]
  rfl

/-- The second argument of an operation on elements of one size. -/
theorem commonBinaryOpGetArg2_same (t : ElementType) (scalar : Bool) (numOps k e : ℕ) :
    commonBinaryOpGetArg2 t.size t.size scalar numOps k e 0 =
      .element 1 t.size (if scalar then 0 else k * t.eltsPerRegister + e) := by
  rw [commonBinaryOpGetArg2, Nat.mul_div_cancel _ (size_pos t)]
  rfl

/-- The element of the second operand, by its index in the group unless it is a scalar. -/
theorem element_index (t : ElementType) (vs2 : VectorOrScalar) (file : VectorFile) (k : ℕ) {e : ℕ}
    (he : e < t.eltsPerRegister) :
    vs2.element t file (if vs2.isScalar then 0 else k * t.eltsPerRegister + e) =
      vs2.operationElement t file k e := by
  cases vs2 with
  | scalar value => rfl
  | group start => exact groupElement_mul_add t file start k he

theorem getInstructionSource_arg2 (t : ElementType) (inst : VectorOperands) (file : VectorFile)
    (numOps k : ℕ) {e : ℕ} (he : e < t.eltsPerRegister) :
    inst.getInstructionSource t file
        (commonBinaryOpGetArg2 t.size t.size inst.vs2.isScalar numOps k e 0) =
      inst.vs2.operationElement t file k e := by
  rw [commonBinaryOpGetArg2_same, VectorOperands.getInstructionSource, element_index t _ _ _ he]
  decide

/-! ### What an instruction does -/

/-- The registers that operation `k` finds: destinations of earlier operations have their new
contents, which stay to the end, and all other registers their old ones. -/
def liveFile (vd n d : ℕ) (file file' : VectorFile) (k : ℕ) : VectorFile := fun m =>
  if ∃ j, j < k ∧ ∃ r, r < d ∧ m = vd + (j + r * n) then file' m else file m

/-- What a vector operation does, element by element: element `e` of destination `r` of operation
`k` gets the value `value k r e`, computed from the registers that the operation finds, and other
registers are kept. -/
structure Executes (td : ElementType) (n d vd : ℕ)
    (value : ℕ → ℕ → ℕ → VectorFile → BitVec td.bits) (file file' : VectorFile) : Prop where
  kept : ∀ m, (∀ k < n, ∀ r < d, m ≠ vd + (k + r * n)) → file' m = file m
  written : ∀ k < n, ∀ r < d, ∀ e < td.eltsPerRegister,
    element td (file' (vd + (k + r * n))) e = value k r e (liveFile vd n d file file' k)

/-- Values are looked at inside the destinations only. -/
theorem Executes.congr {td : ElementType} {n d vd : ℕ}
    {value value' : ℕ → ℕ → ℕ → VectorFile → BitVec td.bits} {file file' : VectorFile}
    (h : Executes td n d vd value file file')
    (heq : ∀ k < n, ∀ r < d, ∀ e < td.eltsPerRegister, ∀ s, value k r e s = value' k r e s) :
    Executes td n d vd value' file file' where
  kept := h.kept
  written := fun k hk r hr e he => (h.written k hk r hr e he).trans (heq k hk r hr e he _)

/-- A register that is no destination is found as it was. -/
theorem liveFile_of_forall_ne {vd n d : ℕ} {file file' : VectorFile} {k m : ℕ} (hk : k ≤ n)
    (h : ∀ i < d * n, m ≠ vd + i) : liveFile vd n d file file' k m = file m := by
  rw [liveFile, if_neg]
  rintro ⟨j, hj, r, hr, heq⟩
  refine h (j + r * n) ?_ heq
  have hle : (r + 1) * n ≤ d * n := Nat.mul_le_mul_right n hr
  rw [Nat.add_mul] at hle
  omega

/-- The first `d` registers of the destination are none of the first `c1` and `c2` registers of the
sources. -/
def VectorOperands.DestDisjoint (inst : VectorOperands) (d c1 c2 : ℕ) : Prop :=
  ∀ i < d, (∀ j < c1, inst.vs1 + j ≠ inst.vd + i) ∧
    ∀ start, inst.vs2 = .group start → ∀ j < c2, start + j ≠ inst.vd + i

/-- Groups that lie before or behind the destinations. -/
theorem destDisjoint_of_le {vd vs1 vs2 d c1 c2 : ℕ} (h1 : vs1 + c1 ≤ vd ∨ vd + d ≤ vs1)
    (h2 : vs2 + c2 ≤ vd ∨ vd + d ≤ vs2) :
    VectorOperands.DestDisjoint ⟨vd, vs1, .group vs2⟩ d c1 c2 := by
  intro i hi
  refine ⟨fun j hj => ?_, ?_⟩
  · show vs1 + j ≠ vd + i
    omega
  · rintro start heq j hj
    cases heq
    show vs2 + j ≠ vd + i
    omega

section Disjoint

variable {inst : VectorOperands} {n d c1 c2 : ℕ} {file file' : VectorFile}

/-- The first source is found as it was. -/
theorem VectorOperands.DestDisjoint.live_vs1 (h : inst.DestDisjoint (d * n) c1 c2) {k j : ℕ}
    (hk : k ≤ n) (hj : j < c1) :
    liveFile inst.vd n d file file' k (inst.vs1 + j) = file (inst.vs1 + j) :=
  liveFile_of_forall_ne hk fun i hi => (h i hi).1 j hj

/-- The second source is found as it was. -/
theorem VectorOperands.DestDisjoint.live_vs2 (h : inst.DestDisjoint (d * n) c1 c2) {k : ℕ}
    (hk : k ≤ n) {j : ℕ} (hj : j < c2) (t : ElementType) (e : ℕ) :
    inst.vs2.operationElement t (liveFile inst.vd n d file file' k) j e =
      inst.vs2.operationElement t file j e := by
  have hvs2 := fun i hi => (h i hi).2
  cases hsource : inst.vs2 with
  | scalar value => rfl
  | group start =>
      exact congrArg (CoralNpu.element t · e) (liveFile_of_forall_ne hk fun i hi =>
        hvs2 i hi start hsource j hj)

end Disjoint

/-- The registers before an operation, from the final ones. -/
theorem filesAfter_eq_liveFile {vd n d : ℕ} {data : ℕ → VectorFile → ℕ → BitVec kVectorLengthInBits}
    {file : VectorFile} {k : ℕ} (hk : k ≤ n) :
    filesAfter (writeOp vd n d data) k file =
      liveFile vd n d file (filesAfter (writeOp vd n d data) n file) k := by
  funext m
  rw [liveFile]
  split
  · rename_i h
    obtain ⟨j, hj, r, hr, rfl⟩ := h
    rw [filesAfter_dest (Nat.lt_of_lt_of_le hj hk) hr hj hk,
      filesAfter_dest (Nat.lt_of_lt_of_le hj hk) hr (Nat.lt_of_lt_of_le hj hk) le_rfl]
  · rename_i h
    exact filesAfter_of_forall_ne fun j hj r hr heq => h ⟨j, hj, r, hr, heq⟩

/-- **Every element of the result.** -/
theorem element_binaryVectorOp (halftype widenDst scalar stripMine : Bool)
    (op : BitVec td.bits → BitVec t1.bits → BitVec t2.bits → BitVec td.bits)
    (arg1Getter arg2Getter : SourceArgGetter) (inst : VectorOperands) (file : VectorFile) :
    ∃ file', coralNPUBinaryVectorOp halftype widenDst scalar stripMine
        (fun d a b => some (op d a b)) arg1Getter arg2Getter inst file = some file' ∧
      Executes td (opsOf stripMine) (destRegsPerOp halftype widenDst td.size t2.size) inst.vd
        (fun k r e s => op (element td (s (inst.vd + (k + r * opsOf stripMine))) e)
          (inst.getInstructionSource t1 s (arg1Getter scalar (opsOf stripMine) k e r))
          (inst.getInstructionSource t2 s (arg2Getter scalar (opsOf stripMine) k e r)))
            file file' := by
  let data := totalData scalar (opsOf stripMine) op arg1Getter arg2Getter inst
  let step :=
    writeOp inst.vd (opsOf stripMine) (destRegsPerOp halftype widenDst td.size t2.size) data
  refine ⟨filesAfter step (opsOf stripMine) file, ?_, ?_, ?_⟩
  · rw [coralNPUBinaryVectorOp, ← runOps_some]
    refine congrArg (fun ops => runOps ops (opsOf stripMine) file) ?_
    funext k s
    exact binaryOp_some ..
  · exact fun m hm => filesAfter_of_forall_ne hm
  · intro k hk r hr e he
    rw [filesAfter_dest hk hr hk le_rfl, ← filesAfter_eq_liveFile (Nat.le_of_lt hk)]
    exact element_ofElements td _ he

end Elements

end CoralNpu
