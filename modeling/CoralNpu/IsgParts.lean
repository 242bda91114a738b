/-
**The parts every emission is put together from.**

The preamble, the builders and the hazard generators reach the engine only through a few calls: the
emitters of single lines, the random generator, and the tracker.  Every such piece of code is
therefore composed from the parts listed here, and what holds of the parts holds of all of them.

Main definitions:

* `CoralNpu.EnginePart` — the parts, and `CoralNpu.EnginePrimitive`, the primitives these are made
  of;
* `CoralNpu.EngineCall.IsEmission` — the calls that emit or look, as opposed to those that reset,
  reseed or announce a trap.

Main results:

* `CoralNpu.EngineCall.composed` — **every emission is composed from the parts**;
* `CoralNpu.emitLi_eq` — the lines of a constant go through the ordinary emitter.
-/

import CoralNpu.IsgBuilders

set_option relaxedAutoImplicit false
set_option autoImplicit false

namespace CoralNpu

open AsciiText PartialState

variable {G : Prng}

/-! ### Lines that need no set-up -/

/-- The first character of a text that does not start with white space. -/
theorem head?_strip {c : Char} {text : Text} (hc : isSpace c = false) :
    (strip (c :: text)).head? = some c := by
  obtain ⟨rest, hrest⟩ := exists_strip_append (List.cons_ne_nil c []) (by simpa using hc) text
  exact congrArg List.head? hrest

/-- A line with this first character is no vector instruction. -/
theorem isVector_strip {c : Char} {text : Text} (hc : isSpace c = false) (hv : c ≠ 'v') :
    isVector (strip (c :: text)) = false := by
  simp [isVector, head?_strip hc, hv]

theorem isVset_of_isVector {trimmed : Text} (h : isVector trimmed = false) :
    isVset trimmed = false := by
  cases trimmed with
  | nil => rfl
  | cons c trimmed =>
      have hc : c ≠ 'v' := by simpa [isVector] using h
      have hbeq : ('v' == c) = false := by simpa using hc.symm
      rw [isVset, show "vset".toList = 'v' :: "set".toList from rfl, List.isPrefixOf, hbeq]
      rfl

/-- A line that is no vector instruction is placed without the set-up lines. -/
theorem placeInstruction_of_not_isVector {setUp : EngineM G Unit} {inst : Text}
    (h : isVector (strip inst) = false) : placeInstruction setUp inst = advance inst.length := by
  simp [placeInstruction, h, isVset_of_isVector h]

theorem emitInstructionFormatBody_congr {setUp setUp' : EngineM G Unit} {inst : Text}
    (h : isVector (strip inst) = false) :
    emitInstructionFormatBody setUp inst = emitInstructionFormatBody setUp' inst := by
  simp only [emitInstructionFormatBody, placeInstruction_of_not_isVector h]

/-- **The lines of a constant go through the ordinary emitter.** -/
theorem emitLi_eq (reg : Text) (val : BitVec 32) :
    (emitLi reg val : EngineM G Unit) = emitLiBody emitInstructionFormat reg val := by
  have hlui : ∀ text, isVector (strip ("lui ".toList ++ text)) = false :=
    fun text => isVector_strip (by decide) (by decide)
  have haddi : ∀ text, isVector (strip ("addi ".toList ++ text)) = false :=
    fun text => isVector_strip (by decide) (by decide)
  simp only [emitLi, emitLiBody, emitInstructionFormat, List.append_assoc]
  rw [emitInstructionFormatBody_congr (hlui _), emitInstructionFormatBody_congr (haddi _)]

/-! ### The parts -/

/-- The parts emissions are composed from. -/
inductive EnginePart : ∀ α : Type, EngineM G α → Prop where
  | draw : EnginePart _ draw
  | currentPc : EnginePart _ currentPc
  | vectorState : EnginePart _ vectorState
  | strictSandboxing : EnginePart _ strictSandboxing
  | setStrictSandboxing (strict : Bool) : EnginePart _ (setStrictSandboxing strict)
  | emitInstruction (inst : Text) : EnginePart _ (emitInstruction inst)
  | emitInstructionFormat (inst : Text) : EnginePart _ (emitInstructionFormat inst)
  | emitVsetvli (rd rs1 : Text) (sew : VectorSew) (lmul : VectorLmul) (ta ma : Bool) :
      EnginePart _ (emitVsetvli rd rs1 sew lmul ta ma)
  | emitVsetivli (rd : Text) (uimm : BitVec 32) (sew : VectorSew) (lmul : VectorLmul)
      (ta ma : Bool) : EnginePart _ (emitVsetivli rd uimm sew lmul ta ma)
  | appendChecked (line : Text) : EnginePart _ (appendChecked (line ++ "\n".toList))
  | appendUnchecked (line : Text) : EnginePart _ (appendUnchecked (line ++ "\n".toList))
  | resetTracker : EnginePart _ resetTracker
  | setVl (vl : BitVec 32) : EnginePart _ (setVl vl)
  | addHazardTag (tag : Text) : EnginePart _ (addHazardTag tag)

/-- A program composed from the parts. -/
abbrev Emission {α : Type} (m : EngineM G α) : Prop := Composed EnginePart α m

namespace Emission

theorem draw : Emission (draw : EngineM G _) := .part .draw

theorem vectorState : Emission (vectorState : EngineM G _) := .part .vectorState

theorem emitInstruction (inst : Text) : Emission (emitInstruction inst : EngineM G _) :=
  .part (.emitInstruction inst)

theorem emitInstructionFormat (inst : Text) :
    Emission (emitInstructionFormat inst : EngineM G _) :=
  .part (.emitInstructionFormat inst)

theorem emitVsetvli (rd rs1 : Text) (sew : VectorSew) (lmul : VectorLmul) (ta ma : Bool) :
    Emission (emitVsetvli rd rs1 sew lmul ta ma : EngineM G _) :=
  .part (.emitVsetvli rd rs1 sew lmul ta ma)

theorem emitInstructions (insts : List String) :
    Emission (emitInstructions insts : EngineM G _) :=
  .forM fun _ => emitInstruction _

theorem emitLi (reg : Text) (val : BitVec 32) : Emission (emitLi reg val : EngineM G _) := by
  rw [emitLi_eq, emitLiBody]
  exact .bind (emitInstructionFormat _) fun _ => .ite (emitInstructionFormat _) (.pure _)

theorem emitConstant (reg : String) (value : BitVec 32) :
    Emission (emitConstant reg value : EngineM G _) :=
  .bind (emitInstructionFormat _) fun _ => .ite (emitInstructionFormat _) (.pure _)

theorem emitSafePointerInit (regs : List Text) :
    Emission (emitSafePointerInit regs : EngineM G _) :=
  .forM fun _ => .bind draw fun _ => emitLi _ _

theorem setupTrapHandler (trapAddr : BitVec 32) :
    Emission (setupTrapHandler trapAddr : EngineM G _) :=
  .bind (emitInstructionFormat _) fun _ => emitInstruction _

theorem emitTrapHandler : Emission (emitTrapHandler : EngineM G _) :=
  .bind (emitInstructions _) fun _ => .bind (.part .currentPc) fun _ =>
    .bind (emitInstructionFormat _) fun _ => .bind (emitInstructions _) fun _ =>
    .bind (.part .currentPc) fun _ => .bind (emitInstructionFormat _) fun _ => emitInstructions _

theorem emitFillLoop : Emission (emitFillLoop : EngineM G _) :=
  .bind (emitLi _ _) fun _ => .bind draw fun _ => .bind (emitLi _ _) fun _ =>
    .bind (emitLi _ _) fun _ => .bind (.part .currentPc) fun _ =>
    .bind (.part (.appendUnchecked "1:".toList)) fun _ => .bind (emitInstructions _) fun _ =>
    emitInstructionFormat _

theorem emitLi_draw (reg : Text) :
    Emission (do CoralNpu.emitLi reg ((← CoralNpu.draw).setWidth 32) : EngineM G _) :=
  .bind draw fun _ => emitLi _ _

theorem emitRegisterInit : Emission (emitRegisterInit : EngineM G _) := by
  unfold CoralNpu.emitRegisterInit
  refine .bind (emitLi _ _) fun _ => .bind (emitInstruction _) fun _ =>
    .bind (.forM fun _ => emitLi_draw _) fun _ => .bind draw fun _ => .bind draw fun _ => ?_
  refine .bind (emitInstructionFormat _) fun _ => .bind (emitInstruction _) fun _ => ?_
  -- the control registers
  refine .bind draw fun _ => .bind (emitLi _ _) fun _ => .bind (emitInstruction _) fun _ => ?_
  refine .bind draw fun _ => .bind (emitLi _ _) fun _ => .bind (emitInstruction _) fun _ => ?_
  refine .bind draw fun _ => .bind (emitLi _ _) fun _ => .bind (emitInstruction _) fun _ => ?_
  refine .bind draw fun _ => .bind (emitInstructionFormat _) fun _ =>
    .bind (emitInstruction _) fun _ => ?_
  refine .bind draw fun _ => .bind (emitInstructionFormat _) fun _ =>
    .bind (emitInstruction _) fun _ => .bind (emitInstruction _) fun _ => ?_
  exact .forM fun _ => .bind draw fun _ => .bind (emitLi _ _) fun _ => emitInstructionFormat _

theorem drawDataAddress : Emission (drawDataAddress : EngineM G _) :=
  .bind draw fun _ => .pure _

theorem emitVectorInit : Emission (emitVectorInit : EngineM G _) := by
  unfold CoralNpu.emitVectorInit
  refine .bind (.part .resetTracker) fun _ => .bind (emitLi _ _) fun _ =>
    .bind (.forM fun _ => .bind (emitInstructionFormat _) fun _ => emitInstruction _) fun _ => ?_
  refine .bind drawDataAddress fun _ => .bind (emitLi _ _) fun _ =>
    .bind drawDataAddress fun _ => .bind (emitLi _ _) fun _ => ?_
  exact .bind drawDataAddress fun _ => .bind (emitLi _ _) fun _ =>
    .bind drawDataAddress fun _ => .bind (emitLi _ _) fun _ => emitLi _ _

theorem emitPreamble : Emission (emitPreamble : EngineM G _) :=
  .bind (.part (.appendUnchecked "; BEGIN PROTECTED\n.text\n.global _start\n_start:".toList))
    fun _ => .bind emitTrapHandler fun _ => .bind (setupTrapHandler _) fun _ =>
    .bind emitFillLoop fun _ => .bind emitRegisterInit fun _ => .bind emitVectorInit fun _ =>
    .part (.appendUnchecked "; END PROTECTED\n; BEGIN MUTABLE\n_mutable_start:".toList)

theorem emitDataHazard (name1 name2 : Text) :
    Emission (emitDataHazard name1 name2 : EngineM G _) :=
  .bind (emitInstructionFormat _) fun _ => emitInstructionFormat _

theorem emitFpPoisonPills : Emission (emitFpPoisonPills : EngineM G _) :=
  .bind (.part (.appendChecked _)) fun _ => .bind (emitLi _ _) fun _ =>
    .bind (emitInstruction _) fun _ =>
      .bind (emitLi _ _) fun _ => .bind (emitInstruction _) fun _ =>
    .bind (emitLi _ _) fun _ => emitInstructions _

theorem emitVtype (sew lmul : ℤ) (vl : BitVec 32) :
    Emission (emitVtype sew lmul vl : EngineM G _) := by
  rw [CoralNpu.emitVtype]
  split
  · exact .ite (.bind (emitLi _ _) fun _ => .bind (emitVsetvli _ _ _ _ _ _) fun _ =>
      .part (.setVl _)) (emitVsetvli _ _ _ _ _ _)
  · exact .failure

theorem calculateEmul (sew : VectorSew) (lmul : VectorLmul) (eew : ℕ) :
    Emission (calculateEmul sew lmul eew : EngineM G _) :=
  .bind draw fun _ => .ite (.pure _) (.ite (.bind (emitVsetvli _ _ _ _ _ _) fun _ => .pure _)
    (.pure _))

theorem drawRegNum (regNum : BitVec 32) : Emission (drawRegNum regNum : EngineM G _) :=
  .bind draw fun _ => .ite (.bind draw fun _ => .pure _) (.pure _)

theorem alignVectorReg (regStr : Text) (lmul : VectorLmul) :
    Emission (alignVectorReg regStr lmul : EngineM G _) := by
  rw [CoralNpu.alignVectorReg.eq_def]
  split
  · split
    · exact .pure _
    · exact .bind (drawRegNum _) fun _ => .pure _
  · exact .pure _

theorem emitReservedClamp : Emission (emitReservedClamp : EngineM G _) :=
  .bind (emitInstructionFormat _) fun _ => .bind (emitInstructions _) fun _ =>
    .bind (emitInstructionFormat _) fun _ => emitInstructions _

theorem emitDynamicMaskLines (offsetSize : BitVec 32) :
    Emission (emitDynamicMaskLines offsetSize : EngineM G _) :=
  .bind (emitInstructions _) fun _ => .bind (emitConstant _ _) fun _ =>
    .bind (emitInstruction _) fun _ => .bind (emitConstant _ _) fun _ =>
    .bind (emitInstructions _) fun _ => .bind (.ite emitReservedClamp (.pure _)) fun _ =>
    emitInstructions _

theorem emitDynamicMask (offsetSize : BitVec 32) :
    Emission (emitDynamicMask offsetSize : EngineM G _) :=
  .bind (.part .strictSandboxing) fun _ => .ite (emitDynamicMaskLines _) (.pure _)

theorem emitVectorArithmetic (mnemonic : String) (vd vs2 vs1 : Text) (masked : Bool) :
    Emission (emitVectorArithmetic mnemonic vd vs2 vs1 masked : EngineM G _) :=
  .bind vectorState fun _ => .bind (alignVectorReg _ _) fun _ =>
    .bind vectorState fun _ => .bind (alignVectorReg _ _) fun _ =>
    .bind vectorState fun _ => .bind (alignVectorReg _ _) fun _ => emitInstructionFormat _

theorem emitLoad (rd rs1 : Text) (imm : BitVec 32) :
    Emission (emitLoad rd rs1 imm : EngineM G _) :=
  .bind (emitConstant _ _) fun _ => .bind (emitInstructionFormat _) fun _ =>
    .bind (emitDynamicMask _) fun _ => emitInstructionFormat _

theorem emitStore (rs2 rs1 : Text) (imm : BitVec 32) :
    Emission (emitStore rs2 rs1 imm : EngineM G _) :=
  .bind (emitInstructionFormat _) fun _ => .bind (emitInstructionFormat _) fun _ =>
    .bind (emitInstructionFormat _) fun _ => .bind (emitInstructionFormat _) fun _ =>
    .bind (emitDynamicMask _) fun _ => emitInstructionFormat _

theorem emitVectorLoadStrided (vd rs1 rs2 : Text) :
    Emission (emitVectorLoadStrided vd rs1 rs2 : EngineM G _) :=
  .bind (emitInstructionFormat _) fun _ => .bind (emitInstructionFormat _) fun _ =>
    .bind (emitDynamicMask _) fun _ => .bind vectorState fun _ =>
    .bind (calculateEmul _ _ _) fun _ => .bind (alignVectorReg _ _) fun _ =>
    emitInstructionFormat _

theorem chooseTempVs2 (alignedVd alignedVs2 : Text) (emul : VectorLmul) (candidate : Text)
    (candidates : List Text) :
    Emission (chooseTempVs2 alignedVd alignedVs2 emul candidate candidates : EngineM G _) := by
  induction candidates generalizing candidate with
  | nil => exact alignVectorReg _ _
  | cons next candidates ih => exact .bind (alignVectorReg _ _) fun _ => .ite (ih _) (.pure _)

theorem emitVectorLoadIndexed (vd rs1 vs2 : Text) :
    Emission (emitVectorLoadIndexed vd rs1 vs2 : EngineM G _) :=
  .bind vectorState fun _ => .bind (calculateEmul _ _ _) fun _ =>
    .bind vectorState fun _ => .bind (alignVectorReg _ _) fun _ =>
    .bind (alignVectorReg _ _) fun _ => .bind (chooseTempVs2 _ _ _ _ _) fun _ =>
    .bind (emitInstructionFormat _) fun _ => .bind (emitInstructionFormat _) fun _ =>
    .bind (emitInstructionFormat _) fun _ => .bind (emitDynamicMask _) fun _ =>
    emitInstructionFormat _

end Emission

/-! ### The primitives -/

/-- The primitives the parts are composed from in turn. -/
inductive EnginePrimitive : ∀ α : Type, EngineM G α → Prop where
  | tick : EnginePrimitive _ tick
  | draw : EnginePrimitive _ draw
  | print (text : Text) : EnginePrimitive _ (print text)
  | checkRoom (written : ℕ) : EnginePrimitive _ (checkRoom written)
  | advance (written : ℕ) : EnginePrimitive _ (advance written)
  | noteItem (item : Text) : EnginePrimitive _ (noteItem item)
  | noteUnchecked (written : ℕ) : EnginePrimitive _ (noteUnchecked written)
  | currentPc : EnginePrimitive _ currentPc
  | vectorState : EnginePrimitive _ vectorState
  | strictSandboxing : EnginePrimitive _ strictSandboxing
  | setStrictSandboxing (strict : Bool) : EnginePrimitive _ (setStrictSandboxing strict)
  | setVectorState (tracker : VectorStateTracker) : EnginePrimitive _ (setVectorState tracker)
  | setVl (vl : BitVec 32) : EnginePrimitive _ (setVl vl)
  | setVlUnknown : EnginePrimitive _ setVlUnknown
  | resetTracker : EnginePrimitive _ resetTracker
  | addHazardTag (tag : Text) : EnginePrimitive _ (addHazardTag tag)

/-- A program composed from the primitives. -/
abbrev Primitive {α : Type} (m : EngineM G α) : Prop := Composed EnginePrimitive α m

namespace Primitive

theorem appendChecked (item : Text) : Primitive (appendChecked item : EngineM G _) :=
  .bind (.part (.print _)) fun _ => .bind (.part (.checkRoom _)) fun _ =>
    .bind (.part (.advance _)) fun _ => .part (.noteItem _)

theorem appendUnchecked (item : Text) : Primitive (appendUnchecked item : EngineM G _) :=
  .bind (.part (.noteUnchecked _)) fun _ => .bind (.part (.print _)) fun _ =>
    .bind (.part (.advance _)) fun _ => .part (.noteItem _)

theorem emitVsetvli (rd rs1 : Text) (sew : VectorSew) (lmul : VectorLmul) (ta ma : Bool) :
    Primitive (emitVsetvli rd rs1 sew lmul ta ma : EngineM G _) :=
  .bind (.part (.setVectorState _)) fun _ => appendChecked _

theorem placeInstruction {setUp : EngineM G Unit} (hsetUp : Primitive setUp) (inst : Text) :
    Primitive (placeInstruction setUp inst) := by
  refine .ite (.bind (.ite (.part .setVlUnknown) .failure) fun _ => .part (.advance _)) (.ite ?_ ?_)
  · refine .bind (.part .vectorState) fun _ => .ite ?_ (.part (.advance _))
    exact .bind hsetUp fun _ => .bind (.part (.noteUnchecked _)) fun _ =>
      .bind (.part (.print _)) fun _ => .part (.advance _)
  · exact .part (.advance _)

theorem emitInstructionFormatBody {setUp : EngineM G Unit} (hsetUp : Primitive setUp)
    (inst : Text) : Primitive (emitInstructionFormatBody setUp inst) :=
  .bind (.part .tick) fun _ => .bind (.part (.print _)) fun _ =>
    .bind (.part (.checkRoom _)) fun _ => .bind (placeInstruction hsetUp inst) fun _ =>
    .bind (.part (.noteUnchecked _)) fun _ => .bind (.part (.print _)) fun _ =>
    .bind (.part (.advance _)) fun _ => .part (.noteItem _)

theorem emitLi (reg : Text) (val : BitVec 32) : Primitive (emitLi reg val : EngineM G _) :=
  .bind (emitInstructionFormatBody .failure _) fun _ =>
    .ite (emitInstructionFormatBody .failure _) (.pure _)

theorem vectorSetUp {append : Text → EngineM G Unit} (happend : ∀ item, Primitive (append item)) :
    Primitive (vectorSetUp append) :=
  .bind (.part .draw) fun _ => .bind (happend _) fun _ => .bind (.part .vectorState) fun _ =>
    .bind (emitVsetvli _ _ _ _ _ _) fun _ => .bind (.part (.setVl _)) fun _ =>
    .forM fun _ => .bind (.part .draw) fun _ => emitLi _ _

theorem emitInstruction (inst : Text) : Primitive (emitInstruction inst : EngineM G _) := by
  refine .bind (.part .tick) fun _ => .ite (.ite ?_ (.pure _)) ?_
  · exact .bind (.part .setVlUnknown) fun _ => appendChecked _
  · exact .bind (.part .vectorState) fun _ =>
      .bind (.ite (vectorSetUp appendChecked) (.pure _)) fun _ => appendChecked _

end Primitive

/-- **Every part is composed from the primitives.** -/
theorem EnginePart.primitive {α : Type} {m : EngineM G α} (h : EnginePart α m) : Primitive m := by
  cases h with
  | draw => exact .part .draw
  | currentPc => exact .part .currentPc
  | vectorState => exact .part .vectorState
  | strictSandboxing => exact .part .strictSandboxing
  | setStrictSandboxing strict => exact .part (.setStrictSandboxing _)
  | emitInstruction inst => exact Primitive.emitInstruction inst
  | emitInstructionFormat inst =>
      exact Primitive.emitInstructionFormatBody (Primitive.vectorSetUp Primitive.appendUnchecked) _
  | emitVsetvli rd rs1 sew lmul ta ma => exact Primitive.emitVsetvli _ _ _ _ _ _
  | emitVsetivli rd uimm sew lmul ta ma =>
      exact .bind (.part (.setVectorState _)) fun _ => Primitive.appendChecked _
  | appendChecked line => exact Primitive.appendChecked _
  | appendUnchecked line => exact Primitive.appendUnchecked _
  | resetTracker => exact .part .resetTracker
  | setVl vl => exact .part (.setVl _)
  | addHazardTag tag => exact .part (.addHazardTag _)

/-- Every emission is composed from the primitives. -/
theorem Emission.primitive {α : Type} {m : EngineM G α} (h : Emission m) : Primitive m :=
  h.flatten fun _ _ hpart => hpart.primitive

/-! ### The calls -/

namespace EngineCall

/-- The calls that emit text, or look at the engine. -/
def IsEmission : EngineCall → Prop
  | reset | setSeed _ | setExpectedTrap _ _ _ => False
  | _ => True

/-- **Every emission is composed from the parts.** -/
theorem composed {c : EngineCall} (h : c.IsEmission) : Emission (c.run : EngineM G _) := by
  cases c with
  | reset | setSeed seed | setExpectedTrap mcause mepc mtval => exact h.elim
  | emitPreamble => exact .bind Emission.emitPreamble fun _ => .pure _
  | emitInstruction inst => exact .bind (Emission.emitInstruction _) fun _ => .pure _
  | emitInstructionFormat inst => exact .bind (Emission.emitInstructionFormat _) fun _ => .pure _
  | emitVsetvli rd rs1 sew lmul ta ma =>
      exact .bind (Emission.emitVsetvli _ _ _ _ _ _) fun _ => .pure _
  | emitVsetivli rd uimm sew lmul ta ma =>
      exact .bind (.part (.emitVsetivli _ _ _ _ _ _)) fun _ => .pure _
  | emitEbreak => exact .bind (Emission.emitInstruction _) fun _ => .pure _
  | emitMpause => exact .bind (.part (.appendChecked ".word 0x08000073".toList)) fun _ => .pure _
  | emitIllegalInstruction =>
      exact .bind (.part (.appendChecked ".word 0x00000000".toList)) fun _ => .pure _
  | emitDataHazard name1 name2 => exact .bind (Emission.emitDataHazard _ _) fun _ => .pure _
  | emitFpPoisonPills => exact .bind Emission.emitFpPoisonPills fun _ => .pure _
  | emitVtype sew lmul vl => exact .bind (Emission.emitVtype _ _ _) fun _ => .pure _
  | emitCoverpoint name => exact .bind (.part (.appendChecked _)) fun _ => .pure _
  | emitSafePointerInit regs => exact .bind (Emission.emitSafePointerInit _) fun _ => .pure _
  | addHazardTag tag => exact .bind (.part (.addHazardTag _)) fun _ => .pure _
  | setupTrapHandler trapAddr => exact .bind (Emission.setupTrapHandler _) fun _ => .pure _
  | currentPc => exact .bind (.part .currentPc) fun _ => .pure _
  | draw => exact .bind Emission.draw fun _ => .pure _
  | vectorState => exact .bind Emission.vectorState fun _ => .pure _
  | strictSandboxing => exact .bind (.part .strictSandboxing) fun _ => .pure _
  | setStrictSandboxing strict => exact .bind (.part (.setStrictSandboxing _)) fun _ => .pure _
  | emitVadd vd vs2 vs1 masked | emitVmul vd vs2 vs1 masked | emitVsub vd vs2 vs1 masked
  | emitVdiv vd vs2 vs1 masked =>
      exact .bind (Emission.emitVectorArithmetic _ _ _ _ _) fun _ => .pure _
  | emitLoad rd rs1 imm => exact .bind (Emission.emitLoad _ _ _) fun _ => .pure _
  | emitStore rs2 rs1 imm => exact .bind (Emission.emitStore _ _ _) fun _ => .pure _
  | emitVectorLoadStrided vd rs1 rs2 =>
      exact .bind (Emission.emitVectorLoadStrided _ _ _) fun _ => .pure _
  | emitVectorLoadIndexed vd rs1 vs2 =>
      exact .bind (Emission.emitVectorLoadIndexed _ _ _) fun _ => .pure _

end EngineCall

end CoralNpu
