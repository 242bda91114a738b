/-
**The assembly buffer.**

`SNPrintF` returns the length of the whole text even when it stored only a part of it, so an emitter
that advances the length without a check may leave the buffer with a truncated line, or with a
length past its end.  Most emitters check; the newline of `EmitInstructionFormat`, its set-up line
and reprinted instruction, and the three fixed texts of the preamble do not.  This module shows that
the missing checks are all that can go wrong.

Main definitions:

* `CoralNpu.BufferIntact` — the length, the bytes written and the text are as they should be;
* `CoralNpu.UncheckedFit` — every append made without a check had room;
* `CoralNpu.Reachable` — the engines reached by calls.

Main results:

* `CoralNpu.text_printed` — a text with room is appended as it is;
* `CoralNpu.Emission.relates_bufferStep` — what one emission does to the buffer;
* `CoralNpu.bufferIntact_of_uncheckedFit` — **in every run whose unchecked appends fit the buffer
  stays intact**.
-/

import Mathlib.Logic.Relation
import CoralNpu.IsgParts

set_option relaxedAutoImplicit false
set_option autoImplicit false

namespace CoralNpu

open AsciiText PartialState

variable {G : Prng}

/-! ### Runs of the primitives -/

section Runs

variable {e e' : IsgEngine G}

theorem run_tick_eq_some {u : Unit} (h : (tick : EngineM G Unit).run e = some (u, e')) :
    ∃ watchdog, e.watchdog.tick = some watchdog ∧ e' = { e with watchdog := watchdog } := by
  simp only [tick, StateT.run_bind, StateT.run_get, Option.pure_def, Option.bind_eq_bind,
    Option.bind_some] at h
  cases hw : e.watchdog.tick with
  | none => rw [hw] at h; cases h
  | some watchdog =>
      rw [hw] at h
      cases h
      exact ⟨watchdog, rfl, rfl⟩

theorem run_checkRoom_eq_some {u : Unit} {n : ℕ}
    (h : (checkRoom n : EngineM G Unit).run e = some (u, e')) :
    e.assemblyLength + n < kAssemblyBufferSize ∧ e' = e := by
  simp only [checkRoom, check, StateT.run_bind, StateT.run_get, Option.pure_def,
    Option.bind_eq_bind, Option.bind_some] at h
  split at h
  · rename_i hroom
    cases h
    exact ⟨hroom, rfl⟩
  · cases h

/-- The engine after an item that fitted. -/
def IsgEngine.appended (e : IsgEngine G) (item : Text) : IsgEngine G :=
  { e.snprintf item with
    assemblyLength := e.assemblyLength + item.length
    trace := { (e.snprintf item).trace with
      events := e.trace.events ++ [.item item e.vectorState] } }

theorem run_appendChecked_eq_some {u : Unit} {item : Text}
    (h : (appendChecked item : EngineM G Unit).run e = some (u, e')) :
    e.assemblyLength + item.length < kAssemblyBufferSize ∧ e' = e.appended item := by
  obtain ⟨_, e₁, hprint, h⟩ := run_bind_eq_some.1 h
  cases hprint
  obtain ⟨_, e₂, hcheck, h⟩ := run_bind_eq_some.1 h
  obtain ⟨hroom, rfl⟩ := run_checkRoom_eq_some hcheck
  cases h
  exact ⟨hroom, rfl⟩

/-- The proofs' note of an append made without a check. -/
def IsgEngine.noted (e : IsgEngine G) (written : ℕ) : IsgEngine G :=
  { e with trace := { e.trace with
    uncheckedAppends := e.trace.uncheckedAppends ++ [(e.assemblyLength, written)] } }

theorem run_appendUnchecked_eq_some {u : Unit} {item : Text}
    (h : (appendUnchecked item : EngineM G Unit).run e = some (u, e')) :
    e' = (e.noted item.length).appended item := by
  cases h
  rfl

end Runs

/-! ### What is stored -/

theorem storedBytes_of_room {position : ℕ} {text : Text}
    (h : position + text.length < kAssemblyBufferSize) :
    storedBytes position text = text ++ ['\x00'] := by
  rw [storedBytes, if_neg (by omega), if_pos (by omega), List.take_of_length_le (by omega)]

/-- From inside the buffer nothing is stored outside. -/
theorem storedBytes_inside {position : ℕ} (h : position ≤ kAssemblyBufferSize) (text : Text) :
    position + (storedBytes position text).length ≤ kAssemblyBufferSize := by
  rw [storedBytes]
  split
  · simpa using h
  · rw [if_pos (by omega), List.length_append, List.length_take, List.length_singleton]
    omega

theorem writeAt_of_lt {buffer : ℕ → Char} {position i : ℕ} {stored : Text} (h : i < position) :
    writeAt buffer position stored i = buffer i := by
  rw [writeAt, if_neg (by omega)]

theorem writeAt_add {buffer : ℕ → Char} {position i : ℕ} {stored : Text} (h : i < stored.length) :
    writeAt buffer position stored (position + i) = stored.getD i '\x00' := by
  rw [writeAt, if_pos (by omega), Nat.add_sub_cancel_left]

/-- Printing does not change the text before the end. -/
@[simp] theorem text_snprintf (e : IsgEngine G) (text : Text) :
    (e.snprintf text).text = e.text := by
  refine List.map_congr_left fun i hi => ?_
  have hlt : i < e.assemblyLength := List.mem_range.1 hi
  simp only [IsgEngine.charAt, IsgEngine.snprintf, writeAt_of_lt hlt]

/-- **A text with room is appended as it is.** -/
theorem text_printed (e : IsgEngine G) {e' : IsgEngine G} {text : Text}
    (hroom : e.assemblyLength + text.length < kAssemblyBufferSize)
    (hlength : e'.assemblyLength = e.assemblyLength + text.length)
    (hbuffer : e'.fixedAssemblyBuffer = (e.snprintf text).fixedAssemblyBuffer) :
    e'.text = e.text ++ text := by
  have hold : (List.range e.assemblyLength).map e'.charAt = e.text := by
    rw [← text_snprintf e text]
    refine List.map_congr_left fun i _ => ?_
    simp only [IsgEngine.charAt, hbuffer]
  have hnew : (List.range text.length).map (fun i => e'.charAt (e.assemblyLength + i)) = text := by
    apply List.ext_getElem (by simp)
    intro i h _
    have hi : i < text.length := by simpa using h
    have hfit : e.assemblyLength + i < kAssemblyBufferSize := by omega
    have hstored : (e.snprintf text).fixedAssemblyBuffer (e.assemblyLength + i) =
        (text ++ ['\x00']).getD i '\x00' := by
      rw [← storedBytes_of_room hroom]
      exact writeAt_add (by rw [storedBytes_of_room hroom, List.length_append]; omega)
    rw [List.getElem_map, List.getElem_range, IsgEngine.charAt, if_pos hfit, hbuffer, hstored,
      List.getD_eq_getElem?_getD, List.getElem?_append_left hi, List.getElem?_eq_getElem hi,
      Option.getD_some]
  rw [IsgEngine.text, hlength, List.range_add, List.map_append, hold, List.map_map]
  exact congrArg _ hnew

/-! ### The buffer -/

/-- The items among the events. -/
def itemsOf (events : List EngineEvent) : List Text :=
  events.filterMap fun event =>
    match event with
    | .item text _ => some text
    | .trackerReset => none

@[simp] theorem itemsOf_append (events events' : List EngineEvent) :
    itemsOf (events ++ events') = itemsOf events ++ itemsOf events' :=
  List.filterMap_append

@[simp] theorem itemsOf_item (text : Text) (tracker : VectorStateTracker) :
    itemsOf [.item text tracker] = [text] := rfl

@[simp] theorem itemsOf_trackerReset : itemsOf [.trackerReset] = [] := rfl

/-- **The buffer is intact**: the length is at most the size of the buffer, every byte written lies
inside it, and the text is exactly the emitted items, each ending with a newline. -/
structure BufferIntact (e : IsgEngine G) : Prop where
  length_le : e.assemblyLength ≤ kAssemblyBufferSize
  inside : e.trace.writtenEnd ≤ kAssemblyBufferSize
  text_eq : e.text = (itemsOf e.trace.events).flatten
  terminated : ∀ item ∈ itemsOf e.trace.events, item.getLast? = some '\n'

/-- Every append made without a check had room for its text and the final NUL. -/
def UncheckedFit (e : IsgEngine G) : Prop :=
  ∀ append ∈ e.trace.uncheckedAppends, append.1 + append.2 < kAssemblyBufferSize

/-- The buffer is intact, with the instruction printed after its items but no newline yet. -/
structure LinePlaced (inst : Text) (e : IsgEngine G) : Prop where
  length_lt : e.assemblyLength < kAssemblyBufferSize
  inside : e.trace.writtenEnd ≤ kAssemblyBufferSize
  text_eq : e.text = (itemsOf e.trace.events).flatten ++ inst
  terminated : ∀ item ∈ itemsOf e.trace.events, item.getLast? = some '\n'

/-- The buffer is intact, and the next NUL has room. -/
def HasRoom (e : IsgEngine G) : Prop :=
  e.assemblyLength < kAssemblyBufferSize ∧ BufferIntact e

/-- The appends made without a check are remembered. -/
def UncheckedGrow (e e' : IsgEngine G) : Prop :=
  ∃ appends, e'.trace.uncheckedAppends = e.trace.uncheckedAppends ++ appends

theorem UncheckedGrow.fit {e e' : IsgEngine G} (h : UncheckedGrow e e') (hfit : UncheckedFit e') :
    UncheckedFit e := by
  obtain ⟨appends, happends⟩ := h
  intro append hmem
  exact hfit append (happends ▸ List.mem_append_left _ hmem)

theorem UncheckedGrow.of_eq {e e' : IsgEngine G}
    (h : e'.trace.uncheckedAppends = e.trace.uncheckedAppends) : UncheckedGrow e e' :=
  ⟨[], by simp [h]⟩

/-- What a piece of an emission does: it remembers its unchecked appends, and if they all fitted it
keeps the buffer intact. -/
def bufferStep (G : Prng) : StepRelation (IsgEngine G) where
  rel e e' := UncheckedGrow e e' ∧ (UncheckedFit e' → HasRoom e → HasRoom e')
  refl _ := ⟨.of_eq rfl, fun _ h => h⟩
  trans := by
    rintro e e' e'' ⟨⟨appends, happends⟩, hkeep⟩ ⟨⟨appends', happends'⟩, hkeep'⟩
    refine ⟨⟨appends ++ appends', by rw [happends', happends, List.append_assoc]⟩, ?_⟩
    exact fun hfit h => hkeep' hfit (hkeep (UncheckedGrow.fit ⟨appends', happends'⟩ hfit) h)

/-- A step that leaves buffer, length and trace alone. -/
theorem bufferStep_of_eq {e e' : IsgEngine G}
    (hbuffer : e'.fixedAssemblyBuffer = e.fixedAssemblyBuffer)
    (hlength : e'.assemblyLength = e.assemblyLength)
    (hunchecked : e'.trace.uncheckedAppends = e.trace.uncheckedAppends)
    (hend : e'.trace.writtenEnd = e.trace.writtenEnd)
    (hitems : itemsOf e'.trace.events = itemsOf e.trace.events) : (bufferStep G).rel e e' := by
  refine ⟨.of_eq hunchecked, fun _ h => ?_⟩
  have htext : e'.text = e.text := by
    simp only [IsgEngine.text, hlength]
    exact List.map_congr_left fun i _ => by simp only [IsgEngine.charAt, hbuffer]
  exact ⟨hlength ▸ h.1, hlength ▸ h.2.length_le, hend ▸ h.2.inside,
    by rw [htext, hitems, h.2.text_eq], by rw [hitems]; exact h.2.terminated⟩

/-- Printing alone keeps the buffer intact. -/
theorem HasRoom.snprintf {e : IsgEngine G} (h : HasRoom e) (text : Text) :
    HasRoom (e.snprintf text) := by
  refine ⟨h.1, h.2.length_le, ?_, by rw [text_snprintf]; exact h.2.text_eq, h.2.terminated⟩
  exact Nat.max_le.2 ⟨h.2.inside, storedBytes_inside h.2.length_le text⟩

/-- An item with room for it. -/
theorem HasRoom.appended {e : IsgEngine G} (h : HasRoom e) {item : Text}
    (hroom : e.assemblyLength + item.length < kAssemblyBufferSize)
    (hitem : item.getLast? = some '\n') : HasRoom (e.appended item) := by
  refine ⟨hroom, Nat.le_of_lt hroom, (h.snprintf item).2.inside, ?_, ?_⟩
  · refine Eq.trans (text_printed e hroom rfl rfl) ?_
    simp [h.2.text_eq, IsgEngine.appended]
  · simp only [IsgEngine.appended, itemsOf_append, itemsOf_item, List.mem_append,
      List.mem_singleton]
    rintro item' (hmem | rfl)
    · exact h.2.terminated item' hmem
    · exact hitem

theorem getLast?_append_newline (line : Text) : (line ++ "\n".toList).getLast? = some '\n' := by
  rw [show "\n".toList = ['\n'] from rfl, List.getLast?_append]
  rfl

/-! ### The parts keep the buffer intact -/

theorem relates_appendChecked (line : Text) :
    Relates (bufferStep G) (appendChecked (line ++ "\n".toList)) := by
  intro e u e' hrun
  obtain ⟨hroom, rfl⟩ := run_appendChecked_eq_some hrun
  exact ⟨.of_eq rfl, fun _ h => h.appended hroom (getLast?_append_newline line)⟩

theorem relates_appendUnchecked (line : Text) :
    Relates (bufferStep G) (appendUnchecked (line ++ "\n".toList)) := by
  intro e u e' hrun
  rw [run_appendUnchecked_eq_some hrun]
  refine ⟨⟨[(e.assemblyLength, (line ++ "\n".toList).length)], rfl⟩, fun hfit h => ?_⟩
  have hroom := hfit (e.assemblyLength, (line ++ "\n".toList).length)
    (List.mem_append_right _ (List.mem_singleton_self _))
  have hnoted : HasRoom (e.noted (line ++ "\n".toList).length) :=
    ⟨h.1, h.2.length_le, h.2.inside, h.2.text_eq, h.2.terminated⟩
  exact hnoted.appended hroom (getLast?_append_newline line)

theorem relates_draw : Relates (bufferStep G) draw := by
  intro e u e' hrun
  cases hrun
  exact bufferStep_of_eq rfl rfl rfl rfl rfl

theorem relates_tick : Relates (bufferStep G) tick := by
  intro e u e' hrun
  obtain ⟨watchdog, -, rfl⟩ := run_tick_eq_some hrun
  exact bufferStep_of_eq rfl rfl rfl rfl rfl

/-- A program that changes neither buffer nor length nor trace. -/
theorem relates_modify {f : IsgEngine G → IsgEngine G}
    (h : ∀ e, (f e).fixedAssemblyBuffer = e.fixedAssemblyBuffer ∧
      (f e).assemblyLength = e.assemblyLength ∧ (f e).trace = e.trace) :
    Relates (bufferStep G) (modify f : EngineM G Unit) := by
  intro e u e' hrun
  cases hrun
  obtain ⟨hbuffer, hlength, htrace⟩ := h e
  exact bufferStep_of_eq hbuffer hlength (by rw [htrace]) (by rw [htrace]) (by rw [htrace])

theorem relates_emitVsetvli (rd rs1 : Text) (sew : VectorSew) (lmul : VectorLmul) (ta ma : Bool) :
    Relates (bufferStep G) (emitVsetvli rd rs1 sew lmul ta ma) :=
  .bind (relates_modify fun _ => ⟨rfl, rfl, rfl⟩) fun _ => relates_appendChecked _

theorem relates_emitVsetivli (rd : Text) (uimm : BitVec 32) (sew : VectorSew) (lmul : VectorLmul)
    (ta ma : Bool) : Relates (bufferStep G) (emitVsetivli rd uimm sew lmul ta ma) :=
  .bind (relates_modify fun _ => ⟨rfl, rfl, rfl⟩) fun _ => relates_appendChecked _

/-- The instruction stands after the items once its place is decided. -/
theorem linePlaced_placeInstruction (e : IsgEngine G) {e' : IsgEngine G} {u : Unit}
    {setUp : EngineM G Unit} (hsetUp : Relates (bufferStep G) setUp) {inst : Text}
    (hroom : e.assemblyLength + inst.length < kAssemblyBufferSize)
    (hrun : (placeInstruction setUp inst).run (e.snprintf inst) = some (u, e')) :
    UncheckedGrow e e' ∧ (UncheckedFit e' → HasRoom e → LinePlaced inst e') := by
  -- the instruction printed before is kept
  have hkept : ∀ tracker, let e' := { e.snprintf inst with
      vectorState := tracker, assemblyLength := e.assemblyLength + inst.length }
      HasRoom e → LinePlaced inst e' := by
    intro tracker e' h
    refine ⟨hroom, (h.snprintf inst).2.inside, ?_, h.2.terminated⟩
    exact Eq.trans (text_printed e hroom rfl rfl) (congrArg (· ++ inst) h.2.text_eq)
  rw [placeInstruction] at hrun
  split at hrun
  · obtain ⟨_, e₁, hvset, hrun⟩ := run_bind_eq_some.1 hrun
    split at hvset
    · cases hvset
      cases hrun
      exact ⟨.of_eq rfl, fun _ h => hkept _ h⟩
    · cases hvset
  split at hrun
  · obtain ⟨_, e₁, hstate, hrun⟩ := run_bind_eq_some.1 hrun
    cases hstate
    split at hrun
    · -- the set-up lines come first, and the instruction is printed once more
      obtain ⟨_, e₂, hlines, hrun⟩ := run_bind_eq_some.1 hrun
      obtain ⟨hgrow, hkeep⟩ := hsetUp _ _ _ hlines
      cases hrun
      have hgrow' : UncheckedGrow e₂ (e₂.noted inst.length) := ⟨_, rfl⟩
      refine ⟨?_, fun hfit h => ?_⟩
      · obtain ⟨appends, happends⟩ := hgrow
        exact ⟨appends ++ [(e₂.assemblyLength, inst.length)], by
          rw [← List.append_assoc]
          exact congrArg (· ++ _) happends⟩
      · have hnoted : UncheckedFit (e₂.noted inst.length) := hfit
        have h₂ := hkeep (hgrow'.fit hnoted) (h.snprintf inst)
        have hroom₂ := hnoted (e₂.assemblyLength, inst.length)
          (List.mem_append_right _ (List.mem_singleton_self _))
        refine ⟨hroom₂, (h₂.snprintf inst).2.inside, ?_, h₂.2.terminated⟩
        exact Eq.trans (text_printed e₂ hroom₂ rfl rfl) (congrArg (· ++ inst) h₂.2.text_eq)
    · cases hrun
      exact ⟨.of_eq rfl, fun _ h => hkept _ h⟩
  · cases hrun
    exact ⟨.of_eq rfl, fun _ h => hkept _ h⟩

/-- The newline completes the line. -/
theorem hasRoom_endLine {inst : Text} {e e' : IsgEngine G} {u : Unit}
    (hrun : (endLine inst).run e = some (u, e')) :
    UncheckedGrow e e' ∧ (UncheckedFit e' → LinePlaced inst e → HasRoom e') := by
  cases hrun
  refine ⟨⟨[(e.assemblyLength, 1)], rfl⟩, fun hfit h => ?_⟩
  have hroom : e.assemblyLength + "\n".toList.length < kAssemblyBufferSize :=
    hfit (e.assemblyLength, 1) (List.mem_append_right _ (List.mem_singleton_self _))
  refine ⟨hroom, Nat.le_of_lt hroom,
    Nat.max_le.2 ⟨h.inside, storedBytes_inside (Nat.le_of_lt h.length_lt) _⟩, ?_, ?_⟩
  · refine Eq.trans (text_printed e hroom rfl rfl) ?_
    simp [h.text_eq, IsgEngine.snprintf]
  · simp only [itemsOf_append, itemsOf_item, List.mem_append, List.mem_singleton]
    rintro item (hmem | rfl)
    · exact h.terminated item hmem
    · exact getLast?_append_newline inst

theorem relates_emitInstructionFormatBody {setUp : EngineM G Unit}
    (hsetUp : Relates (bufferStep G) setUp) (inst : Text) :
    Relates (bufferStep G) (emitInstructionFormatBody setUp inst) := by
  intro e u e' hrun
  obtain ⟨_, e₁, htick, hrun⟩ := run_bind_eq_some.1 hrun
  refine (bufferStep G).trans (relates_tick _ _ _ htick) ?_
  obtain ⟨_, e₂, hprint, hrun⟩ := run_bind_eq_some.1 hrun
  cases hprint
  obtain ⟨_, e₃, hcheck, hrun⟩ := run_bind_eq_some.1 hrun
  obtain ⟨hroom, rfl⟩ := run_checkRoom_eq_some hcheck
  obtain ⟨_, e₄, hplace, hrun⟩ := run_bind_eq_some.1 hrun
  obtain ⟨⟨appends, happends⟩, hplaced⟩ := linePlaced_placeInstruction e₁ hsetUp hroom hplace
  obtain ⟨⟨appends', happends'⟩, hended⟩ := hasRoom_endLine hrun
  refine ⟨⟨appends ++ appends', by rw [happends', happends, List.append_assoc]⟩, ?_⟩
  exact fun hfit h => hended hfit (hplaced (UncheckedGrow.fit ⟨appends', happends'⟩ hfit) h)

theorem relates_emitLi (reg : Text) (val : BitVec 32) :
    Relates (bufferStep G) (emitLi reg val) := by
  have hemit : ∀ inst, Relates (bufferStep G) (emitInstructionFormatBody failure inst) :=
    relates_emitInstructionFormatBody .failure
  refine .bind (hemit _) fun _ => ?_
  split
  · exact hemit _
  · exact .pure _

theorem relates_vectorSetUp {append : Text → EngineM G Unit}
    (happend : ∀ line, Relates (bufferStep G) (append (line ++ "\n".toList))) :
    Relates (bufferStep G) (vectorSetUp append) := by
  refine .bind relates_draw fun _ => .bind (happend _) fun _ => .bind ?_ fun _ =>
    .bind (relates_emitVsetvli _ _ _ _ _ _) fun _ =>
    .bind (relates_modify fun _ => ⟨rfl, rfl, rfl⟩) fun _ => ?_
  · intro e u e' hrun
    cases hrun
    exact (bufferStep G).refl _
  · exact .bind (.bind relates_draw fun _ => relates_emitLi _ _) fun _ =>
      .bind (.bind relates_draw fun _ => relates_emitLi _ _) fun _ => .pure _

theorem relates_emitInstruction (inst : Text) : Relates (bufferStep G) (emitInstruction inst) := by
  refine .bind relates_tick fun _ => ?_
  dsimp only
  split
  · split
    · exact .bind (relates_modify fun _ => ⟨rfl, rfl, rfl⟩) fun _ => relates_appendChecked _
    · exact .pure _
  · refine .bind ?_ fun _ => .bind ?_ fun _ => relates_appendChecked _
    · intro e u e' hrun
      cases hrun
      exact (bufferStep G).refl _
    · split
      · exact relates_vectorSetUp relates_appendChecked
      · exact .pure _

/-- **Every part keeps the buffer intact**, if its unchecked appends fit. -/
theorem EnginePart.relates_bufferStep {α : Type} {m : EngineM G α} (h : EnginePart α m) :
    Relates (bufferStep G) m := by
  cases h with
  | draw => exact relates_draw
  | currentPc | vectorState | strictSandboxing =>
      intro e u e' hrun
      cases hrun
      exact (bufferStep G).refl _
  | setStrictSandboxing strict | setVl vl | addHazardTag tag =>
      exact relates_modify fun _ => ⟨rfl, rfl, rfl⟩
  | emitInstruction inst => exact relates_emitInstruction inst
  | emitInstructionFormat inst =>
      exact relates_emitInstructionFormatBody (relates_vectorSetUp relates_appendUnchecked) inst
  | emitVsetvli rd rs1 sew lmul ta ma => exact relates_emitVsetvli _ _ _ _ _ _
  | emitVsetivli rd uimm sew lmul ta ma => exact relates_emitVsetivli _ _ _ _ _ _
  | appendChecked line => exact relates_appendChecked line
  | appendUnchecked line => exact relates_appendUnchecked line
  | resetTracker =>
      intro e u e' hrun
      cases hrun
      exact bufferStep_of_eq rfl rfl rfl rfl (by simp)

/-- What one emission does to the buffer. -/
theorem Emission.relates_bufferStep {α : Type} {m : EngineM G α} (h : Emission m) :
    Relates (bufferStep G) m :=
  h.relates fun _ _ hpart => hpart.relates_bufferStep

/-! ### Runs of the engine -/

/-- One call takes the engine to the next. -/
def CallStep (e e' : IsgEngine G) : Prop :=
  ∃ (c : EngineCall) (response : Response), c.run.run e = some (response, e')

/-- The engine is reached by calls from a new one. -/
def Reachable (e : IsgEngine G) : Prop :=
  ∃ seed uninitialised, Relation.ReflTransGen CallStep (.create G seed uninitialised) e

theorem relates_call (c : EngineCall) : Relates (bufferStep G) c.run := by
  cases c with
  | reset =>
      intro e u e' hrun
      cases hrun
      refine ⟨.of_eq rfl, fun _ h => ⟨Nat.zero_lt_succ _, Nat.zero_le _, h.2.inside, rfl, ?_⟩⟩
      intro item hmem
      cases hmem
  | setSeed seed | setExpectedTrap mcause mepc mtval =>
      exact .bind (relates_modify fun _ => ⟨rfl, rfl, rfl⟩) fun _ => .pure _
  | _ => exact Emission.relates_bufferStep (EngineCall.composed (by trivial))

theorem hasRoom_create (seed : BitVec 64) (uninitialised : ℕ → Char) :
    HasRoom (IsgEngine.create G seed uninitialised) := by
  refine ⟨Nat.zero_lt_succ _, Nat.zero_le _, Nat.zero_le _, rfl, ?_⟩
  intro item hmem
  cases hmem

/-- The calls of a run keep the buffer intact as long as their unchecked appends fit. -/
theorem bufferStep_of_reflTransGen {e e' : IsgEngine G} (h : Relation.ReflTransGen CallStep e e') :
    (bufferStep G).rel e e' := by
  induction h with
  | refl => exact (bufferStep G).refl e
  | tail _ hstep ih =>
      obtain ⟨c, response, hrun⟩ := hstep
      exact (bufferStep G).trans ih (relates_call c _ _ _ hrun)

/-- **In every run whose unchecked appends fit, the buffer stays intact.** -/
theorem bufferIntact_of_uncheckedFit {e : IsgEngine G} (h : Reachable e) (hfit : UncheckedFit e) :
    BufferIntact e := by
  obtain ⟨seed, uninitialised, hrun⟩ := h
  exact ((bufferStep_of_reflTransGen hrun).2 hfit (hasRoom_create seed uninitialised)).2

/-! ### The newline that is cut off -/

/-- The engine after a formatted instruction that is no vector instruction. -/
def IsgEngine.lineEnded (e : IsgEngine G) (inst : Text) : IsgEngine G :=
  let placed := { e.snprintf inst with assemblyLength := e.assemblyLength + inst.length }
  let printed := (placed.noted 1).snprintf "\n".toList
  { printed with
    assemblyLength := placed.assemblyLength + 1
    trace := { printed.trace with
      events := e.trace.events ++ [.item (inst ++ "\n".toList) e.vectorState] } }

theorem run_emitInstructionFormatBody {e : IsgEngine G} {watchdog : IsgWatchdog} {inst : Text}
    {setUp : EngineM G Unit} (hvector : isVector (strip inst) = false)
    (htick : e.watchdog.tick = some watchdog)
    (hroom : e.assemblyLength + inst.length < kAssemblyBufferSize) :
    (emitInstructionFormatBody setUp inst).run e =
      some ((), { e with watchdog := watchdog }.lineEnded inst) := by
  have htick' : (tick : EngineM G Unit).run e = some ((), { e with watchdog := watchdog }) := by
    simp only [tick, StateT.run_bind, StateT.run_get, Option.pure_def, Option.bind_eq_bind,
      Option.bind_some, htick]
    rfl
  have hcheck : ∀ e' : IsgEngine G, e'.assemblyLength = e.assemblyLength →
      (checkRoom inst.length : EngineM G Unit).run e' = some ((), e') := by
    intro e' he'
    simp only [checkRoom, check, StateT.run_bind, StateT.run_get, Option.pure_def,
      Option.bind_eq_bind, Option.bind_some, he', if_pos hroom]
    rfl
  refine run_bind_eq_some.2 ⟨_, _, htick', run_bind_eq_some.2 ⟨_, _, rfl, ?_⟩⟩
  refine run_bind_eq_some.2 ⟨_, _, hcheck _ rfl, ?_⟩
  rw [placeInstruction_of_not_isVector hvector]
  rfl

/-- When the newline is the character that no longer fits, the line ends with a NUL. -/
theorem not_bufferIntact_lineEnded {e : IsgEngine G} {inst : Text}
    (hfull : e.assemblyLength + inst.length + 1 = kAssemblyBufferSize) :
    ¬ BufferIntact (e.lineEnded inst) := by
  intro h
  have hlast : (e.lineEnded inst).text.getLast? = some '\x00' := by
    have hlength : (e.lineEnded inst).assemblyLength = e.assemblyLength + inst.length + 1 := rfl
    have hend : (e.lineEnded inst).charAt (e.assemblyLength + inst.length) = '\x00' := by
      have hstored : storedBytes (e.assemblyLength + inst.length) "\n".toList = ['\x00'] := by
        rw [storedBytes, if_neg (by omega), if_pos (by omega),
          show kAssemblyBufferSize - (e.assemblyLength + inst.length) - 1 = 0 by omega]
        rfl
      rw [IsgEngine.charAt, if_pos (by omega)]
      refine Eq.trans (writeAt_add (i := 0) ?_) ?_
      · exact lt_of_lt_of_eq Nat.zero_lt_one (congrArg List.length hstored).symm
      · exact congrArg (List.getD · 0 '\x00') hstored
    rw [IsgEngine.text, hlength, List.range_succ, List.map_append, List.map_singleton, hend,
      List.getLast?_append]
    rfl
  rw [h.text_eq] at hlast
  have hitem : itemsOf (e.lineEnded inst).trace.events =
      itemsOf e.trace.events ++ [inst ++ "\n".toList] := by
    simp [IsgEngine.lineEnded]
  rw [hitem, List.flatten_append, List.flatten_singleton, ← List.append_assoc,
    getLast?_append_newline] at hlast
  exact absurd hlast (by decide)

/-- A formatted instruction one character shorter than the buffer is accepted, and its newline is
cut off. -/
theorem not_bufferIntact_of_reachable :
    ¬ ∀ e : IsgEngine mt19937_64, Reachable e → BufferIntact e := by
  intro h
  have hrun : (EngineCall.emitInstructionFormat (List.replicate 131071 'a')).run.run
      (.create mt19937_64 0 fun _ => '\x00') = some (.nothing, _) :=
    run_bind_eq_some.2 ⟨_, _, run_emitInstructionFormatBody
      (isVector_strip (by decide) (by decide)) rfl
      (by rw [List.length_replicate]; decide), rfl⟩
  refine not_bufferIntact_lineEnded ?_ (h _ ⟨0, _, .single ⟨_, _, hrun⟩⟩)
  rw [List.length_replicate]
  decide

/-- An instruction emitted into a new buffer. -/
theorem bufferIntact_nop :
    ∃ e : IsgEngine mt19937_64, Reachable e ∧ e.assemblyLength = 15 ∧ BufferIntact e := by
  have hrun : (EngineCall.emitInstructionFormat "addi x0, x0, 0".toList).run.run
      (.create mt19937_64 0 fun _ => '\x00') = some (.nothing, _) :=
    run_bind_eq_some.2 ⟨_, _, run_emitInstructionFormatBody
      (isVector_strip (by decide) (by decide)) rfl (by decide), rfl⟩
  have hreach : Reachable _ := ⟨0, _, .single ⟨_, _, hrun⟩⟩
  exact ⟨_, hreach, rfl, bufferIntact_of_uncheckedFit hreach (by
    intro append hmem
    rw [List.mem_singleton.1 hmem]
    decide)⟩

end CoralNpu
