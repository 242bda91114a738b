/-
**Reset and a new engine.**

After `Reset` an engine should behave like a new one with the same seed.  Two runs are compared: one
on the reset engine and one on a new engine.  They go through related states, equal in everything a
program can read; the bytes behind the end of the text, which a reset leaves in the buffer and a new
engine has uninitialised, are never read.  One field is left over: `Reset` does not forget the
expected trap, and `Build` puts it into the sequence.

Main definitions:

* `CoralNpu.RunsAlike` — engines no program can tell apart before `Build`;
* `CoralNpu.IsgEngine.anew` — a new engine with the seed and the sandboxing flag of an engine;
* `CoralNpu.Client.AnnouncesTrap` — the client sets the expected trap in its run.

Main results:

* `CoralNpu.Client.simulates` — every client runs alike on engines that are alike;
* `CoralNpu.result_reset_iff` — **exactly when** the reset engine gives the result of a new one.
-/

import CoralNpu.IsgBuffer

set_option relaxedAutoImplicit false
set_option autoImplicit false

namespace CoralNpu

open AsciiText PartialState

variable {G : Prng}

/-! ### Engines that run alike -/

/-- The engines agree in everything but the expected trap and the bytes behind the text, of which
the first `printed` agree as well. -/
structure RunsAlike (printed : ℕ) (e t : IsgEngine G) : Prop where
  seed : e.seed = t.seed
  prng : e.prng = t.prng
  assemblyLength : e.assemblyLength = t.assemblyLength
  charAt : ∀ i < e.assemblyLength + printed, e.charAt i = t.charAt i
  vectorState : e.vectorState = t.vectorState
  strictSandboxing : e.strictSandboxing = t.strictSandboxing
  watchdog : e.watchdog = t.watchdog
  assertionCount : e.assertionCount = t.assertionCount
  hazardTags : e.hazardTags = t.hazardTags

namespace RunsAlike

variable {printed : ℕ} {e t : IsgEngine G}

theorem weaken (h : RunsAlike printed e t) : RunsAlike 0 e t :=
  { h with charAt := fun i hi => h.charAt i (by omega) }

theorem text_eq (h : RunsAlike printed e t) : e.text = t.text := by
  rw [IsgEngine.text, IsgEngine.text, ← h.assemblyLength]
  refine List.map_congr_left fun i hi => h.charAt i ?_
  have hlt : i < e.assemblyLength := List.mem_range.1 hi
  omega

/-- A printed byte depends on the text and its position only. -/
theorem charAt_snprintf_of_le (e : IsgEngine G) (text : Text) {i : ℕ} (hlo : e.assemblyLength ≤ i)
    (hhi : i < e.assemblyLength + text.length) :
    (e.snprintf text).charAt i = if i < kAssemblyBufferSize then
      (storedBytes e.assemblyLength text).getD (i - e.assemblyLength) '\x00' else '\x00' := by
  rw [IsgEngine.charAt]
  split
  · rename_i hi
    obtain ⟨k, rfl⟩ : ∃ k, i = e.assemblyLength + k := ⟨i - e.assemblyLength, by omega⟩
    have hstored : k < (storedBytes e.assemblyLength text).length := by
      rw [storedBytes, if_neg (by omega), if_pos (by omega), List.length_append,
        List.length_take, List.length_singleton]
      omega
    rw [Nat.add_sub_cancel_left]
    exact writeAt_add hstored
  · rfl

/-- Printing the same text makes the engines agree on it. -/
theorem snprintf (h : RunsAlike printed e t) (text : Text) :
    RunsAlike text.length (e.snprintf text) (t.snprintf text) := by
  refine { h with charAt := fun i hi => ?_ }
  by_cases hlo : e.assemblyLength ≤ i
  · rw [charAt_snprintf_of_le e text hlo hi,
      charAt_snprintf_of_le t text (h.assemblyLength ▸ hlo) (h.assemblyLength ▸ hi),
      h.assemblyLength]
  · have hlt : i < e.assemblyLength := by omega
    have hbefore : ∀ e' : IsgEngine G, i < e'.assemblyLength →
        (e'.snprintf text).charAt i = e'.charAt i := by
      intro e' he'
      simp only [IsgEngine.charAt, IsgEngine.snprintf, writeAt_of_lt he']
    rw [hbefore e hlt, hbefore t (h.assemblyLength ▸ hlt)]
    exact h.charAt i (by omega)

/-- Advancing over printed text. -/
theorem advance {written : ℕ} (h : RunsAlike written e t) :
    RunsAlike 0 { e with assemblyLength := e.assemblyLength + written }
      { t with assemblyLength := t.assemblyLength + written } :=
  { h with
    assemblyLength := congrArg (· + written) h.assemblyLength
    charAt := h.charAt }

end RunsAlike

/-! ### The parts run alike -/

section Parts

variable {printed : ℕ}

theorem simulates_print (text : Text) :
    Simulates (RunsAlike printed) (RunsAlike text.length) (print text : EngineM G Unit)
      (print text) :=
  .ofModify fun _ _ h => h.snprintf text

theorem simulates_advance (written : ℕ) :
    Simulates (RunsAlike written) (RunsAlike 0) (advance written : EngineM G Unit)
      (advance written) :=
  .ofModify fun _ _ h => h.advance

theorem simulates_noteItem (item : Text) :
    Simulates (RunsAlike printed) (RunsAlike printed) (noteItem item : EngineM G Unit)
      (noteItem item) :=
  .ofModify fun _ _ h => { h with }

theorem simulates_noteUnchecked (written : ℕ) :
    Simulates (RunsAlike printed) (RunsAlike printed) (noteUnchecked written : EngineM G Unit)
      (noteUnchecked written) :=
  .ofModify fun _ _ h => { h with }

theorem simulates_checkRoom (written : ℕ) :
    Simulates (RunsAlike printed) (RunsAlike printed) (checkRoom written : EngineM G Unit)
      (checkRoom written) := by
  intro e t h
  simp only [checkRoom, check, StateT.run_bind, StateT.run_get, Option.pure_def,
    Option.bind_eq_bind, Option.bind_some, h.assemblyLength]
  split
  · exact .some h
  · exact .none

theorem simulates_tick :
    Simulates (RunsAlike printed) (RunsAlike printed) (tick : EngineM G Unit) tick := by
  intro e t h
  simp only [tick, StateT.run_bind, StateT.run_get, Option.pure_def, Option.bind_eq_bind,
    Option.bind_some, h.watchdog]
  cases t.watchdog.tick with
  | none => exact .none
  | some watchdog => exact .some { h with watchdog := rfl }

theorem simulates_draw :
    Simulates (RunsAlike printed) (RunsAlike printed) (draw : EngineM G _) draw := by
  intro e t h
  have hvalue : (G.next e.prng).1 = (G.next t.prng).1 := by rw [h.prng]
  have hstate : RunsAlike printed { e with prng := (G.next e.prng).2 }
      { t with prng := (G.next t.prng).2 } :=
    { h with prng := by rw [h.prng] }
  have hrun : ∀ e' : IsgEngine G, (draw : EngineM G _).run e' =
      some ((G.next e'.prng).1, { e' with prng := (G.next e'.prng).2 }) := fun _ => rfl
  rw [hrun, hrun, hvalue]
  exact .some hstate

theorem simulates_vectorState :
    Simulates (RunsAlike printed) (RunsAlike printed) (vectorState : EngineM G _)
      CoralNpu.vectorState := by
  intro e t h
  have hrun : ∀ e' : IsgEngine G, (vectorState : EngineM G _).run e' =
      some (e'.vectorState, e') := fun _ => rfl
  rw [hrun, hrun, h.vectorState]
  exact .some h

theorem simulates_strictSandboxing :
    Simulates (RunsAlike printed) (RunsAlike printed) (strictSandboxing : EngineM G _)
      CoralNpu.strictSandboxing := by
  intro e t h
  have hrun : ∀ e' : IsgEngine G, (strictSandboxing : EngineM G _).run e' =
      some (e'.strictSandboxing, e') := fun _ => rfl
  rw [hrun, hrun, h.strictSandboxing]
  exact .some h

theorem simulates_currentPc :
    Simulates (RunsAlike printed) (RunsAlike printed) (currentPc : EngineM G _) currentPc := by
  intro e t h
  have hrun : ∀ e' : IsgEngine G, (currentPc : EngineM G _).run e' =
      some (pcAfter e'.text, e') := fun _ => rfl
  rw [hrun, hrun, h.text_eq]
  exact .some h

theorem simulates_setVlUnknown :
    Simulates (RunsAlike printed) (RunsAlike printed) (setVlUnknown : EngineM G Unit)
      setVlUnknown :=
  .ofModify fun _ _ h => { h with vectorState := by simp only [h.vectorState] }

theorem simulates_setVl (vl : BitVec 32) :
    Simulates (RunsAlike printed) (RunsAlike printed) (setVl vl : EngineM G Unit) (setVl vl) :=
  .ofModify fun _ _ h => { h with vectorState := by simp only [h.vectorState] }

theorem simulates_appendChecked (item : Text) :
    Simulates (RunsAlike 0) (RunsAlike 0) (appendChecked item : EngineM G Unit)
      (appendChecked item) :=
  .bind (simulates_print item) fun _ => .bind (simulates_checkRoom _) fun _ =>
    .bind (simulates_advance _) fun _ => simulates_noteItem _

theorem simulates_appendUnchecked (item : Text) :
    Simulates (RunsAlike 0) (RunsAlike 0) (appendUnchecked item : EngineM G Unit)
      (appendUnchecked item) :=
  .bind (simulates_noteUnchecked _) fun _ => .bind (simulates_print item) fun _ =>
    .bind (simulates_advance _) fun _ => simulates_noteItem _

theorem simulates_emitVsetvli (rd rs1 : Text) (sew : VectorSew) (lmul : VectorLmul)
    (ta ma : Bool) :
    Simulates (RunsAlike 0) (RunsAlike 0) (emitVsetvli rd rs1 sew lmul ta ma : EngineM G Unit)
      (emitVsetvli rd rs1 sew lmul ta ma) :=
  .bind (.ofModify fun _ _ h => { h with vectorState := rfl }) fun _ => simulates_appendChecked _

theorem simulates_emitVsetivli (rd : Text) (uimm : BitVec 32) (sew : VectorSew)
    (lmul : VectorLmul) (ta ma : Bool) :
    Simulates (RunsAlike 0) (RunsAlike 0) (emitVsetivli rd uimm sew lmul ta ma : EngineM G Unit)
      (emitVsetivli rd uimm sew lmul ta ma) :=
  .bind (.ofModify fun _ _ h => { h with vectorState := rfl }) fun _ => simulates_appendChecked _

theorem simulates_placeInstruction {setUp : EngineM G Unit}
    (hsetUp : Simulates (RunsAlike 0) (RunsAlike 0) setUp setUp) (inst : Text) :
    Simulates (RunsAlike inst.length) (RunsAlike 0) (placeInstruction setUp inst)
      (placeInstruction setUp inst) := by
  rw [placeInstruction]
  split
  · refine .bind ?_ fun _ => simulates_advance _
    split
    · exact simulates_setVlUnknown
    · exact .failure
  split
  · refine .bind simulates_vectorState fun tracker => ?_
    split
    · -- the instruction is printed once more, behind the set-up lines
      refine .bind (hsetUp.weaken fun _ _ h => h.weaken) fun _ => ?_
      exact .bind (simulates_noteUnchecked _) fun _ => .bind (simulates_print inst) fun _ =>
        simulates_advance _
    · exact simulates_advance _
  · exact simulates_advance _

theorem simulates_emitInstructionFormatBody {setUp : EngineM G Unit}
    (hsetUp : Simulates (RunsAlike 0) (RunsAlike 0) setUp setUp) (inst : Text) :
    Simulates (RunsAlike 0) (RunsAlike 0) (emitInstructionFormatBody setUp inst)
      (emitInstructionFormatBody setUp inst) :=
  .bind simulates_tick fun _ => .bind (simulates_print inst) fun _ =>
    .bind (simulates_checkRoom _) fun _ => .bind (simulates_placeInstruction hsetUp inst) fun _ =>
    .bind (simulates_noteUnchecked _) fun _ => .bind (simulates_print "\n".toList) fun _ =>
    .bind (simulates_advance 1) fun _ => simulates_noteItem _

theorem simulates_emitLi (reg : Text) (val : BitVec 32) :
    Simulates (RunsAlike 0) (RunsAlike 0) (emitLi reg val : EngineM G Unit) (emitLi reg val) := by
  have hemit : ∀ inst : Text, Simulates (RunsAlike 0) (RunsAlike 0)
      (emitInstructionFormatBody failure inst : EngineM G Unit)
      (emitInstructionFormatBody failure inst) :=
    simulates_emitInstructionFormatBody .failure
  refine .bind (hemit _) fun _ => ?_
  split
  · exact hemit _
  · exact .pure _

theorem simulates_vectorSetUp {append : Text → EngineM G Unit}
    (happend : ∀ item, Simulates (RunsAlike 0) (RunsAlike 0) (append item) (append item)) :
    Simulates (RunsAlike 0) (RunsAlike 0) (vectorSetUp append) (vectorSetUp append) := by
  refine .bind simulates_draw fun _ => .bind (happend _) fun _ =>
    .bind simulates_vectorState fun _ => .bind (simulates_emitVsetvli _ _ _ _ _ _) fun _ =>
    .bind (simulates_setVl _) fun _ => ?_
  exact .bind (.bind simulates_draw fun _ => simulates_emitLi _ _) fun _ =>
    .bind (.bind simulates_draw fun _ => simulates_emitLi _ _) fun _ => .pure _

theorem simulates_emitInstruction (inst : Text) :
    Simulates (RunsAlike 0) (RunsAlike 0) (emitInstruction inst : EngineM G Unit)
      (emitInstruction inst) := by
  refine .bind simulates_tick fun _ => ?_
  dsimp only
  split
  · split
    · exact .bind simulates_setVlUnknown fun _ => simulates_appendChecked _
    · exact .pure _
  · refine .bind simulates_vectorState fun _ => .bind ?_ fun _ => simulates_appendChecked _
    split
    · exact simulates_vectorSetUp simulates_appendChecked
    · exact .pure _

/-- **Every part runs alike** on engines that are alike. -/
theorem EnginePart.simulates {α : Type} {m : EngineM G α} (h : EnginePart α m) :
    Simulates (RunsAlike 0) (RunsAlike 0) m m := by
  cases h with
  | draw => exact simulates_draw
  | currentPc => exact simulates_currentPc
  | vectorState => exact simulates_vectorState
  | strictSandboxing => exact simulates_strictSandboxing
  | setStrictSandboxing strict => exact .ofModify fun _ _ h => { h with strictSandboxing := rfl }
  | emitInstruction inst => exact simulates_emitInstruction inst
  | emitInstructionFormat inst =>
      exact simulates_emitInstructionFormatBody
        (simulates_vectorSetUp simulates_appendUnchecked) inst
  | emitVsetvli rd rs1 sew lmul ta ma => exact simulates_emitVsetvli _ _ _ _ _ _
  | emitVsetivli rd uimm sew lmul ta ma => exact simulates_emitVsetivli _ _ _ _ _ _
  | appendChecked line => exact simulates_appendChecked _
  | appendUnchecked line => exact simulates_appendUnchecked _
  | resetTracker =>
      exact .ofModify fun _ _ h => { h with vectorState := by simp only [h.vectorState] }
  | setVl vl => exact simulates_setVl vl
  | addHazardTag tag => exact .ofModify fun _ _ h => { h with hazardTags := by rw [h.hazardTags] }

end Parts

/-! ### What an emission leaves alone -/

/-- The limit of the watchdog and the expected trap stay as they are. -/
def settingsStep (G : Prng) : StepRelation (IsgEngine G) where
  rel e e' :=
    e'.watchdog.maxIterations = e.watchdog.maxIterations ∧ e'.expectedTrap = e.expectedTrap
  refl _ := ⟨rfl, rfl⟩
  trans h h' := ⟨h'.1.trans h.1, h'.2.trans h.2⟩

theorem EnginePrimitive.settingsStep {α : Type} {m : EngineM G α} (h : EnginePrimitive α m) :
    Relates (settingsStep G) m := by
  intro e a e' hrun
  cases h with
  | tick =>
      obtain ⟨watchdog, hwatchdog, rfl⟩ := run_tick_eq_some hrun
      rw [IsgWatchdog.tick] at hwatchdog
      split at hwatchdog
      · cases hwatchdog
      · cases hwatchdog
        exact ⟨rfl, rfl⟩
  | checkRoom written =>
      obtain ⟨-, rfl⟩ := run_checkRoom_eq_some hrun
      exact ⟨rfl, rfl⟩
  | _ => cases hrun; exact ⟨rfl, rfl⟩

theorem Emission.settingsStep {α : Type} {m : EngineM G α} (h : Emission m) :
    Relates (settingsStep G) m :=
  h.primitive.relates fun _ _ hpart => hpart.settingsStep

/-! ### Clients -/

/-- The call sets the expected trap. -/
def EngineCall.IsSetExpectedTrap : EngineCall → Prop
  | setExpectedTrap _ _ _ => True
  | _ => False

theorem EngineCall.simulates (c : EngineCall) :
    Simulates (RunsAlike 0) (RunsAlike 0) (c.run : EngineM G _) c.run := by
  cases c with
  | reset =>
      refine .bind (.ofModify fun e t h => ?_) fun _ => .pure _
      exact { h with
        prng := by simp only [IsgEngine.reset, h.seed]
        assemblyLength := rfl
        charAt := fun i hi => absurd hi (Nat.not_lt_zero i)
        vectorState := rfl
        watchdog := by simp only [IsgEngine.reset, h.watchdog]
        assertionCount := rfl
        hazardTags := rfl }
  | setSeed seed =>
      exact .bind (.ofModify fun _ _ h => { h with seed := rfl, prng := rfl }) fun _ => .pure _
  | setExpectedTrap mcause mepc mtval =>
      exact .bind (.ofModify fun _ _ h => { h with }) fun _ => .pure _
  | _ =>
      exact Composed.simulates (fun _ _ hpart => hpart.simulates) (EngineCall.composed (by trivial))

/-- A call other than `SetExpectedTrap` leaves the expected trap alone. -/
theorem EngineCall.expectedTrap_eq {c : EngineCall} (hc : ¬ c.IsSetExpectedTrap)
    {e e' : IsgEngine G} {response : Response} (hrun : c.run.run e = some (response, e')) :
    e'.expectedTrap = e.expectedTrap := by
  cases c with
  | setExpectedTrap mcause mepc mtval => exact absurd trivial hc
  | reset | setSeed seed => cases hrun; rfl
  | _ => exact (Emission.settingsStep (EngineCall.composed (by trivial)) _ _ _ hrun).2

/-- The limit of the watchdog is set once. -/
theorem EngineCall.maxIterations_eq (c : EngineCall) {e e' : IsgEngine G} {response : Response}
    (hrun : c.run.run e = some (response, e')) :
    e'.watchdog.maxIterations = e.watchdog.maxIterations := by
  cases c with
  | reset | setSeed seed | setExpectedTrap mcause mepc mtval => cases hrun; rfl
  | _ => exact (Emission.settingsStep (EngineCall.composed (by trivial)) _ _ _ hrun).1

namespace Client

/-- **Every client runs alike** on engines that are alike. -/
theorem simulates (p : Client) :
    Simulates (RunsAlike 0) (RunsAlike 0) (p.run : EngineM G _) p.run := by
  induction p with
  | done => exact .pure _
  | call c next ih => exact .bind c.simulates ih

theorem maxIterations_eq (p : Client) {e e' : IsgEngine G} {u : Unit}
    (hrun : p.run.run e = some (u, e')) :
    e'.watchdog.maxIterations = e.watchdog.maxIterations := by
  induction p generalizing e with
  | done => cases hrun; rfl
  | call c next ih =>
      obtain ⟨response, e₁, hcall, hrun⟩ := run_bind_eq_some.1 hrun
      exact (ih response hrun).trans (c.maxIterations_eq hcall)

/-- The client sets the expected trap in its run. -/
def AnnouncesTrap : Client → IsgEngine G → Prop
  | done, _ => False
  | call c next, e => c.IsSetExpectedTrap ∨
      ∃ response e', c.run.run e = some (response, e') ∧ (next response).AnnouncesTrap e'

/-- Without a call of `SetExpectedTrap` the expected trap stays. -/
theorem expectedTrap_eq {p : Client} {e e' : IsgEngine G} {u : Unit} (h : ¬ p.AnnouncesTrap e)
    (hrun : p.run.run e = some (u, e')) : e'.expectedTrap = e.expectedTrap := by
  induction p generalizing e with
  | done => cases hrun; rfl
  | call c next ih =>
      obtain ⟨response, e₁, hcall, hrun⟩ := run_bind_eq_some.1 hrun
      rw [AnnouncesTrap, not_or, not_exists] at h
      have hnext : ¬ (next response).AnnouncesTrap e₁ :=
        fun hann => h.2 response ⟨e₁, hcall, hann⟩
      exact (ih response hnext hrun).trans (EngineCall.expectedTrap_eq h.1 hcall)

/-- On engines alike with the same expected trap, the expected trap stays the same. -/
theorem expectedTrap_congr {p : Client} {e t e' t' : IsgEngine G} {u u' : Unit}
    (h : RunsAlike 0 e t) (htrap : e.expectedTrap = t.expectedTrap)
    (he : p.run.run e = some (u, e')) (ht : p.run.run t = some (u', t')) :
    e'.expectedTrap = t'.expectedTrap := by
  induction p generalizing e t with
  | done => cases he; cases ht; exact htrap
  | call c next ih =>
      obtain ⟨response, e₁, hcall, he⟩ := run_bind_eq_some.1 he
      obtain ⟨response', t₁, hcall', ht⟩ := run_bind_eq_some.1 ht
      have hagree := c.simulates e t h
      rw [hcall, hcall'] at hagree
      cases hagree with
      | some h₁ =>
          refine ih response h₁ ?_ he ht
          by_cases hc : c.IsSetExpectedTrap
          · cases c with
            | setExpectedTrap mcause mepc mtval => cases hcall; cases hcall'; rfl
            | _ => exact absurd hc id
          · rw [EngineCall.expectedTrap_eq hc hcall, EngineCall.expectedTrap_eq hc hcall', htrap]

/-- On engines alike, a client sets the expected trap in both runs or in none. -/
theorem AnnouncesTrap.of_runsAlike {p : Client} {e t : IsgEngine G} (h : RunsAlike 0 e t)
    (hann : p.AnnouncesTrap e) : p.AnnouncesTrap t := by
  induction p generalizing e t with
  | done => exact hann.elim
  | call c next ih =>
      rcases hann with hc | ⟨response, e₁, hcall, hann⟩
      · exact .inl hc
      · have hagree := c.simulates e t h
        rw [hcall] at hagree
        generalize htrun : c.run.run t = y at hagree
        cases hagree with
        | @some _ _ t₁ h₁ => exact .inr ⟨response, t₁, htrun, ih response h₁ hann⟩

/-- On engines alike, a client that sets the expected trap leaves the same one on both. -/
theorem expectedTrap_of_announcesTrap {p : Client} {e t e' t' : IsgEngine G} {u u' : Unit}
    (h : RunsAlike 0 e t) (hann : p.AnnouncesTrap t) (he : p.run.run e = some (u, e'))
    (ht : p.run.run t = some (u', t')) : e'.expectedTrap = t'.expectedTrap := by
  induction p generalizing e t with
  | done => exact hann.elim
  | call c next ih =>
      obtain ⟨response, e₁, hcalle, hnexte⟩ := run_bind_eq_some.1 he
      obtain ⟨response', t₁, hcallt, hnextt⟩ := run_bind_eq_some.1 ht
      have hagree := c.simulates e t h
      rw [hcalle, hcallt] at hagree
      cases hagree with
      | some h₁ =>
          rcases hann with hc | ⟨response', t₂, hcallt', hann⟩
          · cases c with
            | setExpectedTrap mcause mepc mtval =>
                refine expectedTrap_congr h₁ ?_ hnexte hnextt
                cases hcalle
                cases hcallt
                rfl
            | _ => exact absurd hc id
          · rw [hcallt] at hcallt'
            cases hcallt'
            exact ih response h₁ hann hnexte hnextt

/-- The client, and then `Build`. -/
def result (p : Client) (e : IsgEngine G) : Option TestSequence :=
  (p.run.run e).bind fun r => build r.2

end Client

/-- A new engine with the seed and the sandboxing flag of an engine. -/
def IsgEngine.anew (e : IsgEngine G) (uninitialised : ℕ → Char) : IsgEngine G :=
  { IsgEngine.create G e.seed uninitialised with strictSandboxing := e.strictSandboxing }

/-- After any history the reset engine and a new one are alike. -/
theorem runsAlike_reset {h : Client} {seed : BitVec 64} {uninitialised uninitialised' : ℕ → Char}
    {e : IsgEngine G} (hrun : h.run.run (.create G seed uninitialised) = some ((), e)) :
    RunsAlike 0 e.reset (e.anew uninitialised') where
  seed := rfl
  prng := rfl
  assemblyLength := rfl
  charAt i hi := absurd hi (Nat.not_lt_zero i)
  vectorState := rfl
  strictSandboxing := rfl
  watchdog := by
    have hmax : e.watchdog.maxIterations = 8000 := h.maxIterations_eq hrun
    simp only [IsgEngine.reset, IsgEngine.anew, IsgEngine.create, IsgWatchdog.reset, hmax]
  assertionCount := rfl
  hazardTags := rfl

/-- A result is there when the run completes and the text is short enough. -/
theorem build_eq_none_iff {e : IsgEngine G} :
    build e = none ↔ ¬ pcAfter e.text ≤ mpauseAddress := by
  rw [build]
  split <;> simp_all

/-- **Exactly when a reset gives a new engine.**  After a history and a reset, a client gets the
result of a new engine exactly when the history left no expected trap, or the client sets one
itself, unless there is no result to compare because the client aborts. -/
theorem result_reset_iff (h p : Client) (seed : BitVec 64)
    (uninitialised uninitialised' : ℕ → Char) (e : IsgEngine G)
    (hrun : h.run.run (.create G seed uninitialised) = some ((), e)) :
    p.result e.reset = p.result (e.anew uninitialised') ↔
      ((p.result (e.anew uninitialised')).isSome →
        e.expectedTrap = none ∨ p.AnnouncesTrap (e.anew uninitialised')) := by
  have halike : RunsAlike 0 e.reset (e.anew uninitialised') := runsAlike_reset hrun
  have hagree := p.simulates _ _ halike
  rw [Client.result, Client.result]
  generalize hreset : p.run.run e.reset = x at hagree ⊢
  generalize hnew : p.run.run (e.anew uninitialised') = y at hagree ⊢
  cases hagree with
  | none => exact iff_of_true rfl fun habsent => absurd habsent Bool.false_ne_true
  | @some u e' t' hend =>
      simp only [Option.bind_some]
      by_cases hpc : pcAfter t'.text ≤ mpauseAddress
      · have hsome : (build t').isSome = true := by rw [build, if_pos hpc]; rfl
        have hseq : build e' = build t' ↔ e'.expectedTrap = t'.expectedTrap := by
          rw [build, build, hend.text_eq, if_pos hpc, if_pos hpc, hend.seed, hend.assertionCount,
            hend.hazardTags, Option.some.injEq, TestSequence.mk.injEq]
          simp
        rw [hseq, hsome]
        simp only [forall_const]
        by_cases hann : p.AnnouncesTrap (e.anew uninitialised')
        · exact iff_of_true (Client.expectedTrap_of_announcesTrap halike hann hreset hnew)
            (.inr hann)
        · have hnone : t'.expectedTrap = none := Client.expectedTrap_eq hann hnew
          by_cases htrap : e.expectedTrap = none
          · refine iff_of_true ?_ (.inl htrap)
            exact Client.expectedTrap_congr halike htrap hreset hnew
          · -- the trap of the history is still there at the end
            have hkept : e'.expectedTrap = e.reset.expectedTrap :=
              Client.expectedTrap_eq (fun hann' => hann (hann'.of_runsAlike halike)) hreset
            refine iff_of_false (fun heq => htrap ?_) (not_or.2 ⟨htrap, hann⟩)
            exact hkept.symm.trans (heq.trans hnone)
      · have hnew : build t' = none := build_eq_none_iff.2 hpc
        have hold : build e' = none := build_eq_none_iff.2 (hend.text_eq ▸ hpc)
        rw [hnew, hold]
        exact iff_of_true rfl fun habsent => absurd habsent Bool.false_ne_true

/-- A history that only announces a trap. -/
def trapHistory : Client := .call (.setExpectedTrap 11 0x100 0) fun _ => .done

/-- The announced trap survives the reset. -/
theorem not_result_reset :
    ¬ ∀ e : IsgEngine mt19937_64,
      trapHistory.run.run (.create mt19937_64 1 fun _ => '\x00') = some ((), e) →
        Client.done.result e.reset = Client.done.result (e.anew fun _ => '\x00') := by
  intro h
  have htrap := congrArg (Option.map TestSequence.trapEvent) (h _ rfl)
  exact absurd htrap (by decide)

/-- After a history without an expected trap, a client that emits an `mpause` gets the sequence of a
new engine. -/
theorem result_reset_mpause :
    ∃ e : IsgEngine mt19937_64,
      (Client.call .emitIllegalInstruction fun _ => .done).run.run
        (.create mt19937_64 1 fun _ => '\x00') = some ((), e) ∧
      ((Client.call .emitMpause fun _ => .done).result e.reset =
          (Client.call .emitMpause fun _ => .done).result (e.anew fun _ => '\x00') ↔
        (((Client.call .emitMpause fun _ => .done).result (e.anew fun _ => '\x00')).isSome →
          e.expectedTrap = none ∨
            (Client.call .emitMpause fun _ => .done).AnnouncesTrap (e.anew fun _ => '\x00'))) :=
  ⟨_, rfl, result_reset_iff (.call .emitIllegalInstruction fun _ => .done)
    (.call .emitMpause fun _ => .done) 1 (fun _ => '\x00') (fun _ => '\x00') _ rfl⟩

end CoralNpu
