/-
**The layout of every finished program.**

A program is a sequence of pieces: calls of the engine and hazard generators, in any order and with
any arguments.  When the appends made without a check fit and nothing stands before the preamble,
the text `Build` returns has exactly the size of the instruction memory, its labels stand where the
scan said, and every printed target is the address of the instruction it is meant to reach.  With
an instruction in front of the preamble the jump over the trap handler misses.

Main definitions:

* `CoralNpu.Piece`, `CoralNpu.emitPieces` — pieces of a program, one after the other;
* `CoralNpu.LayoutAgrees` — what the layout of a finished program promises.

Main results:

* `CoralNpu.assemble_finalText` — the words of the finished program;
* `CoralNpu.layoutAgrees` — **the layout of every finished program**;
* `CoralNpu.not_layoutAgrees_preambleSecond` — an instruction in front of the preamble breaks it.
-/

import CoralNpu.IsgCompletion

set_option relaxedAutoImplicit false
set_option autoImplicit false

namespace CoralNpu

open AsciiText PartialState

variable {G : Prng}

/-! ### Sequences of emissions -/

/-- A piece of a program: a call, or one of the hazard generators. -/
inductive Piece where
  | call (c : EngineCall)
  | dataHazard
  | controlHazard
  | structuralHazard
  | edgeCaseOperands

/-- A piece emitted. -/
def Piece.run : Piece → EngineM G Unit
  | call c => do
      let _ ← c.run
      pure ()
  | dataHazard => generateDataHazard
  | controlHazard => generateControlHazard
  | structuralHazard => generateStructuralHazard
  | edgeCaseOperands => generateEdgeCaseOperands

/-- The pieces that emit or look, as opposed to a reset. -/
def Piece.IsEmission : Piece → Prop
  | call c => c.IsEmission
  | _ => True

/-- The pieces one after the other. -/
def emitPieces (pieces : List Piece) : EngineM G Unit := pieces.forM Piece.run

theorem Emission.generateDataHazard : Emission (generateDataHazard : EngineM G _) :=
  .bind draw fun _ => .bind draw fun _ => .bind draw fun _ => .bind draw fun _ =>
    .bind draw fun _ => .bind draw fun _ => .bind draw fun _ => .bind draw fun _ =>
    .bind (emitVsetvli _ _ _ _ _ _) fun _ => .bind (emitVectorArithmetic _ _ _ _ _) fun _ =>
    .bind (emitInstructions _) fun _ => emitVectorArithmetic _ _ _ _ _

theorem Emission.generateControlHazard : Emission (generateControlHazard : EngineM G _) :=
  .bind draw fun _ => .bind (emitInstructions _) fun _ => .bind (.part .currentPc) fun _ =>
    .bind (emitInstructionFormat _) fun _ => .bind (emitInstructions _) fun _ =>
    .bind (emitInstruction _) fun _ => emitInstructionFormat _

theorem Emission.generateStructuralHazard : Emission (generateStructuralHazard : EngineM G _) :=
  .bind draw fun _ => .bind (emitVsetvli _ _ _ _ _ _) fun _ => .bind draw fun _ =>
    .bind (.forM fun _ => emitVectorArithmetic _ _ _ _ _) fun _ => emitVectorArithmetic _ _ _ _ _

theorem Emission.generateEdgeCaseOperands : Emission (generateEdgeCaseOperands : EngineM G _) :=
  .bind (emitInstructions _) fun _ => .bind (emitInstructionFormat _) fun _ =>
    .bind (emitLoad _ _ _) fun _ => emitInstructions _

theorem Piece.composed {piece : Piece} (h : piece.IsEmission) :
    Emission (piece.run : EngineM G _) := by
  cases piece with
  | call c => exact .bind (EngineCall.composed h) fun _ => .pure _
  | dataHazard => exact Emission.generateDataHazard
  | controlHazard => exact Emission.generateControlHazard
  | structuralHazard => exact Emission.generateStructuralHazard
  | edgeCaseOperands => exact Emission.generateEdgeCaseOperands

theorem Emission.emitPieces {pieces : List Piece} (h : ∀ piece ∈ pieces, piece.IsEmission) :
    Emission (emitPieces pieces : EngineM G _) := by
  induction pieces with
  | nil => exact .pure _
  | cons piece pieces ih =>
      rw [List.forall_mem_cons] at h
      exact .bind (Piece.composed h.1) fun _ => ih h.2

/-- Pieces in the middle of a run. -/
theorem run_emitPieces_append (before after : List Piece) {piece : Piece} {e e' : IsgEngine G}
    (h : (emitPieces (before ++ piece :: after)).run e = some ((), e')) :
    ∃ e₁ e₂, (emitPieces before).run e = some ((), e₁) ∧ piece.run.run e₁ = some ((), e₂) ∧
      (emitPieces after).run e₂ = some ((), e') := by
  induction before generalizing e with
  | nil =>
      obtain ⟨_, e₂, hpiece, hafter⟩ := run_bind_eq_some.1 h
      exact ⟨e, e₂, rfl, hpiece, hafter⟩
  | cons first before ih =>
      obtain ⟨_, e₀, hfirst, hrest⟩ := run_bind_eq_some.1 h
      obtain ⟨e₁, e₂, hbefore, hpiece, hafter⟩ := ih hrest
      exact ⟨e₁, e₂, run_bind_eq_some.2 ⟨_, e₀, hfirst, hbefore⟩, hpiece, hafter⟩

/-! ### The finished program -/

/-- The items `Build` puts after the emitted ones. -/
def closingItems (pc : ℕ) : List Text :=
  "_mutable_end:\n; END MUTABLE\n; BEGIN PROTECTED\n".toList ::
    (List.replicate ((mpauseAddress - pc + 3) / 4) "addi x0, x0, 0\n".toList ++
      [".word 0x08000073\n; END PROTECTED\n".toList])

theorem finalText_eq (text : Text) :
    finalText text = text ++ (closingItems (pcAfter text)).flatten := by
  simp [finalText, closingItems]

theorem lines_finalText {e : IsgEngine G} (h : BufferIntact e) :
    lines (finalText e.text) =
      (itemsOf e.trace.events).flatMap lines ++ (closingItems (pcAfter e.text)).flatMap lines := by
  have hclosing : ∀ item ∈ closingItems (pcAfter e.text), item.getLast? = some '\n' := by
    rw [closingItems, List.forall_mem_cons]
    refine ⟨by decide, fun item hitem => ?_⟩
    rcases List.mem_append.1 hitem with hmem | hmem
    · rw [List.eq_of_mem_replicate hmem]
      decide
    · rw [List.mem_singleton.1 hmem]
      decide
  rw [finalText_eq]
  generalize closingItems (pcAfter e.text) = closing at hclosing ⊢
  rw [h.text_eq, lines_flatten_append h.terminated, lines_flatten hclosing]

/-- The words of the finished program. -/
theorem assemble_finalText {e : IsgEngine G} (h : BufferIntact e)
    (hpc : pcAfter e.text ≤ mpauseAddress) :
    assemble (finalText e.text) = e.words ++
      (List.replicate (2047 - e.words.length) "addi x0, x0, 0".toList ++
        [".word 0x08000073".toList]) := by
  have hnop : ∀ n, wordsOfLines ((List.replicate n "addi x0, x0, 0\n".toList).flatMap lines) =
      List.replicate n "addi x0, x0, 0".toList := by
    intro n
    induction n with
    | zero => rfl
    | succ n ih =>
        rw [List.replicate_succ, List.flatMap_cons, wordsOfLines_append, ih, List.replicate_succ]
        rfl
  have hcount : (mpauseAddress - pcAfter e.text + 3) / 4 = 2047 - e.words.length := by
    rw [pcAfter_text h, mpauseAddress] at *
    omega
  rw [assemble, lines_finalText h, wordsOfLines_append, closingItems, hcount, List.flatMap_cons,
    List.flatMap_append, wordsOfLines_append, wordsOfLines_append, hnop]
  rfl

/-- What the layout of a finished program promises, after a run of pieces from the engine
`start`. -/
structure LayoutAgrees (start : IsgEngine G) (pieces : List Piece) (e : IsgEngine G)
    (text : Text) : Prop where
  size : (assemble text).length = 2048
  mpause : (assemble text)[2047]? = some ".word 0x08000073".toList
  mutableEnd : LabelAt text "_mutable_end".toList (pcAfter e.text)
  preamble : ∀ before after e₁ e₂, pieces = before ++ .call .emitPreamble :: after →
    (emitPieces before).run start = some ((), e₁) → emitPreamble.run e₁ = some ((), e₂) →
    LabelAt text "_mutable_start".toList (pcAfter e₂.text) ∧
      PreambleTargets (assemble text) (pcAfter e₁.text / 4)
  controlHazard : ∀ before after e₁, pieces = before ++ .controlHazard :: after →
    (emitPieces before).run start = some ((), e₁) →
    ControlHazardTargets (assemble text) (pcAfter e₁.text / 4)

/-- The label at the end of the preamble. -/
theorem labelAt_mutableStart {e₁ e₂ e : IsgEngine G} (h₂ : BufferIntact e₂) (h : BufferIntact e)
    (hpreamble : emitPreamble.run e₁ = some ((), e₂)) (hafter : (eventsStep G).rel e₂ e) :
    LabelAt (finalText e.text) "_mutable_start".toList (pcAfter e₂.text) := by
  obtain ⟨_, _, -, hrun⟩ := run_bind_eq_some.1 hpreamble
  obtain ⟨_, _, -, hrun⟩ := run_bind_eq_some.1 hrun
  obtain ⟨_, _, -, hrun⟩ := run_bind_eq_some.1 hrun
  obtain ⟨_, _, -, hrun⟩ := run_bind_eq_some.1 hrun
  obtain ⟨_, _, -, hrun⟩ := run_bind_eq_some.1 hrun
  obtain ⟨_, e₀, -, hrun⟩ := run_bind_eq_some.1 hrun
  obtain ⟨added, hadded⟩ := hafter
  have hevents : e₂.trace.events = e₀.trace.events ++ [.item preambleTail e₀.vectorState] := by
    rw [run_appendUnchecked_eq_some hrun]
    rfl
  -- the label closes the lines of the preamble
  have hlines : (itemsOf e₂.trace.events).flatMap lines =
      ((itemsOf e₀.trace.events).flatMap lines ++ ["; END PROTECTED".toList,
        "; BEGIN MUTABLE".toList]) ++ ["_mutable_start:".toList] := by
    rw [hevents, itemsOf_append, itemsOf_item, List.flatMap_append, List.flatMap_singleton,
      List.append_assoc]
    rfl
  refine ⟨(itemsOf e₀.trace.events).flatMap lines ++ ["; END PROTECTED".toList,
    "; BEGIN MUTABLE".toList], (itemsOf added).flatMap lines ++
      (closingItems (pcAfter e.text)).flatMap lines, Eq.trans (lines_finalText h) ?_, ?_⟩
  · rw [hadded, itemsOf_append, List.flatMap_append, hlines, List.append_assoc, List.append_assoc]
    rfl
  · rw [pcAfter_text h₂, IsgEngine.words, hlines, wordsOfLines_append,
      show wordsOfLines ["_mutable_start:".toList] = [] by decide, List.append_nil]

/-- **The layout of every finished program.**  Pieces are emitted on a new engine, the appends made
without a check fit, and the preamble is emitted only where nothing stands before it.  If the code
is short enough, `Build` gives a program with the layout the generator counted on. -/
theorem layoutAgrees (seed : BitVec 64) (uninitialised : ℕ → Char) (pieces : List Piece)
    (e : IsgEngine G) (hemission : ∀ piece ∈ pieces, piece.IsEmission)
    (hrun : (emitPieces pieces).run (.create G seed uninitialised) = some ((), e))
    (hfit : UncheckedFit e)
    (hpreamble : ∀ before after e₁, pieces = before ++ .call .emitPreamble :: after →
      (emitPieces before).run (.create G seed uninitialised) = some ((), e₁) → pcAfter e₁.text = 0)
    (hpc : pcAfter e.text ≤ mpauseAddress) :
    ∃ sequence, build e = some sequence ∧
      LayoutAgrees (.create G seed uninitialised) pieces e sequence.assemblyText := by
  have hstart : HasRoom (.create G seed uninitialised) := hasRoom_create seed uninitialised
  have hintact : BufferIntact e :=
    (((Emission.emitPieces hemission).relates_bufferStep _ _ _ hrun).2 hfit hstart).2
  have hwords : e.words.length ≤ 2047 := by
    have hle := pcAfter_text hintact ▸ hpc
    rw [mpauseAddress] at hle
    omega
  have hassemble := assemble_finalText hintact hpc
  -- the state before a piece, the state after it, and what follows
  have hsplit : ∀ before after piece e₁, pieces = before ++ piece :: after →
      (emitPieces before).run (.create G seed uninitialised) = some ((), e₁) →
      HasRoom e₁ ∧ ∃ e₂, piece.run.run e₁ = some ((), e₂) ∧ HasRoom e₂ ∧ UncheckedFit e₂ ∧
        (eventsStep G).rel e₂ e := by
    intro before after piece e₁ hpieces hbefore
    rw [hpieces] at hrun hemission
    rw [List.forall_mem_append, List.forall_mem_cons] at hemission
    obtain ⟨hbeforeE, hpieceE, hafterE⟩ := hemission
    obtain ⟨e₁', e₂, hbefore', hpiece, hafter⟩ := run_emitPieces_append _ _ hrun
    rw [hbefore] at hbefore'
    cases hbefore'
    obtain ⟨hgrow₂, -⟩ := (Emission.emitPieces hafterE).relates_bufferStep _ _ _ hafter
    obtain ⟨hgrow₁, hkeep⟩ := (Piece.composed hpieceE).relates_bufferStep _ _ _ hpiece
    have hroom₁ := ((Emission.emitPieces hbeforeE).relates_bufferStep _ _ _ hbefore).2
      (hgrow₁.fit (hgrow₂.fit hfit)) hstart
    exact ⟨hroom₁, e₂, hpiece, hkeep (hgrow₂.fit hfit) hroom₁, hgrow₂.fit hfit,
      (Emission.emitPieces hafterE).eventsStep _ _ _ hafter⟩
  refine ⟨_, if_pos hpc, ?_, ?_, ?_, ?_, ?_⟩
  · rw [hassemble]
    simp only [List.length_append, List.length_replicate, List.length_singleton]
    omega
  · rw [hassemble, ← List.append_assoc, List.getElem?_append_right (by simp; omega)]
    simp only [List.length_append, List.length_replicate]
    rw [show 2047 - (e.words.length + (2047 - e.words.length)) = 0 by omega]
    rfl
  · exact ⟨_, _, lines_finalText hintact, pcAfter_text hintact⟩
  · intro before after e₁ e₂ hpieces hbefore hrun₂
    obtain ⟨hroom₁, e₂', hpiece, hroom₂, hfit₂, hafter⟩ := hsplit _ _ _ _ hpieces hbefore
    obtain rfl : e₂ = e₂' := by
      obtain ⟨_, _, hcall, hpure⟩ := run_bind_eq_some.1 hpiece
      obtain ⟨_, _, hcall, hpure'⟩ := run_bind_eq_some.1 hcall
      rw [hrun₂] at hcall
      cases hcall
      cases hpure'
      cases hpure
      rfl
    refine ⟨labelAt_mutableStart hroom₂.2 hintact hrun₂ hafter, ?_⟩
    have hzero := hpreamble before after e₁ hpieces hbefore
    have hlength : e₁.words.length = 0 := by
      rw [pcAfter_text hroom₁.2] at hzero
      omega
    obtain ⟨words, hadds, front, back, rfl⟩ := lays_emitPreamble.adds _ _ _ hroom₁ hfit₂ hrun₂
    obtain ⟨added, hadded⟩ := words_of_eventsStep hafter
    rw [List.length_eq_zero_iff] at hlength
    rw [hlength, List.nil_append, List.length_nil] at hadds
    rw [hzero]
    rw [hassemble, hadded, hadds, List.append_assoc]
    exact preambleTargets rfl _
  · intro before after e₁ hpieces hbefore
    obtain ⟨hroom₁, e₂, hpiece, hroom₂, hfit₂, hafter⟩ := hsplit _ _ _ _ hpieces hbefore
    obtain ⟨words, hadds, dist, hlo, hhi, rfl⟩ :=
      lays_generateControlHazard.adds _ _ _ hroom₁ hfit₂ hpiece
    obtain ⟨added, hadded⟩ := words_of_eventsStep hafter
    rw [pcAfter_text hroom₁.2, Nat.mul_div_cancel_left _ (by decide), hassemble, hadded, hadds,
      List.append_assoc, List.append_assoc]
    exact controlHazardTargets _ _ hlo hhi

/-! ### A preamble in the first and in the second place -/

/-- With this budget the engine completes the pieces, and the code is short enough. -/
theorem exists_run_emitPieces {pieces : List Piece} {ticks chars words : ℕ}
    (h : Completes (emitPieces pieces : EngineM G Unit) ticks chars words) (hticks : ticks ≤ 8000)
    (hchars : chars < kAssemblyBufferSize) (hwords : words ≤ 2047) (seed : BitVec 64)
    (uninitialised : ℕ → Char) (hemission : ∀ piece ∈ pieces, piece.IsEmission) :
    ∃ e, (emitPieces pieces).run (IsgEngine.create G seed uninitialised) = some ((), e) ∧
      UncheckedFit e ∧ pcAfter e.text ≤ mpauseAddress := by
  have hbudget : HasBudget (IsgEngine.create G seed uninitialised) ticks chars := by
    refine ⟨?_, ?_, fun append hmem => absurd hmem List.not_mem_nil⟩
    · simpa [IsgEngine.create] using hticks
    · simpa [IsgEngine.create] using hchars
  obtain ⟨u, e, hrun, hspent⟩ := h _ hbudget
  have hintact := (((Emission.emitPieces hemission).relates_bufferStep _ _ _ hrun).2 hspent.fit
    (hasRoom_create seed uninitialised)).2
  refine ⟨e, hrun, hspent.fit, ?_⟩
  have hle := hspent.words
  have hnew : (IsgEngine.create G seed uninitialised).words = [] := rfl
  rw [hnew, List.length_nil] at hle
  rw [pcAfter_text hintact, mpauseAddress]
  omega

theorem completes_call (c : EngineCall) {ticks chars words : ℕ}
    (h : Completes (c.run : EngineM G _) ticks chars words) :
    Completes ((Piece.call c).run : EngineM G Unit) ticks chars words :=
  h.bind fun _ => .pure _

/-- A preamble and a control hazard. -/
def sampleProgram : List Piece := [.call .emitPreamble, .controlHazard]

theorem layoutAgrees_sampleProgram :
    ∃ e sequence, (emitPieces sampleProgram).run (.create mt19937_64 1 fun _ => '\x00') =
      some ((), e) ∧
      build e = some sequence ∧
      LayoutAgrees (.create mt19937_64 1 fun _ => '\x00') sampleProgram e
        sequence.assemblyText := by
  have hemission : ∀ piece ∈ sampleProgram, piece.IsEmission := by
    intro piece hpiece
    rcases List.mem_cons.1 hpiece with rfl | hpiece
    · trivial
    · rw [List.mem_singleton.1 hpiece]
      trivial
  have hcompletes : Completes (emitPieces sampleProgram : EngineM mt19937_64 Unit) 310 12400 310 :=
    (completes_call .emitPreamble (completes_emitPreamble.bind fun _ => .pure _)).bind fun _ =>
      completes_generateControlHazard.bind fun _ => .pure _
  obtain ⟨e, hrun, hfit, hpc⟩ :=
    exists_run_emitPieces hcompletes (by decide) (by decide) (by decide)
    1 (fun _ => '\x00') hemission
  obtain ⟨sequence, hbuild, hagrees⟩ :=
    layoutAgrees 1 (fun _ => '\x00') sampleProgram e hemission hrun
    hfit (by
      -- the preamble is the first piece
      intro before after e₁ hpieces hbefore
      cases before with
      | nil =>
          cases hbefore
          rfl
      | cons piece before =>
          exfalso
          injection hpieces with hpiece hrest
          cases before with
          | nil => injection hrest with hrest; cases hrest
          | cons piece' before => injection hrest with hpiece' hrest; cases before <;>
            cases hrest) hpc
  exact ⟨e, sequence, hrun, hbuild, hagrees⟩

/-- A preamble behind one instruction. -/
def latePreamble : List Piece :=
  [.call (.emitInstruction "addi x0, x0, 0".toList), .call .emitPreamble]

/-- The jump of a preamble in the second place goes to the last instruction of the trap handler. -/
theorem not_layoutAgrees_preambleSecond :
    ¬ ∀ (pieces : List Piece) (e : IsgEngine mt19937_64) (sequence : TestSequence),
      (∀ piece ∈ pieces, piece.IsEmission) →
      (emitPieces pieces).run (.create mt19937_64 1 fun _ => '\x00') = some ((), e) →
      pcAfter e.text ≤ mpauseAddress → build e = some sequence →
      LayoutAgrees (.create mt19937_64 1 fun _ => '\x00') pieces e sequence.assemblyText := by
  intro h
  have hemission : ∀ piece ∈ latePreamble, piece.IsEmission := by
    intro piece hpiece
    rcases List.mem_cons.1 hpiece with rfl | hpiece
    · trivial
    · rw [List.mem_singleton.1 hpiece]
      trivial
  have hcompletes : Completes (emitPieces latePreamble : EngineM mt19937_64 Unit) 301 12040 301 :=
    (completes_call (.emitInstruction _) ((completes_instruction "addi x0, x0, 0" (by decide)).bind
      fun _ => .pure _)).bind fun _ =>
      (completes_call .emitPreamble (completes_emitPreamble.bind fun _ => .pure _)).bind fun _ =>
      .pure _
  obtain ⟨e, hrun, hfit, hpc⟩ :=
    exists_run_emitPieces hcompletes (by decide) (by decide) (by decide)
    1 (fun _ => '\x00') hemission
  obtain ⟨e₁, e₂, hfirst, hpreamble, hlast⟩ :=
    run_emitPieces_append [.call (.emitInstruction "addi x0, x0, 0".toList)] [] hrun
  cases hlast
  obtain ⟨_, _, hpreamble, hpure⟩ := run_bind_eq_some.1 hpreamble
  obtain ⟨_, _, hpreamble, hpure'⟩ := run_bind_eq_some.1 hpreamble
  cases hpure
  cases hpure'
  obtain ⟨-, htargets⟩ := (h latePreamble e _ hemission hrun hpc (if_pos hpc)).preamble _ _ _ _ rfl
    hfirst hpreamble
  -- the words around the jump
  have hstep := Emission.emitPreamble.relates_bufferStep _ _ _ hpreamble
  have hroom₁ : HasRoom e₁ := ((Emission.emitPieces (by
    intro piece hpiece
    rw [List.mem_singleton.1 hpiece]
    trivial)).relates_bufferStep _ _ _ hfirst).2 (hstep.1.fit hfit) (hasRoom_create _ _)
  have hwords₁ : e₁.words = ["addi x0, x0, 0".toList] := by
    obtain ⟨_, _, hcall, hnil⟩ := run_bind_eq_some.1 hfirst
    cases hnil
    obtain ⟨_, _, hcall, hpure⟩ := run_bind_eq_some.1 hcall
    cases hpure
    obtain ⟨_, _, hemit, hpure⟩ := run_bind_eq_some.1 hcall
    cases hpure
    exact addsWords_emitInstruction (by decide) _ _ _ hemit
  obtain ⟨words, hadds, front, back, rfl⟩ := lays_emitPreamble.adds _ _ _ hroom₁ hfit hpreamble
  have hintact := (hstep.2 hfit hroom₁).2
  obtain ⟨line, operand, hline, hoperand, hparse⟩ := htargets.overHandler
  have hjump : (assemble (finalText e.text))[pcAfter e₁.text / 4]? =
      some "jal zero, 0x70".toList := by
    rw [assemble_finalText hintact hpc, hadds, pcAfter_text hroom₁.2, hwords₁]
    rfl
  obtain rfl : "jal zero, 0x70".toList = line := Option.some.inj (hjump.symm.trans hline)
  obtain rfl : "0x70".toList = operand := Option.some.inj (by rw [← hoperand]; decide)
  rw [pcAfter_text hroom₁.2, hwords₁] at hparse
  exact absurd hparse (by decide)

end CoralNpu
