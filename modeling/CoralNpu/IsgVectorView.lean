/-
**Events, tracker and quiet programs.**

The engine keeps a record of the vector configuration its text will have set, the tracker.  This
module says when the record agrees with the text, and follows both through the programs of the
engine: a program with no vector instruction and no `vset` line in its text, a quiet program, leaves
the agreement as it is.

Main definitions:

* `CoralNpu.TrackerAgrees` — the tracker agrees with the text before a line;
* `CoralNpu.NeverDrifts` — it does so at every vector instruction of the text;
* `CoralNpu.Faithful` — what holds between events and tracker at any time;
* `CoralNpu.Viewed` — a property of the events and the tracker, as one of the engine;
* `CoralNpu.Quiet` — the quiet programs.

Main results:

* `CoralNpu.Faithful.quiet`, `CoralNpu.Faithful.vector`, `CoralNpu.Faithful.vset` — one item more;
* `CoralNpu.Quiet.triple` — **quiet programs keep** whatever does not depend on quiet texts.
-/

import CoralNpu.IsgCompletion
import CoralNpu.VsetText

set_option relaxedAutoImplicit false
set_option autoImplicit false

namespace CoralNpu

open AsciiText PartialState

variable {G : Prng}

/-! ### Text and tracker -/

/-- The lines of the emitted text. -/
def linesOf (events : List EngineEvent) : List Text := (itemsOf events).flatMap lines

/-- The lines emitted since the tracker was last reset. -/
def linesSinceReset (events : List EngineEvent) : List Text :=
  events.foldl (fun since event =>
    match event with
    | .item text _ => since ++ lines text
    | .trackerReset => []) []

@[simp] theorem linesOf_item (events : List EngineEvent) (text : Text)
    (tracker : VectorStateTracker) :
    linesOf (events ++ [.item text tracker]) = linesOf events ++ lines text := by
  simp [linesOf]

@[simp] theorem linesOf_trackerReset (events : List EngineEvent) :
    linesOf (events ++ [.trackerReset]) = linesOf events := by
  simp [linesOf]

@[simp] theorem linesSinceReset_item (events : List EngineEvent) (text : Text)
    (tracker : VectorStateTracker) :
    linesSinceReset (events ++ [.item text tracker]) = linesSinceReset events ++ lines text := by
  simp [linesSinceReset, List.foldl_append]

@[simp] theorem linesSinceReset_trackerReset (events : List EngineEvent) :
    linesSinceReset (events ++ [.trackerReset]) = [] := by
  simp [linesSinceReset, List.foldl_append]

/-- The last `vset` line of a text names the tracked configuration. -/
def NamedBy (since : List Text) (tracker : VectorStateTracker) : Prop :=
  ∃ line vset, lastVset since = some line ∧ vsetOf line = some vset ∧
    vset.sew = tracker.sew ∧ vset.lmul = tracker.lmul

/-- **The tracker agrees with the text**: a `vset` line was emitted since the last reset, the last
one names the tracked configuration, and if the tracker takes the vector length for nonzero then the
last line that sets it does not set it to zero. -/
structure TrackerAgrees (m : VectorMachine) (since text : List Text)
    (tracker : VectorStateTracker) : Prop where
  named : NamedBy since tracker
  vl : tracker.vl ≠ 0 → m.vlAfter text ≠ some 0

/-- A vector instruction other than a `vset`. -/
def IsVectorInstruction (line : Text) : Prop :=
  isVector (strip line) = true ∧ isVset (strip line) = false

/-- Whenever a vector instruction is emitted, the tracker agrees with the text before it. -/
def NeverDriftsIn (m : VectorMachine) (events : List EngineEvent) : Prop :=
  ∀ before text tracker after front line back,
    events = before ++ .item text tracker :: after → lines text = front ++ line :: back →
      IsVectorInstruction line →
        TrackerAgrees m (linesSinceReset before ++ front) (linesOf before ++ front) tracker

/-- The tracker never drifts from the text. -/
def NeverDrifts (m : VectorMachine) (e : IsgEngine G) : Prop := NeverDriftsIn m e.trace.events

/-- What the events and the tracker have to do with each other at any time. -/
structure Faithful (m : VectorMachine) (events : List EngineEvent) (tracker : VectorStateTracker) :
    Prop where
  named : tracker.configured = true → NamedBy (linesSinceReset events) tracker
  vl : tracker.vl ≠ 0 → m.vlAfter (linesOf events) ≠ some 0
  supported : m.vlmax tracker.sew tracker.lmul ≠ 0
  neverDrifts : NeverDriftsIn m events

theorem NeverDriftsIn.concat {m : VectorMachine} {events : List EngineEvent} {event : EngineEvent}
    (h : NeverDriftsIn m events)
    (hevent : ∀ text tracker front line back, event = .item text tracker →
      lines text = front ++ line :: back → IsVectorInstruction line →
        TrackerAgrees m (linesSinceReset events ++ front) (linesOf events ++ front) tracker) :
    NeverDriftsIn m (events ++ [event]) := by
  intro before text tracker after front line back hevents hlines hvector
  rcases List.eq_nil_or_concat after with rfl | ⟨after', last, rfl⟩
  · obtain ⟨rfl, hlast⟩ := List.append_inj' hevents rfl
    exact hevent text tracker front line back (by simpa using hlast) hlines hvector
  · have hsplit : events ++ [event] = (before ++ .item text tracker :: after') ++ [last] := by
      simpa using hevents
    obtain ⟨rfl, -⟩ := List.append_inj' hsplit rfl
    exact h before text tracker after' front line back rfl hlines hvector

/-! ### Single lines -/

/-- A text of one line. -/
def SingleLine (text : Text) : Prop := '\n' ∉ text ∧ '\x00' ∉ text

instance (text : Text) : Decidable (SingleLine text) := inferInstanceAs (Decidable (_ ∧ _))

/-- The item printed for a line. -/
theorem lines_item {line : Text} (h : '\n' ∉ line) (hne : line ≠ []) :
    lines (line ++ "\n".toList) = [line] := by
  rw [show "\n".toList = '\n' :: [] from rfl, lines_append, lines_of_not_mem h hne]
  rfl

/-- No line of the text is a vector instruction or a `vset`. -/
def QuietText (text : Text) : Prop := ∀ line ∈ lines text, isVector (strip line) = false

instance (text : Text) : Decidable (QuietText text) :=
  inferInstanceAs (Decidable (∀ line ∈ lines text, isVector (strip line) = false))

theorem quietText_item {line : Text} (h : '\n' ∉ line) (hvector : isVector (strip line) = false) :
    QuietText (line ++ "\n".toList) := by
  by_cases hne : line = []
  · subst hne
    intro line' hmem
    cases hmem
  · intro line' hmem
    rw [lines_item h hne] at hmem
    rwa [List.mem_singleton.1 hmem]

theorem lastVset_append_quiet {ls quiet : List Text}
    (h : ∀ line ∈ quiet, isVector (strip line) = false) : lastVset (ls ++ quiet) = lastVset ls := by
  induction quiet generalizing ls with
  | nil => rw [List.append_nil]
  | cons line quiet ih =>
      rw [List.forall_mem_cons] at h
      rw [show ls ++ line :: quiet = (ls ++ [line]) ++ quiet by simp, ih h.2, lastVset_concat,
        isVset_of_isVector h.1]
      rfl

theorem vlAfter_append_quiet (m : VectorMachine) {ls quiet : List Text}
    (h : ∀ line ∈ quiet, isVector (strip line) = false) :
    m.vlAfter (ls ++ quiet) = m.vlAfter ls := by
  induction quiet generalizing ls with
  | nil => rw [List.append_nil]
  | cons line quiet ih =>
      rw [List.forall_mem_cons] at h
      rw [show ls ++ line :: quiet = (ls ++ [line]) ++ quiet by simp, ih h.2,
        VectorMachine.vlAfter_concat, m.setsVl_of_not_isVset (isVset_of_isVector h.1)]
      rfl

namespace Faithful

variable {m : VectorMachine} {events : List EngineEvent} {tracker : VectorStateTracker}

/-- A quiet text changes nothing. -/
theorem quiet (h : Faithful m events tracker) {text : Text} (hquiet : QuietText text)
    (tracker' : VectorStateTracker) : Faithful m (events ++ [.item text tracker']) tracker := by
  refine ⟨fun hconfigured => ?_, fun hvl => ?_, h.supported, h.neverDrifts.concat ?_⟩
  · obtain ⟨line, vset, hlast, hvset⟩ := h.named hconfigured
    exact ⟨line, vset, by rw [linesSinceReset_item, lastVset_append_quiet hquiet, hlast], hvset⟩
  · rw [linesOf_item, vlAfter_append_quiet m hquiet]
    exact h.vl hvl
  · intro text' tracker'' front line back hevent hlines hvector
    cases hevent
    have hline := hquiet line (by rw [hlines]; simp)
    rw [hvector.1] at hline
    cases hline

/-- A vector instruction is emitted while a configuration is tracked. -/
theorem vector (h : Faithful m events tracker) {line : Text} (hnewline : '\n' ∉ line)
    (hvset : isVset (strip line) = false) (hconfigured : tracker.configured = true) :
    Faithful m (events ++ [.item (line ++ "\n".toList) tracker]) tracker := by
  have hlines : lines (line ++ "\n".toList) = [] ∨ lines (line ++ "\n".toList) = [line] := by
    by_cases hne : line = []
    · subst hne
      exact .inl rfl
    · exact .inr (lines_item hnewline hne)
  have hlast : lastVset (linesSinceReset events ++ lines (line ++ "\n".toList)) =
      lastVset (linesSinceReset events) := by
    rcases hlines with hnil | hone
    · rw [hnil, List.append_nil]
    · rw [hone, lastVset_concat, hvset]
      rfl
  have hvlAfter : m.vlAfter (linesOf events ++ lines (line ++ "\n".toList)) =
      m.vlAfter (linesOf events) := by
    rcases hlines with hnil | hone
    · rw [hnil, List.append_nil]
    · rw [hone, VectorMachine.vlAfter_concat, m.setsVl_of_not_isVset hvset]
      rfl
  refine ⟨fun _ => ?_, fun hvl => ?_, h.supported, h.neverDrifts.concat ?_⟩
  · rw [linesSinceReset_item, NamedBy, hlast]
    exact h.named hconfigured
  · rw [linesOf_item, hvlAfter]
    exact h.vl hvl
  · intro text tracker' front line' back hevent hsplit hvector
    cases hevent
    have hfront : front = [] := by
      rcases hlines with hnil | hone
      · rw [hnil] at hsplit
        simp at hsplit
      · rw [hone] at hsplit
        cases front with
        | nil => rfl
        | cons first front => simp at hsplit
    subst hfront
    rw [List.append_nil, List.append_nil]
    exact ⟨h.named hconfigured, h.vl⟩

/-- A `vset` line names the new configuration. -/
theorem vset (h : NeverDriftsIn m events) {line : Text} (hnewline : '\n' ∉ line)
    (hvset : isVset (strip line) = true) {vset : VsetLine} (hread : vsetOf line = some vset)
    (hsupported : m.vlmax vset.sew vset.lmul ≠ 0) {tracker tracker' : VectorStateTracker}
    (hsew : vset.sew = tracker.sew) (hlmul : vset.lmul = tracker.lmul)
    (hvl : tracker.vl ≠ 0 →
      (m.setsVl (linesOf events) line).or (m.vlAfter (linesOf events)) ≠ some 0) :
    Faithful m (events ++ [.item (line ++ "\n".toList) tracker']) tracker := by
  have hne : line ≠ [] := by
    rintro rfl
    cases hvset
  have hlines := lines_item hnewline hne
  refine ⟨fun _ => ⟨line, vset, ?_, hread, hsew, hlmul⟩, fun hnonzero => ?_, ?_, h.concat ?_⟩
  · rw [linesSinceReset_item, hlines, lastVset_concat, if_pos hvset]
  · rw [linesOf_item, hlines, VectorMachine.vlAfter_concat]
    exact hvl hnonzero
  · rw [← hsew, ← hlmul]
    exact hsupported
  · intro text tracker'' front line' back hevent hsplit hvector
    cases hevent
    rw [hlines] at hsplit
    cases front with
    | nil =>
        cases hsplit
        exact absurd (hvset.symm.trans hvector.2) (by decide)
    | cons first front => simp at hsplit

end Faithful

/-! ### Programs on events and tracker -/

/-- A property of the events and the tracker. -/
abbrev Viewed (P : List EngineEvent → VectorStateTracker → Prop) (e : IsgEngine G) : Prop :=
  P e.trace.events e.vectorState

/-- The program changes neither events nor tracker. -/
def Silent {α : Type} (m : EngineM G α) : Prop :=
  ∀ e a e', m.run e = some (a, e') →
    e'.trace.events = e.trace.events ∧ e'.vectorState = e.vectorState

section Triples

variable {P Q : List EngineEvent → VectorStateTracker → Prop} {α β : Type}

theorem Silent.triple {m : EngineM G α} (h : Silent m) :
    Triple (Viewed P) m fun _ => Viewed P := by
  intro e hP a e' hrun
  obtain ⟨hevents, htracker⟩ := h e a e' hrun
  rw [Viewed, hevents, htracker]
  exact hP

theorem silent_tick : Silent (tick : EngineM G Unit) := by
  intro e u e' hrun
  obtain ⟨watchdog, -, rfl⟩ := run_tick_eq_some hrun
  exact ⟨rfl, rfl⟩

theorem silent_checkRoom (written : ℕ) : Silent (checkRoom written : EngineM G Unit) := by
  intro e u e' hrun
  obtain ⟨-, rfl⟩ := run_checkRoom_eq_some hrun
  exact ⟨rfl, rfl⟩

theorem silent_draw : Silent (draw : EngineM G _) := by
  intro e u e' hrun
  cases hrun
  exact ⟨rfl, rfl⟩

/-- The tracker the program reads is the tracker. -/
theorem triple_vectorState : Triple (Viewed P) (vectorState : EngineM G _) fun tracker =>
    Viewed fun events tracker' => P events tracker' ∧ tracker' = tracker := by
  intro e hP a e' hrun
  cases hrun
  exact ⟨hP, rfl⟩

theorem triple_setVectorState {tracker : VectorStateTracker} (h : ∀ events t, P events t →
    Q events tracker) : Triple (Viewed P)
      (setVectorState tracker : EngineM G _) fun _ => Viewed Q := by
  intro e hP a e' hrun
  cases hrun
  exact h _ _ hP

theorem triple_setVl {vl : BitVec 32} (h : ∀ events tracker, P events tracker →
    Q events { tracker with vl := vl }) : Triple (Viewed P) (setVl vl : EngineM G _)
      fun _ => Viewed Q := by
  intro e hP a e' hrun
  cases hrun
  exact h _ _ hP

theorem silent_noteUnchecked (written : ℕ) : Silent (noteUnchecked written : EngineM G Unit) := by
  intro e u e' hrun
  cases hrun
  exact ⟨rfl, rfl⟩

/-- What one item does to events and tracker. -/
abbrev AfterItem (Q : List EngineEvent → VectorStateTracker → Prop) (item : Text)
    (events : List EngineEvent) (tracker : VectorStateTracker) : Prop :=
  Q (events ++ [.item item tracker]) tracker

theorem triple_appendChecked {item : Text} (h : ∀ events tracker, P events tracker →
    AfterItem Q item events tracker) :
    Triple (Viewed P) (appendChecked item : EngineM G _) fun _ => Viewed Q := by
  intro e hP u e' hrun
  obtain ⟨-, rfl⟩ := run_appendChecked_eq_some hrun
  exact h _ _ hP

theorem triple_appendUnchecked {item : Text} (h : ∀ events tracker, P events tracker →
    AfterItem Q item events tracker) :
    Triple (Viewed P) (appendUnchecked item : EngineM G _) fun _ => Viewed Q := by
  intro e hP u e' hrun
  rw [run_appendUnchecked_eq_some hrun]
  exact h _ _ hP

/-- A part of the engine that only prints and advances. -/
theorem triple_print (text : Text) : Triple (Viewed P) (print text : EngineM G _) fun _ =>
    Viewed P := by
  intro e hP u e' hrun
  cases hrun
  exact hP

theorem triple_endLine {inst : Text} (h : ∀ events tracker, P events tracker →
    AfterItem Q (inst ++ "\n".toList) events tracker) :
    Triple (Viewed P) (endLine inst : EngineM G _) fun _ => Viewed Q := by
  intro e hP u e' hrun
  cases hrun
  exact h _ _ hP

/-- The body of `EmitInstructionFormat`, after its place is decided. -/
theorem triple_emitInstructionFormatBody {setUp : EngineM G Unit} {inst : Text}
    {R : List EngineEvent → VectorStateTracker → Prop}
    (hplace : Triple (Viewed P) (placeInstruction setUp inst) fun _ => Viewed R)
    (h : ∀ events tracker, R events tracker → AfterItem Q (inst ++ "\n".toList) events tracker) :
    Triple (Viewed P) (emitInstructionFormatBody setUp inst) fun _ => Viewed Q :=
  silent_tick.triple.bind fun _ => (triple_print inst).bind fun _ =>
    (silent_checkRoom _).triple.bind fun _ => hplace.bind fun _ => triple_endLine h

theorem silent_advance (written : ℕ) : Silent (advance written : EngineM G Unit) := by
  intro e u e' hrun
  cases hrun
  exact ⟨rfl, rfl⟩

/-- A line that is no vector instruction. -/
theorem triple_formatLine {setUp : EngineM G Unit} {inst : Text}
    (hvector : isVector (strip inst) = false)
    (h : ∀ events tracker, P events tracker → AfterItem Q (inst ++ "\n".toList) events tracker) :
    Triple (Viewed P) (emitInstructionFormatBody setUp inst) fun _ => Viewed Q := by
  refine triple_emitInstructionFormatBody ?_ h
  rw [placeInstruction_of_not_isVector hvector]
  exact (silent_advance _).triple

theorem triple_emitVsetvliLine {rd rs1 : Text} {sew : VectorSew} {lmul : VectorLmul} {ta ma : Bool}
    (h : ∀ events tracker, P events tracker → AfterItem Q (vsetvliLine rd rs1 sew lmul ta ma) events
      ⟨unknownVl, sew, lmul, true, ta, ma⟩) :
    Triple (Viewed P) (emitVsetvli rd rs1 sew lmul ta ma : EngineM G _) fun _ => Viewed Q :=
  (triple_setVectorState (Q := fun events tracker => AfterItem Q (vsetvliLine rd rs1 sew lmul ta ma)
    events tracker) h).bind fun _ => triple_appendChecked fun _ _ hQ => hQ

end Triples

/-! ### Quiet programs -/

/-- The property does not depend on quiet texts. -/
def QuietClosed (P : List EngineEvent → VectorStateTracker → Prop) : Prop :=
  ∀ events tracker text tracker', P events tracker → QuietText text →
    P (events ++ [.item text tracker']) tracker

theorem quietClosed_faithful (m : VectorMachine) : QuietClosed (Faithful m) :=
  fun _ _ _ tracker' h hquiet => h.quiet hquiet tracker'

/-- A line that is no vector instruction. -/
structure QuietLine (line : Text) : Prop where
  single : SingleLine line
  not_isVector : isVector (strip line) = false

instance (line : Text) : Decidable (QuietLine line) :=
  decidable_of_iff (SingleLine line ∧ isVector (strip line) = false)
    ⟨fun ⟨h₁, h₂⟩ => ⟨h₁, h₂⟩, fun ⟨h₁, h₂⟩ => ⟨h₁, h₂⟩⟩

theorem QuietLine.quietText {line : Text} (h : QuietLine line) : QuietText (line ++ "\n".toList) :=
  quietText_item h.single.1 h.not_isVector

theorem singleLine_append {text text' : Text} :
    SingleLine (text ++ text') ↔ SingleLine text ∧ SingleLine text' := by
  simp only [SingleLine, List.mem_append, not_or]
  exact and_and_and_comm

/-- A line that starts with a fixed text. -/
theorem quietLine_append {c : Char} {front text : Text} (hc : isSpace c = false ∧ c ≠ 'v')
    (hfront : SingleLine (c :: front)) (htext : SingleLine text) :
    QuietLine (c :: front ++ text) :=
  ⟨singleLine_append.2 ⟨hfront, htext⟩, isVector_strip hc.1 hc.2⟩

theorem IsOperand.singleLine {word : Text} (h : IsOperand word) : SingleLine word :=
  ⟨newline_not_mem h.isWord, h.nul⟩

theorem singleLine_decimal (n : ℕ) : SingleLine (decimal n) := (isOperand_decimal n).singleLine

theorem singleLine_hex (n : ℕ) : SingleLine (hex n) := (isOperand_hex n).singleLine

theorem singleLine_signed (z : ℤ) : SingleLine (signed z) := by
  rw [signed]
  split
  · exact singleLine_append.2 ⟨(by decide : SingleLine ['-']), singleLine_decimal _⟩
  · exact singleLine_decimal _

theorem quietLine_lui {reg : Text} (h : SingleLine reg) (n : ℕ) :
    QuietLine ("lui ".toList ++ reg ++ ", 0x".toList ++ hex n) := by
  rw [List.append_assoc, List.append_assoc]
  refine quietLine_append (by decide) (by decide) ?_
  exact singleLine_append.2 ⟨h, singleLine_append.2 ⟨by decide, singleLine_hex n⟩⟩

theorem quietLine_addi {rd rs imm : Text} (hrd : SingleLine rd) (hrs : SingleLine rs)
    (himm : SingleLine imm) :
    QuietLine ("addi ".toList ++ rd ++ ", ".toList ++ rs ++ ", ".toList ++ imm) := by
  simp only [List.append_assoc]
  refine quietLine_append (by decide) (by decide) ?_
  simp only [singleLine_append]
  exact ⟨hrd, by decide, hrs, by decide, himm⟩

theorem quietLine_address {rs1 scratch : Text} (hrs1 : SingleLine rs1)
    (hscratch : SingleLine scratch) : QuietLine (addressLine rs1 scratch) := by
  unfold addressLine
  rw [List.append_assoc, List.append_assoc]
  exact quietLine_append (by decide) (by decide)
    (singleLine_append.2 ⟨hrs1, singleLine_append.2 ⟨by decide, hscratch⟩⟩)

theorem quietLine_move {rd rs : Text} (hrd : SingleLine rd) (hrs : SingleLine rs) :
    QuietLine (moveLine rd rs) := by
  unfold moveLine
  simp only [List.append_assoc]
  refine quietLine_append (by decide) (by decide) ?_
  simp only [singleLine_append]
  exact ⟨hrd, by decide, hrs, by decide⟩

/-- A fixed text, an operand and another fixed text. -/
theorem quietLine_between {c : Char} {front text back : Text} (hc : isSpace c = false ∧ c ≠ 'v')
    (hfront : SingleLine (c :: front)) (htext : SingleLine text) (hback : SingleLine back) :
    QuietLine (c :: front ++ text ++ back) := by
  rw [List.append_assoc]
  exact quietLine_append hc hfront (singleLine_append.2 ⟨htext, hback⟩)

/-- The parts that emit quiet lines. -/
inductive QuietPart : ∀ α : Type, EngineM G α → Prop where
  | draw : QuietPart _ draw
  | currentPc : QuietPart _ currentPc
  | vectorState : QuietPart _ vectorState
  | strictSandboxing : QuietPart _ strictSandboxing
  | setStrictSandboxing (strict : Bool) : QuietPart _ (setStrictSandboxing strict)
  | addHazardTag (tag : Text) : QuietPart _ (addHazardTag tag)
  | emitInstruction {inst : Text} : QuietLine inst → QuietPart _ (emitInstruction inst)
  | formatLine {inst : Text} (setUp : EngineM G Unit) :
      QuietLine inst → QuietPart _ (emitInstructionFormatBody setUp inst)
  | appendChecked {item : Text} : QuietText item → QuietPart _ (appendChecked item)
  | appendUnchecked {item : Text} : QuietText item → QuietPart _ (appendUnchecked item)

/-- A program composed from quiet parts. -/
abbrev Quiet {α : Type} (m : EngineM G α) : Prop := Composed QuietPart α m

theorem QuietPart.triple {P : List EngineEvent → VectorStateTracker → Prop} (hP : QuietClosed P)
    {α : Type} {m : EngineM G α} (h : QuietPart α m) : Triple (Viewed P) m fun _ => Viewed P := by
  have hitem : ∀ {item : Text}, QuietText item → ∀ events tracker, P events tracker →
      AfterItem P item events tracker :=
    fun hquiet events tracker h => hP _ _ _ _ h hquiet
  cases h with
  | draw => exact silent_draw.triple
  | currentPc | vectorState | strictSandboxing | setStrictSandboxing strict | addHazardTag tag =>
      intro e he a e' hrun
      cases hrun
      exact he
  | emitInstruction hline =>
      rename_i inst
      have hvset := isVset_of_isVector hline.not_isVector
      unfold CoralNpu.emitInstruction
      refine silent_tick.triple.bind fun _ => ?_
      dsimp only
      rw [if_neg (by rw [hvset]; decide)]
      refine triple_vectorState.bind fun tracker => ?_
      rw [hline.not_isVector, cString_of_not_mem hline.single.2]
      refine (Triple.pure fun e he => he.1).bind fun _ =>
        triple_appendChecked (hitem hline.quietText)
  | formatLine setUp hline => exact triple_formatLine hline.not_isVector (hitem hline.quietText)
  | appendChecked hquiet => exact triple_appendChecked (hitem hquiet)
  | appendUnchecked hquiet => exact triple_appendUnchecked (hitem hquiet)

/-- **Quiet programs keep** whatever does not depend on quiet texts. -/
theorem Quiet.triple {P : List EngineEvent → VectorStateTracker → Prop} (hP : QuietClosed P)
    {α : Type} {m : EngineM G α} (h : Quiet m) : Triple (Viewed P) m fun _ => Viewed P :=
  h.invariant fun _ _ hpart => hpart.triple hP

namespace Quiet

theorem emitInstructions {insts : List String} (h : ∀ inst ∈ insts, QuietLine inst.toList) :
    Quiet (emitInstructions insts : EngineM G _) := by
  induction insts with
  | nil => exact .pure _
  | cons inst insts ih =>
      rw [List.forall_mem_cons] at h
      exact .bind (.part (.emitInstruction h.1)) fun _ => ih h.2

theorem formatLine {inst : Text} (h : QuietLine inst) :
    Quiet (emitInstructionFormat inst : EngineM G _) :=
  .part (.formatLine _ h)

theorem emitLi {reg : Text} (h : SingleLine reg) (val : BitVec 32) :
    Quiet (emitLi reg val : EngineM G _) :=
  .bind (.part (.formatLine _ (quietLine_lui h _))) fun _ =>
    .ite (.part (.formatLine _ (quietLine_addi h h (singleLine_signed _)))) (.pure _)

theorem emitConstant {reg : String} (h : SingleLine reg.toList) (value : BitVec 32) :
    Quiet (emitConstant reg value : EngineM G _) :=
  .bind (formatLine (quietLine_lui h _)) fun _ =>
    .ite (formatLine (quietLine_addi h h (singleLine_signed _))) (.pure _)

theorem forM {α : Type} {xs : List α} {g : α → EngineM G Unit} (h : ∀ x ∈ xs, Quiet (g x)) :
    Quiet (xs.forM g) := by
  induction xs with
  | nil => exact .pure _
  | cons x xs ih =>
      rw [List.forall_mem_cons] at h
      exact .bind h.1 fun _ => ih h.2

theorem emitSafePointerInit {regs : List Text} (h : ∀ reg ∈ regs, SingleLine reg) :
    Quiet (emitSafePointerInit regs : EngineM G _) :=
  forM fun reg hreg => .bind (.part .draw) fun _ => emitLi (h reg hreg) _

/-- A fixed text and a printed operand. -/
theorem operandLine {c : Char} {front operand : Text} (hc : isSpace c = false ∧ c ≠ 'v')
    (hfront : SingleLine (c :: front)) (hoperand : IsOperand operand) :
    Quiet (emitInstructionFormat (c :: front ++ operand) : EngineM G _) :=
  formatLine (quietLine_append hc hfront hoperand.singleLine)

theorem emitTrapHandler : Quiet (emitTrapHandler : EngineM G _) :=
  .bind (emitInstructions (by decide)) fun _ => .bind (.part .currentPc) fun _ =>
    .bind (operandLine (by decide) (by decide) (isOperand_hexAlt _)) fun _ =>
    .bind (emitInstructions (by decide)) fun _ => .bind (.part .currentPc) fun _ =>
    .bind (operandLine (by decide) (by decide) (isOperand_hexAlt _)) fun _ =>
    emitInstructions (by decide)

theorem addiZero (n : ℕ) :
    Quiet (emitInstructionFormat ("addi t0, zero, ".toList ++ decimal n) : EngineM G _) :=
  operandLine (by decide) (by decide) (isOperand_decimal _)

theorem instruction {inst : Text} (h : QuietLine inst) :
    Quiet (emitInstruction inst : EngineM G _) :=
  .part (.emitInstruction h)

theorem setupTrapHandler (trapAddr : BitVec 32) :
    Quiet (setupTrapHandler trapAddr : EngineM G _) :=
  .bind (addiZero _) fun _ => instruction (by decide)

theorem emitFillLoop : Quiet (emitFillLoop : EngineM G _) :=
  .bind (emitLi (by decide) _) fun _ => .bind (.part .draw) fun _ =>
    .bind (emitLi (by decide) _) fun _ => .bind (emitLi (by decide) _) fun _ =>
    .bind (.part .currentPc) fun _ => .bind (.part (.appendUnchecked (by decide))) fun _ =>
    .bind (emitInstructions (by decide)) fun _ =>
    operandLine (by decide) (by decide) (isOperand_hex _)

theorem emitRegisterInit : Quiet (emitRegisterInit : EngineM G _) := by
  have hregister : ∀ c : Char, SingleLine [c] → ∀ i, SingleLine ([c] ++ decimal i) :=
    fun c hc i => singleLine_append.2 ⟨hc, singleLine_decimal i⟩
  have hdraw : ∀ {reg : Text}, SingleLine reg → Quiet (do
      CoralNpu.emitLi reg ((← CoralNpu.draw).setWidth 32) : EngineM G _) :=
    fun hreg => .bind (.part .draw) fun _ => emitLi hreg _
  unfold CoralNpu.emitRegisterInit
  refine .bind (emitLi (by decide) _) fun _ => .bind (instruction (by decide)) fun _ =>
    .bind (.forM fun i => hdraw (hregister 'x' (by decide) i)) fun _ => .bind (.part .draw) fun _ =>
    .bind (.part .draw) fun _ => ?_
  refine .bind (addiZero _) fun _ => .bind (instruction (by decide)) fun _ => ?_
  -- the control registers
  refine .bind (.part .draw) fun _ => .bind (emitLi (by decide) _) fun _ =>
    .bind (instruction (by decide)) fun _ => ?_
  refine .bind (.part .draw) fun _ => .bind (emitLi (by decide) _) fun _ =>
    .bind (instruction (by decide)) fun _ => ?_
  refine .bind (.part .draw) fun _ => .bind (emitLi (by decide) _) fun _ =>
    .bind (instruction (by decide)) fun _ => ?_
  refine .bind (.part .draw) fun _ => .bind (addiZero _) fun _ =>
    .bind (instruction (by decide)) fun _ => ?_
  refine .bind (.part .draw) fun _ => .bind (addiZero _) fun _ =>
    .bind (instruction (by decide)) fun _ => .bind (instruction (by decide)) fun _ => ?_
  exact .forM fun i => .bind (.part .draw) fun _ => .bind (emitLi (by decide) _) fun _ =>
    formatLine (quietLine_between (by decide) (by decide) (singleLine_decimal i) (by decide))

theorem drawDataAddress : Quiet (drawDataAddress : EngineM G _) :=
  .bind (.part .draw) fun _ => .pure _

/-- The addresses at the end of the preamble. -/
theorem emitPointers : Quiet (do
    CoralNpu.emitLi "t0".toList (← CoralNpu.drawDataAddress)
    CoralNpu.emitLi "t1".toList (← CoralNpu.drawDataAddress)
    CoralNpu.emitLi "t2".toList (← CoralNpu.drawDataAddress)
    CoralNpu.emitLi "t3".toList (← CoralNpu.drawDataAddress)
    CoralNpu.emitLi "sp".toList (BitVec.ofNat 32 (kDefaultRwRegionStart + kDefaultRwRegionLength)) :
      EngineM G _) :=
  .bind drawDataAddress fun _ => .bind (emitLi (by decide) _) fun _ => .bind drawDataAddress
    fun _ => .bind (emitLi (by decide) _) fun _ => .bind drawDataAddress fun _ =>
    .bind (emitLi (by decide) _) fun _ => .bind drawDataAddress fun _ =>
    .bind (emitLi (by decide) _) fun _ => emitLi (by decide) _

theorem emitFpPoisonPills : Quiet (emitFpPoisonPills : EngineM G _) :=
  .bind (.part (.appendChecked (by decide))) fun _ => .bind (emitLi (by decide) _) fun _ =>
    .bind (instruction (by decide)) fun _ => .bind (emitLi (by decide) _) fun _ =>
    .bind (instruction (by decide)) fun _ => .bind (emitLi (by decide) _) fun _ =>
    emitInstructions (by decide)

theorem emitReservedClamp : Quiet (emitReservedClamp : EngineM G _) :=
  .bind (operandLine (by decide) (by decide) (isOperand_decimal _)) fun _ =>
    .bind (emitInstructions (by decide)) fun _ =>
    .bind (operandLine (by decide) (by decide) (isOperand_decimal _)) fun _ =>
    emitInstructions (by decide)

theorem emitDynamicMask (offsetSize : BitVec 32) :
    Quiet (emitDynamicMask offsetSize : EngineM G _) := by
  refine .bind (.part .strictSandboxing) fun _ => .ite ?_ (.pure _)
  exact .bind (emitInstructions (by decide)) fun _ => .bind (emitConstant (by decide) _) fun _ =>
    .bind (instruction (by decide)) fun _ => .bind (emitConstant (by decide) _) fun _ =>
    .bind (emitInstructions (by decide)) fun _ => .bind (.ite emitReservedClamp (.pure _)) fun _ =>
    emitInstructions (by decide)

theorem emitLoad {rd rs1 : Text} (hrd : SingleLine rd) (hrs1 : SingleLine rs1) (imm : BitVec 32) :
    Quiet (emitLoad rd rs1 imm : EngineM G _) := by
  have hscratch : ∀ scratch ∈ ["t1", "t6"], SingleLine scratch.toList := by decide
  have hchosen := hscratch (if rs1 = "t6".toList then "t1" else "t6") (by split <;> decide)
  exact .bind (emitConstant hchosen _) fun _ => .bind (formatLine (quietLine_address hrs1 hchosen))
    fun _ => .bind (emitDynamicMask _) fun _ =>
    formatLine (quietLine_between (by decide) (by decide) hrd (by decide))

theorem emitStore {rs2 rs1 : Text} (hrs2 : SingleLine rs2) (hrs1 : SingleLine rs1)
    (imm : BitVec 32) : Quiet (emitStore rs2 rs1 imm : EngineM G _) := by
  have hscratch : ∀ scratch ∈ ["t1", "t2", "t3"], SingleLine scratch.toList := by decide
  have hchosen := hscratch (if rs1 = "t1".toList ∨ rs2 = "t1".toList then
    if rs1 = "t2".toList ∨ rs2 = "t2".toList then "t3" else "t2" else "t1") (by
      split
      · split <;> decide
      · decide)
  exact .bind (formatLine (quietLine_lui hchosen _)) fun _ =>
    .bind (formatLine (quietLine_addi hchosen hchosen (singleLine_signed _))) fun _ =>
    .bind (formatLine (quietLine_address hrs1 hchosen)) fun _ =>
    .bind (formatLine (quietLine_move (by decide) hrs2)) fun _ => .bind (emitDynamicMask _) fun _ =>
    formatLine (by decide)

end Quiet

end CoralNpu
