/-
**The tracker of the vector configuration.**

The engine relies on its record of the vector configuration for register groups and for the lines in
front of a vector instruction.  `EmitInstruction` and `EmitInstructionFormat` take a
`vsetvli zero, zero` line without looking at the configuration it names, and every line that keeps
the vector length makes the record forget that the length may be zero; apart from that the record
agrees with the text.

Main definitions:

* `CoralNpu.EngineCall.KeepsTrack` — the calls that do not make the record drift from the text;
* `CoralNpu.KeepsTrackStep` — one such call.

Main results:

* `CoralNpu.faithful_of_keepsTrackStep` — one such call keeps events and tracker faithful;
* `CoralNpu.neverDrifts_of_keepsTrack` — **in every run of such calls the record never drifts**.
-/

import CoralNpu.IsgVectorView

set_option relaxedAutoImplicit false
set_option autoImplicit false

namespace CoralNpu

open AsciiText PartialState

variable {G : Prng}

/-! ### Lines that set the vector configuration -/

section Vset

variable (m : VectorMachine) {P : List EngineEvent → VectorStateTracker → Prop}

/-- A constant in a register. -/
theorem triple_emitLi (hP : QuietClosed P) {reg : Text} (hreg : IsOperandWord reg)
    (hzero : isZeroRegister reg = false) (val : BitVec 32) :
    Triple (Viewed P) (emitLi reg val : EngineM G _) fun _ =>
      Viewed fun events tracker => P events tracker ∧ m.registers (linesOf events) reg = val := by
  have hsingle : SingleLine reg := ⟨newline_not_mem hreg.1, hreg.2⟩
  have hlui := quietLine_lui hsingle ((val + 0x800) >>> 12).toNat
  have haddi := quietLine_addi hsingle hsingle
    (singleLine_signed (val - (val + 0x800) >>> 12 <<< 12).toInt)
  -- `lui` sets the upper part
  have hupper : Triple (Viewed P) (emitInstructionFormatBody failure ("lui ".toList ++ reg ++
      ", 0x".toList ++ hex ((val + 0x800) >>> 12).toNat) : EngineM G _) fun _ => Viewed fun events
        tracker => P events tracker ∧
          m.registers (linesOf events) reg = (val + 0x800) >>> 12 <<< 12 := by
    refine triple_formatLine hlui.not_isVector fun events tracker hevents => ?_
    refine ⟨hP _ _ _ _ hevents hlui.quietText, ?_⟩
    rw [linesOf_item, lines_item hlui.single.1 (by simp), m.lui _ _ _ _ _ (tokens_lui hreg.1 _)
      (parseInt_hex _) hzero, BitVec.ofInt_natCast, BitVec.ofNat_toNat, BitVec.setWidth_eq]
  refine hupper.bind fun _ => ?_
  split
  · -- `addi` adds the lower part
    refine triple_formatLine haddi.not_isVector fun events tracker hevents => ?_
    refine ⟨hP _ _ _ _ hevents.1 haddi.quietText, ?_⟩
    rw [linesOf_item, lines_item haddi.single.1 (List.cons_ne_nil _ _), m.addi _ _ _ _ _ _
      (tokens_addi hreg.1 hreg.1 (isWord_signed _)) (parseInt_signed _) hzero,
      if_neg (by simp [hzero]), hevents.2, BitVec.ofInt_toInt, BitVec.add_comm,
      BitVec.sub_add_cancel]
  · rename_i hnone
    rw [not_or, not_not] at hnone
    refine Triple.pure fun e he => ⟨he.1, ?_⟩
    have hlower : val - (val + 0x800) >>> 12 <<< 12 = 0#32 := BitVec.eq_of_toInt_eq hnone.1
    have hval := BitVec.sub_add_cancel val ((val + 0x800) >>> 12 <<< 12)
    rw [hlower, BitVec.zero_add] at hval
    exact he.2.trans hval

/-- A `vsetvli` line, and any vector length the tracker may take for it. -/
theorem triple_emitVsetvli {rd rs1 : Text} (hrd : IsOperandWord rd) (hrs1 : IsOperandWord rs1)
    {sew : VectorSew} {lmul : VectorLmul} {ta ma : Bool} (vl : BitVec 32)
    (h : ∀ events tracker, P events tracker → Faithful m events tracker ∧ m.vlmax sew lmul ≠ 0 ∧
      (vl ≠ 0 → (m.setsVl (linesOf events) (vsetText "vsetvli".toList rd rs1 sew lmul ta ma)).or
        (m.vlAfter (linesOf events)) ≠ some 0)) :
    Triple (Viewed P) (emitVsetvli rd rs1 sew lmul ta ma : EngineM G _) fun _ =>
      Viewed fun events tracker => tracker = ⟨unknownVl, sew, lmul, true, ta, ma⟩ ∧
        Faithful m events ⟨vl, sew, lmul, true, ta, ma⟩ := by
  refine triple_emitVsetvliLine fun events tracker hevents => ⟨rfl, ?_⟩
  obtain ⟨hfaithful, hsupported, hnonzero⟩ := h events tracker hevents
  rw [vsetvliLine_eq hrd.2 hrs1.2]
  exact Faithful.vset hfaithful.neverDrifts
    (newline_not_mem_vsetText (by decide) hrd.1 hrs1.1 sew lmul ta ma)
    (isVset_vsetText (by decide) (by decide) ..) (vsetOf_vsetvli hrd.1 hrs1.1 sew lmul ta ma)
    hsupported rfl rfl hnonzero

/-- The vector length a `vsetvli` line leaves is not zero. -/
def AvlNonzero (m : VectorMachine) (rd rs1 : Text) (events : List EngineEvent) : Prop :=
  match avlOfRegisters rd rs1 with
  | .register reg => m.registers (linesOf events) reg ≠ 0
  | .keep => m.vlAfter (linesOf events) ≠ some 0
  | _ => True

theorem avlNonzero_register {rd rs1 reg : Text} (h : avlOfRegisters rd rs1 = .register reg)
    {events : List EngineEvent} (hvl : m.registers (linesOf events) reg ≠ 0) :
    AvlNonzero m rd rs1 events := by
  rw [AvlNonzero, h]
  exact hvl

theorem avlNonzero_keep {rd rs1 : Text} (h : avlOfRegisters rd rs1 = .keep)
    {events : List EngineEvent} (hvl : m.vlAfter (linesOf events) ≠ some 0) :
    AvlNonzero m rd rs1 events := by
  rw [AvlNonzero, h]
  exact hvl

theorem setsVl_ne_zero {rd rs1 : Text} (hrd : IsWord rd) (hrs1 : IsWord rs1) {sew : VectorSew}
    {lmul : VectorLmul} {ta ma : Bool} (hsupported : m.vlmax sew lmul ≠ 0)
    {events : List EngineEvent} (h : AvlNonzero m rd rs1 events) :
    (m.setsVl (linesOf events) (vsetText "vsetvli".toList rd rs1 sew lmul ta ma)).or
      (m.vlAfter (linesOf events)) ≠ some 0 := by
  rw [m.setsVl_of_vsetOf (vsetOf_vsetvli hrd hrs1 sew lmul ta ma) hsupported]
  rw [AvlNonzero] at h
  cases havl : avlOfRegisters rd rs1 with
  | keep => rw [havl] at h; exact h
  | maximal => simpa [havl] using hsupported
  | register reg =>
      rw [havl] at h
      have hpos : (m.registers (linesOf events) reg).toNat ≠ 0 :=
        fun htoNat => h (BitVec.eq_of_toNat_eq htoNat)
      simp only [Option.some_or, ne_eq, Option.some.injEq]
      omega
  | immediate n =>
      rw [avlOfRegisters] at havl
      split at havl
      · split at havl <;> cases havl
      · cases havl

/-- How the two emitters print the first of the set-up lines. -/
def PrintsItem (append : Text → EngineM G Unit) : Prop :=
  ∀ (P Q : List EngineEvent → VectorStateTracker → Prop) (item : Text),
    (∀ events tracker, P events tracker → AfterItem Q item events tracker) →
      Triple (Viewed P) (append item) fun _ => Viewed Q

/-- A known configuration. -/
abbrev Configured (m : VectorMachine) (events : List EngineEvent) (tracker : VectorStateTracker) :
    Prop := Faithful m events tracker ∧ tracker.configured = true

theorem quietClosed_configured : QuietClosed (Configured m) :=
  fun _ _ _ tracker' h hquiet => ⟨h.1.quiet hquiet tracker', h.2⟩

/-- The line that puts a vector length into `t3`. -/
theorem addiZero_eq (n : ℕ) : "addi t3, zero, ".toList ++ decimal n = "addi ".toList ++
    "t3".toList ++ ", ".toList ++ "zero".toList ++ ", ".toList ++ decimal n := by
  simp

/-- **The set-up lines** configure the vector unit as tracked. -/
theorem triple_vectorSetUp {append : Text → EngineM G Unit} (happend : PrintsItem append) :
    Triple (Viewed (Faithful m)) (vectorSetUp append) fun _ => Viewed (Configured m) := by
  unfold vectorSetUp
  refine silent_draw.triple.bind fun value => ?_
  have hvlVal : BitVec.ofNat 32 (value.toNat % 32 + 1) ≠ 0 := by
    intro h
    have htoNat := congrArg BitVec.toNat h
    rw [BitVec.toNat_ofNat, Nat.mod_eq_of_lt (by omega)] at htoNat
    simp at htoNat
  generalize value.toNat % 32 + 1 = vlVal at hvlVal
  have hquiet := quietLine_addi (by decide : SingleLine "t3".toList)
    (by decide : SingleLine "zero".toList) (singleLine_decimal vlVal)
  -- the vector length is in `t3`
  have hline : Triple (Viewed (Faithful m)) (append ("addi t3, zero, ".toList ++ decimal vlVal ++
      "\n".toList)) fun _ => Viewed fun events tracker => Faithful m events tracker ∧
        m.registers (linesOf events) "t3".toList = BitVec.ofNat 32 vlVal := by
    refine happend _ _ _ fun events tracker hevents => ?_
    rw [addiZero_eq]
    refine ⟨hevents.quiet hquiet.quietText _, ?_⟩
    rw [linesOf_item, lines_item hquiet.single.1 (by simp), m.addi _ _ _ _ _ _
      (tokens_addi (by decide) (by decide) (isWord_decimal _)) (parseInt_decimal _) (by decide),
      if_pos (by decide), BitVec.ofInt_natCast]
    exact BitVec.zero_add _
  refine hline.bind fun _ => triple_vectorState.bind fun tracker => ?_
  -- and the configuration is the tracked one
  have hvset : Triple (Viewed fun events tracker' => (Faithful m events tracker' ∧
      m.registers (linesOf events) "t3".toList = BitVec.ofNat 32 vlVal) ∧ tracker' = tracker)
      (emitVsetvli "t2".toList "t3".toList tracker.sew tracker.lmul true true : EngineM G _) _ :=
    triple_emitVsetvli m (by decide) (by decide) (BitVec.ofNat 32 vlVal)
      fun events tracker' hevents => by
        obtain ⟨⟨hfaithful, hregister⟩, rfl⟩ := hevents
        refine ⟨hfaithful, hfaithful.supported, fun _ =>
          setsVl_ne_zero m (by decide) (by decide) hfaithful.supported ?_⟩
        exact avlNonzero_register m (by decide : _ = AvlSource.register "t3".toList)
          (by rw [hregister]; exact hvlVal)
  refine hvset.bind fun _ =>
    (triple_setVl (Q := Configured m) fun events tracker' hevents => ?_).bind
    fun _ => (Quiet.emitSafePointerInit (by decide)).triple (quietClosed_configured m)
  obtain ⟨rfl, hfaithful⟩ := hevents
  exact ⟨hfaithful, rfl⟩

/-! ### Instructions -/

theorem configured_of_not_needsSetUp {tracker : VectorStateTracker}
    (h : ¬ needsSetUp tracker = true) : tracker.configured = true := by
  cases hconfigured : tracker.configured with
  | true => rfl
  | false => exact absurd (by simp [needsSetUp, hconfigured]) h

/-- Quiet programs keep events and tracker faithful. -/
theorem triple_quiet {α : Type} {p : EngineM G α} (hp : Quiet p) :
    Triple (Viewed (Faithful m)) p fun _ => Viewed (Faithful m) :=
  hp.triple (quietClosed_faithful m)

/-- The instruction with the lines that may come first, on a line that is no `vset`. -/
theorem triple_emitInstruction {inst : Text} (hsingle : SingleLine inst)
    (hvset : isVset (strip inst) = false) :
    Triple (Viewed (Faithful m)) (emitInstruction inst : EngineM G _)
      fun _ => Viewed (Faithful m) := by
  unfold emitInstruction
  refine silent_tick.triple.bind fun _ => ?_
  dsimp only
  rw [if_neg (by rw [hvset]; decide), cString_of_not_mem hsingle.2]
  refine triple_vectorState.bind fun tracker => ?_
  by_cases hvector : isVector (strip inst) = true
  · -- a vector instruction is emitted with a known configuration
    have hready : Triple (Viewed fun events tracker' => Faithful m events tracker' ∧
        tracker' = tracker) (if isVector (strip inst) && needsSetUp tracker then
          vectorSetUp appendChecked else pure () : EngineM G _) fun _ => Viewed (Configured m) := by
      rw [hvector, Bool.true_and]
      split
      · refine Triple.weaken (triple_vectorSetUp m fun _ _ _ => triple_appendChecked)
          (fun _ he => he.1) fun _ _ he => he
      · rename_i hsetUp
        refine Triple.pure fun e he => ⟨he.1, ?_⟩
        obtain ⟨-, rfl⟩ := he
        exact configured_of_not_needsSetUp hsetUp
    exact hready.bind fun _ => triple_appendChecked fun events tracker' hevents =>
      hevents.1.vector hsingle.1 hvset hevents.2
  · have hquiet : QuietLine inst := ⟨hsingle, by simpa using hvector⟩
    rw [hquiet.not_isVector]
    exact (Triple.pure fun e he => he.1).bind fun _ => triple_appendChecked
      fun events tracker' hevents => hevents.quiet hquiet.quietText _

/-- `EmitInstructionFormat` aborts on a `vset`, and otherwise keeps track. -/
theorem triple_emitInstructionFormat {inst : Text} (hsingle : SingleLine inst)
    (hvset : isVset (strip inst) = false) :
    Triple (Viewed (Faithful m)) (emitInstructionFormat inst : EngineM G _)
      fun _ => Viewed (Faithful m) := by
  by_cases hvector : isVector (strip inst) = true
  · -- a vector instruction is emitted with a known configuration
    have hplace : Triple (Viewed (Faithful m))
        (placeInstruction (vectorSetUp appendUnchecked) inst :
        EngineM G _) fun _ => Viewed (Configured m) := by
      unfold placeInstruction
      dsimp only
      rw [if_neg (by rw [hvset]; decide), if_pos hvector]
      refine triple_vectorState.bind fun tracker => ?_
      split
      · refine Triple.bind (Triple.weaken (triple_vectorSetUp m fun _ _ _ =>
          triple_appendUnchecked) (fun _ he => he.1) fun _ _ he => he) fun _ => ?_
        refine (silent_noteUnchecked _).triple.bind fun _ =>
          (triple_print inst).bind fun _ => (silent_advance _).triple
      · rename_i hsetUp
        refine Triple.weaken (silent_advance inst.length).triple (fun e he => ?_) fun _ _ he => he
        obtain ⟨hfaithful, rfl⟩ := he
        exact ⟨hfaithful, configured_of_not_needsSetUp hsetUp⟩
    exact triple_emitInstructionFormatBody hplace fun events tracker hevents =>
      hevents.1.vector hsingle.1 hvset hevents.2
  · have hquiet : QuietLine inst := ⟨hsingle, by simpa using hvector⟩
    exact triple_quiet m (.formatLine hquiet)

/-- A raw line that keeps the vector length, and names the tracked configuration. -/
def NamesTracked (inst : Text) (tracker : VectorStateTracker) : Prop :=
  ∃ vset, vsetOf inst = some vset ∧ vset.avl = .keep ∧ vset.sew = tracker.sew ∧
    vset.lmul = tracker.lmul

/-- What a raw `vset` line does to events and tracker. -/
theorem faithful_rawVset {events : List EngineEvent} {tracker tracker' : VectorStateTracker}
    {inst : Text} (h : Faithful m events tracker) (hsingle : SingleLine inst)
    (hvset : isVset (strip inst) = true) (hnames : NamesTracked inst tracker)
    (hkept : m.vlAfter (linesOf events) ≠ some 0) :
    Faithful m (events ++ [.item (inst ++ "\n".toList) tracker'])
      { tracker with configured := true, vl := unknownVl } := by
  obtain ⟨vset, hread, havl, hsew, hlmul⟩ := hnames
  have hsupported : m.vlmax vset.sew vset.lmul ≠ 0 := by
    rw [hsew, hlmul]
    exact h.supported
  refine Faithful.vset h.neverDrifts hsingle.1 hvset hread hsupported hsew hlmul fun _ => ?_
  rw [m.setsVl_of_vsetOf hread hsupported, havl]
  exact hkept

/-- A raw `vset` line names the tracked configuration, and the vector length it keeps is not
zero. -/
def RawVsetAgrees (m : VectorMachine) (inst : Text) (events : List EngineEvent)
    (tracker : VectorStateTracker) : Prop :=
  isVset (strip inst) = true → keepsVl (strip inst) = true →
    NamesTracked inst tracker ∧ m.vlAfter (linesOf events) ≠ some 0

/-- What the calls with a raw line ask of the state. -/
abbrev RawReady (m : VectorMachine) (inst : Text) (events : List EngineEvent)
    (tracker : VectorStateTracker) : Prop :=
  Faithful m events tracker ∧ RawVsetAgrees m inst events tracker

theorem triple_setVlUnknown {P Q : List EngineEvent → VectorStateTracker → Prop}
    (h : ∀ events tracker, P events tracker →
      Q events { tracker with configured := true, vl := unknownVl }) :
    Triple (Viewed P) (setVlUnknown : EngineM G _) fun _ => Viewed Q := by
  intro e hP u e' hrun
  cases hrun
  exact h _ _ hP

theorem triple_emitInstruction_raw {inst : Text} (hsingle : SingleLine inst) :
    Triple (Viewed (RawReady m inst)) (emitInstruction inst : EngineM G _)
      fun _ => Viewed (Faithful m) := by
  cases hvset : isVset (strip inst) with
  | false =>
    exact (triple_emitInstruction m hsingle hvset).weaken (fun _ he => he.1) fun _ _ he => he
  | true =>
      unfold emitInstruction
      refine silent_tick.triple.bind fun _ => ?_
      dsimp only
      rw [if_pos hvset, cString_of_not_mem hsingle.2]
      split
      · rename_i hkeeps
        refine (triple_setVlUnknown (Q := fun events tracker => ∀ tracker',
          Faithful m (events ++ [.item (inst ++ "\n".toList) tracker']) tracker) ?_).bind fun _ =>
          triple_appendChecked fun events tracker hevents => hevents tracker
        intro events tracker ⟨hfaithful, hraw⟩ tracker'
        obtain ⟨hnames, hkept⟩ := hraw hvset hkeeps
        exact faithful_rawVset m hfaithful hsingle hvset hnames hkept
      · exact Triple.pure fun e he => he.1

theorem triple_emitInstructionFormat_raw {inst : Text} (hsingle : SingleLine inst) :
    Triple (Viewed (RawReady m inst)) (emitInstructionFormat inst : EngineM G _)
      fun _ => Viewed (Faithful m) := by
  cases hvset : isVset (strip inst) with
  | false =>
      exact (triple_emitInstructionFormat m hsingle hvset).weaken
        (fun _ he => he.1) fun _ _ he => he
  | true =>
      have hplace : Triple (Viewed (RawReady m inst)) (placeInstruction
          (vectorSetUp appendUnchecked) inst : EngineM G _) fun _ => Viewed fun events tracker =>
            ∀ tracker', Faithful m (events ++ [.item (inst ++ "\n".toList) tracker']) tracker := by
        unfold placeInstruction
        dsimp only
        rw [if_pos hvset]
        split
        · rename_i hkeeps
          refine (triple_setVlUnknown ?_).bind fun _ => (silent_advance _).triple
          intro events tracker ⟨hfaithful, hraw⟩ tracker'
          obtain ⟨hnames, hkept⟩ := hraw hvset hkeeps
          exact faithful_rawVset m hfaithful hsingle hvset hnames hkept
        · exact fun e _ a e' hrun => absurd hrun (Option.some_ne_none _).symm
      exact triple_emitInstructionFormatBody hplace fun events tracker hevents => hevents tracker

/-! ### Longer pieces -/

theorem triple_emitVsetivli {rd : Text} (hrd : IsOperandWord rd) {uimm : BitVec 32}
    {sew : VectorSew} {lmul : VectorLmul} {ta ma : Bool} (hsupported : m.vlmax sew lmul ≠ 0) :
    Triple (Viewed (Faithful m)) (emitVsetivli rd uimm sew lmul ta ma : EngineM G _)
      fun _ => Viewed (Faithful m) := by
  refine (triple_setVectorState (Q := fun events tracker => ∀ tracker', Faithful m (events ++
    [.item (vsetivliLine rd uimm sew lmul ta ma) tracker']) tracker) ?_).bind fun _ =>
    triple_appendChecked fun events tracker hevents => hevents tracker
  intro events tracker hfaithful tracker'
  rw [vsetivliLine_eq hrd.2]
  have hread := vsetOf_vsetivli hrd.1 uimm sew lmul ta ma
  refine Faithful.vset hfaithful.neverDrifts
    (newline_not_mem_vsetText (by decide) hrd.1 (isWord_decimal _) sew lmul ta ma)
    (isVset_vsetText (by decide) (by decide) ..) hread hsupported rfl rfl fun hvl => ?_
  rw [m.setsVl_of_vsetOf hread hsupported]
  simp only [Option.some_or, ne_eq, Option.some.injEq]
  have hpos : uimm.toNat ≠ 0 := fun htoNat => hvl (BitVec.eq_of_toNat_eq htoNat)
  omega

/-- `EmitVsetvli`, with a vector length that is not zero. -/
theorem triple_emitVsetvli_nonzero {P : List EngineEvent → VectorStateTracker → Prop}
    {rd rs1 : Text} (hrd : IsOperandWord rd) (hrs1 : IsOperandWord rs1) {sew : VectorSew}
    {lmul : VectorLmul} {ta ma : Bool} (h : ∀ events tracker, P events tracker →
      Faithful m events tracker ∧ m.vlmax sew lmul ≠ 0 ∧ AvlNonzero m rd rs1 events) :
    Triple (Viewed P) (emitVsetvli rd rs1 sew lmul ta ma : EngineM G _)
      fun _ => Viewed (Faithful m) := by
  refine (triple_emitVsetvli m hrd hrs1 unknownVl fun events tracker hevents => ?_).weaken
    (fun _ he => he) ?_
  · obtain ⟨hfaithful, hsupported, hnonzero⟩ := h events tracker hevents
    exact ⟨hfaithful, hsupported, fun _ => setsVl_ne_zero m hrd.1 hrs1.1 hsupported hnonzero⟩
  · rintro _ e ⟨htracker, hfaithful⟩
    rw [Viewed, htracker]
    exact hfaithful

/-- `EmitVtype`. -/
theorem triple_emitVtype {sew lmul : ℤ} {vl : BitVec 32}
    (hsupported : ∀ sew' lmul', sewOfInt sew = some sew' → lmulOfInt lmul = some lmul' →
      m.vlmax sew' lmul' ≠ 0) :
    Triple (Viewed fun events tracker => Faithful m events tracker ∧
        (vl = -1 → m.vlAfter (linesOf events) ≠ some 0))
      (emitVtype sew lmul vl : EngineM G _) fun _ => Viewed (Faithful m) := by
  unfold emitVtype
  split
  · rename_i sew' lmul' hsew hlmul
    have hconfig := hsupported sew' lmul' hsew hlmul
    split
    · -- the vector length is in `t3`
      refine Triple.weaken (Triple.bind (triple_emitLi m (quietClosed_faithful m) (by decide)
        (by decide) vl) fun _ => (triple_emitVsetvli m (by decide) (by decide) vl fun events tracker
          hevents => ⟨hevents.1, hconfig,
            fun hvl => setsVl_ne_zero m (by decide) (by decide) hconfig
            ?_⟩).bind fun _ => triple_setVl fun events tracker hevents => ?_) (fun _ he => he.1)
        fun _ _ he => he
      · exact avlNonzero_register m (by decide : _ = AvlSource.register "t3".toList)
          (by rw [hevents.2]; exact hvl)
      · obtain ⟨rfl, hfaithful⟩ := hevents
        exact hfaithful
    · rename_i hkeeps
      rw [not_not] at hkeeps
      refine triple_emitVsetvli_nonzero m (by decide) (by decide) fun events tracker hevents =>
        ⟨hevents.1, hconfig, avlNonzero_keep m (by decide) (hevents.2 hkeeps)⟩
  · exact fun e _ a e' hrun => absurd hrun (Option.some_ne_none _).symm

/-- The `vset` line in front of a memory access keeps a vector length that is not zero. -/
def EmulKeepsVl (m : VectorMachine) (events : List EngineEvent) (tracker : VectorStateTracker) :
    Prop :=
  emulRatio tracker.sew tracker.lmul 32 > 8 * 16 →
    m.vlmax .e32 .m8 ≠ 0 ∧ m.vlAfter (linesOf events) ≠ some 0

/-- What an access asks of the state. -/
abbrev EmulReady (m : VectorMachine) (events : List EngineEvent) (tracker : VectorStateTracker) :
    Prop := Faithful m events tracker ∧ EmulKeepsVl m events tracker

theorem quietClosed_emulReady : QuietClosed (EmulReady m) := by
  intro events tracker text tracker' h hquiet
  refine ⟨h.1.quiet hquiet tracker', fun hratio => ⟨(h.2 hratio).1, ?_⟩⟩
  rw [linesOf_item, vlAfter_append_quiet m hquiet]
  exact (h.2 hratio).2

/-- `CalculateEmul`. -/
theorem triple_calculateEmul (tracker : VectorStateTracker) :
    Triple (Viewed fun events tracker' => EmulReady m events tracker' ∧ tracker' = tracker)
      (calculateEmul tracker.sew tracker.lmul 32 : EngineM G _) fun _ => Viewed (Faithful m) := by
  unfold calculateEmul
  refine silent_draw.triple.bind fun value => ?_
  split
  · exact Triple.pure fun e he => he.1.1
  split
  · rename_i hratio
    refine (triple_emitVsetvli_nonzero m (by decide) (by decide) fun events tracker' hevents =>
      ?_).bind fun _ => Triple.pure fun e he => he
    obtain ⟨⟨hfaithful, hemul⟩, rfl⟩ := hevents
    obtain ⟨hsupported, hvl⟩ := hemul hratio
    exact ⟨hfaithful, hsupported, avlNonzero_keep m (by decide) hvl⟩
  · exact Triple.pure fun e he => he.1.1

/-- `AlignVectorReg` returns one line. -/
theorem triple_alignVectorReg {P : List EngineEvent → VectorStateTracker → Prop} {reg : Text}
    (hreg : SingleLine reg) (lmul : VectorLmul) :
    Triple (Viewed P) (alignVectorReg reg lmul : EngineM G _) fun aligned e =>
      Viewed P e ∧ SingleLine aligned := by
  rw [alignVectorReg.eq_def]
  split
  · split
    · exact Triple.pure fun e he => ⟨he, hreg⟩
    · have hdraw : ∀ regNum, Silent (drawRegNum regNum : EngineM G _) := by
        intro regNum e a e' hrun
        obtain ⟨value, e₁, hfirst, hrun⟩ := run_bind_eq_some.1 hrun
        cases hfirst
        split at hrun
        · obtain ⟨value', e₂, hsecond, hrun⟩ := run_bind_eq_some.1 hrun
          cases hsecond
          cases hrun
          exact ⟨rfl, rfl⟩
        · cases hrun
          exact ⟨rfl, rfl⟩
      exact (hdraw _).triple.bind fun regNum => Triple.pure fun e he =>
        ⟨he, singleLine_append.2 ⟨(by decide : SingleLine ['v']), singleLine_decimal _⟩⟩
  · exact Triple.pure fun e he => ⟨he, hreg⟩

/-- A result that is one line. -/
theorem triple_bind_singleLine {α : Type} {P Q : List EngineEvent → VectorStateTracker → Prop}
    {p : EngineM G Text} {f : Text → EngineM G α} {post : α → IsgEngine G → Prop}
    (hp : Triple (Viewed P) p fun text e => Viewed Q e ∧ SingleLine text)
    (hf : ∀ text, SingleLine text → Triple (Viewed Q) (f text) post) :
    Triple (Viewed P) (p >>= f) post :=
  hp.bind fun text e he => hf text he.2 e he.1

theorem triple_chooseTempVs2 {P : List EngineEvent → VectorStateTracker → Prop}
    (alignedVd alignedVs2 : Text) (emul : VectorLmul) {candidate : Text} {candidates : List Text}
    (hcandidate : SingleLine candidate) (h : ∀ next ∈ candidates, SingleLine next) :
    Triple (Viewed P) (chooseTempVs2 alignedVd alignedVs2 emul candidate candidates : EngineM G _)
      fun chosen e => Viewed P e ∧ SingleLine chosen := by
  induction candidates generalizing candidate with
  | nil => exact triple_alignVectorReg hcandidate emul
  | cons next candidates ih =>
      rw [List.forall_mem_cons] at h
      refine triple_bind_singleLine (triple_alignVectorReg hcandidate emul) fun chosen hchosen => ?_
      split
      · exact ih h.1 h.2
      · exact Triple.pure fun e he => ⟨he, hchosen⟩

/-- A vector instruction of a builder: a mnemonic of its own, and operands. -/
theorem triple_vectorLine {mnemonic text : Text} (hmnemonic : IsOperandWord mnemonic)
    (hvset : ¬ "vset".toList <+: mnemonic ∧ 4 ≤ mnemonic.length) (htext : SingleLine text) :
    Triple (Viewed (Faithful m)) (emitInstructionFormat (mnemonic ++ text) : EngineM G _)
      fun _ => Viewed (Faithful m) := by
  refine triple_emitInstructionFormat m (singleLine_append.2
    ⟨⟨newline_not_mem hmnemonic.1, hmnemonic.2⟩, htext⟩) ?_
  obtain ⟨rest, hrest⟩ := exists_strip_append hmnemonic.1.1 hmnemonic.1.isSpace_eq text
  rw [hrest, isVset, Bool.eq_false_iff, ne_eq, List.isPrefixOf_iff_prefix]
  intro hstarts
  exact hvset.1 (List.prefix_of_prefix_length_le hstarts (List.prefix_append _ _) hvset.2)

/-- The arithmetic of a vector block. -/
theorem triple_emitVectorArithmetic {mnemonic : String} (hmnemonic : IsOperandWord mnemonic.toList)
    (hvset : ¬ "vset".toList <+: mnemonic.toList ∧ 4 ≤ mnemonic.toList.length) {vd vs2 vs1 : Text}
    (hvd : SingleLine vd) (hvs2 : SingleLine vs2) (hvs1 : SingleLine vs1) (masked : Bool) :
    Triple (Viewed (Faithful m)) (emitVectorArithmetic mnemonic vd vs2 vs1 masked : EngineM G _)
      fun _ => Viewed (Faithful m) := by
  have htracker : Triple (Viewed (Faithful m)) (vectorState : EngineM G _)
      fun _ => Viewed (Faithful m) := triple_quiet m (.part .vectorState)
  unfold emitVectorArithmetic
  refine htracker.bind fun _ =>
    triple_bind_singleLine (triple_alignVectorReg hvd _) fun vd' hvd' => ?_
  refine htracker.bind fun _ => triple_bind_singleLine (triple_alignVectorReg hvs2 _)
    fun vs2' hvs2' => ?_
  refine htracker.bind fun _ => triple_bind_singleLine (triple_alignVectorReg hvs1 _)
    fun vs1' hvs1' => ?_
  simp only [List.append_assoc]
  refine triple_vectorLine m hmnemonic hvset ?_
  simp only [singleLine_append]
  exact ⟨by decide, hvd', by decide, hvs2', by decide, hvs1', by cases masked <;> decide⟩

/-- `EmitVectorLoadStrided`. -/
theorem triple_emitVectorLoadStrided {vd rs1 rs2 : Text} (hvd : SingleLine vd)
    (hrs1 : SingleLine rs1) (hrs2 : SingleLine rs2) :
    Triple (Viewed (EmulReady m)) (emitVectorLoadStrided vd rs1 rs2 : EngineM G _)
      fun _ => Viewed (Faithful m) := by
  have hready {α : Type} {p : EngineM G α} (hp : Quiet p) :
      Triple (Viewed (EmulReady m)) p fun _ => Viewed (EmulReady m) :=
    hp.triple (quietClosed_emulReady m)
  unfold emitVectorLoadStrided
  refine (hready (.formatLine (quietLine_between (by decide) (by decide) hrs2 (by decide)))).bind
    fun _ => (hready (.formatLine (quietLine_move (by decide) hrs1))).bind fun _ =>
    (hready (.emitDynamicMask _)).bind fun _ => triple_vectorState.bind fun tracker =>
    (triple_calculateEmul m tracker).bind fun emul => triple_bind_singleLine
    (triple_alignVectorReg hvd _) fun vd' hvd' => ?_
  rw [show "vlse32.v ".toList = "vlse32.v".toList ++ [' '] by simp, List.append_assoc,
    List.append_assoc]
  refine triple_vectorLine m (by decide) (by decide) ?_
  simp only [singleLine_append]
  exact ⟨by decide, hvd', by decide⟩

/-- `EmitVectorLoadIndexed`. -/
theorem triple_emitVectorLoadIndexed {vd rs1 vs2 : Text} (hvd : SingleLine vd)
    (hrs1 : SingleLine rs1) (hvs2 : SingleLine vs2) :
    Triple (Viewed (EmulReady m)) (emitVectorLoadIndexed vd rs1 vs2 : EngineM G _)
      fun _ => Viewed (Faithful m) := by
  have hcandidates : ∀ next ∈ ["v15".toList, "v23".toList], SingleLine next := by decide
  have hscratch : ∀ scratch ∈ ["t4", "t1"], SingleLine scratch.toList := by decide
  have hchosen := hscratch (if rs1 = "t1".toList then "t4" else "t1") (by split <;> decide)
  unfold emitVectorLoadIndexed
  refine triple_vectorState.bind fun tracker => (triple_calculateEmul m tracker).bind fun emul =>
    (triple_quiet m (.part .vectorState)).bind fun _ =>
      triple_bind_singleLine (triple_alignVectorReg hvd _)
    fun vd' hvd' => triple_bind_singleLine (triple_alignVectorReg hvs2 _) fun vs2' hvs2' =>
    triple_bind_singleLine (triple_chooseTempVs2 vd' vs2' emul (by decide) hcandidates)
    fun temp htemp => ?_
  refine (triple_quiet m
    (.formatLine (quietLine_between (by decide) (by decide) hchosen (by decide)))).bind
    fun _ => Triple.bind ?_ fun _ =>
      (triple_quiet m (.formatLine (quietLine_move (by decide) hrs1))).bind
    fun _ => (triple_quiet m (.emitDynamicMask _)).bind fun _ => ?_
  · rw [show "vand.vx ".toList = "vand.vx".toList ++ [' '] by simp]
    simp only [List.append_assoc]
    refine triple_vectorLine m (by decide) (by decide) ?_
    simp only [singleLine_append]
    exact ⟨by decide, htemp, by decide, hvs2', by decide, hchosen⟩
  · rw [show "vloxei32.v ".toList = "vloxei32.v".toList ++ [' '] by simp]
    simp only [List.append_assoc]
    refine triple_vectorLine m (by decide) (by decide) ?_
    simp only [singleLine_append]
    exact ⟨by decide, hvd', by decide, htemp⟩

/-- The reset of the tracker in the preamble. -/
theorem triple_resetTracker : Triple (Viewed (Faithful m)) (resetTracker : EngineM G _)
    fun _ => Viewed (Faithful m) := by
  intro e he u e' hrun
  cases hrun
  refine ⟨fun hconfigured => ?_, fun hvl => absurd rfl hvl, m.vlmax_e8_m8, he.neverDrifts.concat ?_⟩
  · cases hconfigured
  · intro text tracker front line back hevent
    cases hevent

theorem triple_emitVectorInit : Triple (Viewed (Faithful m)) (emitVectorInit : EngineM G _)
    fun _ => Viewed (Faithful m) := by
  have hload : ∀ i : ℕ, Triple (Viewed (Faithful m)) (emitInstructionFormat ("vle8.v v".toList ++
      decimal i ++ ",(t0)".toList) : EngineM G _) fun _ => Viewed (Faithful m) := by
    intro i
    rw [show "vle8.v v".toList = "vle8.v".toList ++ " v".toList by simp]
    simp only [List.append_assoc]
    refine triple_vectorLine m (by decide) (by decide) ?_
    simp only [singleLine_append]
    exact ⟨by decide, singleLine_decimal i, by decide⟩
  unfold emitVectorInit
  refine (triple_resetTracker m).bind fun _ =>
    (triple_quiet m (.emitLi (by decide) _)).bind fun _ =>
    (Triple.forM fun i _ => (hload i).bind fun _ =>
      triple_quiet m (.instruction (by decide))).bind fun _ => ?_
  exact triple_quiet m .emitPointers

theorem triple_emitPreamble : Triple (Viewed (Faithful m)) (emitPreamble : EngineM G _)
    fun _ => Viewed (Faithful m) := by
  exact (triple_quiet m (.part (.appendUnchecked (by decide)))).bind fun _ =>
    (triple_quiet m .emitTrapHandler).bind fun _ =>
      (triple_quiet m (.setupTrapHandler _)).bind fun _ =>
    (triple_quiet m .emitFillLoop).bind fun _ => (triple_quiet m .emitRegisterInit).bind fun _ =>
    (triple_emitVectorInit m).bind fun _ => triple_quiet m (.part (.appendUnchecked (by decide)))

/-! ### Data hazards -/

/-- Characters of an opcode name. -/
def IsNameChar (c : Char) : Prop := isSpace c = false ∧ c ≠ '\x00'

instance (c : Char) : Decidable (IsNameChar c) := inferInstanceAs (Decidable (_ ∧ _))

theorem isNameChar_toLower {c : Char} (h : IsNameChar c) : IsNameChar c.toLower := by
  have hupper : ∀ n < 91, 65 ≤ n → IsNameChar (Char.ofNat n).toLower := by decide
  by_cases hc : 65 ≤ c.toNat ∧ c.toNat < 91
  · have hlower := hupper c.toNat hc.2 hc.1
    rwa [Char.ofNat_toNat] at hlower
  · have hsame : c.toLower = c :=
      dif_neg fun hrange => hc ⟨hrange.1, Nat.lt_succ_of_le hrange.2⟩
    rwa [hsame]

/-- A text of such characters. -/
def NameText (text : Text) : Prop := ∀ c ∈ text, IsNameChar c

instance (text : Text) : Decidable (NameText text) :=
  List.decidableBAll IsNameChar text

theorem nameText_append {text text' : Text} (h : NameText text) (h' : NameText text') :
    NameText (text ++ text') :=
  fun c hc => (List.mem_append.1 hc).elim (h c) (h' c)

theorem nameText_of_subset {text text' : Text} (h : NameText text) (hsub : ∀ c ∈ text', c ∈ text) :
    NameText text' :=
  fun c hc => h c (hsub c hc)

theorem nameText_insertDot {text : Text} (h : NameText text) (n : ℕ) :
    NameText (insertDot n text) := by
  refine nameText_append (nameText_of_subset h fun c => List.mem_of_mem_take) ?_
  rintro c (_ | ⟨_, hc⟩)
  · decide
  · exact h c (List.mem_of_mem_drop hc)

/-- A canonical mnemonic has no white space. -/
theorem nameText_canonicalizeMnemonic {name : Text} (h : NameText name) :
    NameText (canonicalizeMnemonic name) := by
  have hlower : NameText (name.map Char.toLower) := by
    intro c hc
    obtain ⟨d, hd, rfl⟩ := List.mem_map.1 hc
    exact isNameChar_toLower (h d hd)
  have hnames : ∀ pair ∈ withoutDestination, NameText pair.2.toList := by decide
  unfold canonicalizeMnemonic
  dsimp only
  generalize name.map Char.toLower = lower at hlower
  have hcut : NameText (lower.takeWhile (· != '_')) :=
    nameText_of_subset hlower fun c hc => (List.takeWhile_prefix _).subset hc
  generalize lower.takeWhile (· != '_') = cut at hcut
  have hshort : NameText (if "nr".toList.isSuffixOf cut then cut.take (cut.length - 2)
    else cut) := by
    split
    · exact nameText_of_subset hcut fun c => List.mem_of_mem_take
    · exact hcut
  generalize (if "nr".toList.isSuffixOf cut then cut.take (cut.length - 2) else cut) = short
    at hshort
  split
  · rename_i pair hfind
    exact hnames pair (List.mem_of_find?_eq_some hfind)
  · split
    · split
      · exact hshort
      · exact nameText_insertDot hshort 2
    split
    · split
      · exact hshort
      · exact nameText_insertDot hshort 3
    split
    · split
      · exact hshort
      · exact nameText_append hshort (by decide)
    · exact hshort

/-- The first words of two texts, one a prefix of the other, are the same. -/
theorem eq_of_space_prefix {word word' text text' : Text} (h : ' ' ∉ word) (h' : ' ' ∉ word')
    (hstarts : word ++ ' ' :: text <+: word' ++ ' ' :: text') : word = word' ∧ text <+: text' := by
  induction word generalizing word' with
  | nil =>
      cases word' with
      | nil => exact ⟨rfl, (List.cons_prefix_cons.1 hstarts).2⟩
      | cons c word' =>
          obtain ⟨rfl, -⟩ := List.cons_prefix_cons.1 hstarts
          simp at h'
  | cons c word ih =>
      cases word' with
      | nil =>
          obtain ⟨rfl, -⟩ := List.cons_prefix_cons.1 hstarts
          simp at h
      | cons d word' =>
          obtain ⟨rfl, htail⟩ := List.cons_prefix_cons.1 hstarts
          simp only [List.mem_cons, not_or] at h h'
          obtain ⟨rfl, htext⟩ := ih h.2 h'.2 htail
          exact ⟨rfl, htext⟩

/-- An instruction of a data hazard is no line that keeps the vector length. -/
theorem keepsVl_dataHazard {mnemonic : Text} (h : NameText mnemonic) {c d : Char} {operands : Text}
    (hc : c ≠ 'z') (hd : isSpace d = false) (hlast : (c :: operands).getLast? = some d)
    (hne : mnemonic ≠ []) : keepsVl (strip (mnemonic ++ ' ' :: c :: operands)) = false := by
  obtain ⟨first, rest, rfl⟩ := List.exists_cons_of_ne_nil hne
  have hstrip : strip (first :: (rest ++ ' ' :: c :: operands)) =
      first :: (rest ++ ' ' :: c :: operands) := by
    refine strip_of_ends (h first List.mem_cons_self).1 hd ?_
    rw [show first :: (rest ++ ' ' :: c :: operands) = (first :: rest ++ [' ']) ++ c :: operands by
      simp, List.getLast?_append, hlast]
    rfl
  have hspace : ' ' ∉ first :: rest := fun hmem => absurd (h ' ' hmem).1 (by decide)
  rw [List.cons_append, hstrip, keepsVl, Bool.or_eq_false_iff]
  constructor
  · rw [Bool.eq_false_iff, ne_eq, List.isPrefixOf_iff_prefix]
    intro hstarts
    have hsplit : "vsetvli zero, zero".toList =
        "vsetvli".toList ++ ' ' :: 'z' :: "ero, zero".toList := by simp
    rw [hsplit] at hstarts
    obtain ⟨-, htext⟩ := eq_of_space_prefix (by decide) hspace hstarts
    exact hc (List.cons_prefix_cons.1 htext).1.symm
  · rw [Bool.eq_false_iff, ne_eq, List.isPrefixOf_iff_prefix]
    intro hstarts
    have hsplit : "vsetvli zero,zero".toList =
        "vsetvli".toList ++ ' ' :: 'z' :: "ero,zero".toList := by simp
    rw [hsplit] at hstarts
    obtain ⟨-, htext⟩ := eq_of_space_prefix (by decide) hspace hstarts
    exact hc (List.cons_prefix_cons.1 htext).1.symm

/-- One instruction of a data hazard. -/
theorem triple_dataHazardLine {mnemonic : Text} (h : NameText mnemonic) {c d : Char}
    {operands : Text} (hc : c ≠ 'z') (hd : isSpace d = false)
    (hlast : (c :: operands).getLast? = some d) (hsingle : SingleLine (c :: operands))
    (hquiet : isVset (strip (' ' :: c :: operands)) = false) :
    Triple (Viewed (Faithful m)) (emitInstructionFormat (mnemonic ++ ' ' :: c :: operands) :
      EngineM G _) fun _ => Viewed (Faithful m) := by
  have hname : SingleLine mnemonic :=
    ⟨fun hmem => absurd (h _ hmem).1 (by decide), fun hmem => (h _ hmem).2 rfl⟩
  have hline : SingleLine (mnemonic ++ ' ' :: c :: operands) :=
    singleLine_append.2 ⟨hname, singleLine_append.2 ⟨(by decide : SingleLine [' ']), hsingle⟩⟩
  refine (triple_emitInstructionFormat_raw m hline).weaken (fun e he => ⟨he, ?_⟩) fun _ _ he => he
  intro hvset hkeeps
  by_cases hne : mnemonic = []
  · rw [hne, List.nil_append, hquiet] at hvset
    cases hvset
  · rw [keepsVl_dataHazard h hc hd hlast hne] at hkeeps
    cases hkeeps

theorem triple_emitDataHazard {name1 name2 : Text} (h1 : NameText name1) (h2 : NameText name2) :
    Triple (Viewed (Faithful m)) (emitDataHazard name1 name2 : EngineM G _)
      fun _ => Viewed (Faithful m) := by
  have hname {name : Text} (h : NameText name) :
      NameText ((canonicalizeMnemonic name).take (kMaxMnemonicLen - 1)) :=
    nameText_of_subset (nameText_canonicalizeMnemonic h) fun c => List.mem_of_mem_take
  have hfirst : " t0, t1, t2".toList = ' ' :: 't' :: "0, t1, t2".toList := by simp
  have hsecond : " t3, t0, t4".toList = ' ' :: 't' :: "3, t0, t4".toList := by simp
  unfold emitDataHazard
  dsimp only
  rw [hfirst, hsecond]
  exact (triple_dataHazardLine m (hname h1) (d := '2') (by decide) (by decide)
    (by decide) (by decide) (by decide)).bind fun _ =>
      triple_dataHazardLine m (hname h2) (d := '4') (by decide) (by decide) (by decide)
        (by decide) (by decide)

end Vset

/-! ### Calls and runs -/

/-- **The calls that do not make the tracker drift.**  Texts are single lines and registers are
words; a raw `vset` line names the tracked configuration; a `vset` names a configuration the machine
supports; and no `vset` leaves a vector length of zero that the tracker would take for unknown. -/
def EngineCall.KeepsTrack (m : VectorMachine) (c : EngineCall) (events : List EngineEvent)
    (tracker : VectorStateTracker) : Prop :=
  match c with
  | emitInstruction inst | emitInstructionFormat inst =>
      SingleLine inst ∧ RawVsetAgrees m inst events tracker
  | emitVsetvli rd rs1 sew lmul _ _ => IsOperandWord rd ∧ IsOperandWord rs1 ∧
      m.vlmax sew lmul ≠ 0 ∧ AvlNonzero m rd rs1 events
  | emitVsetivli rd _ sew lmul _ _ => IsOperandWord rd ∧ m.vlmax sew lmul ≠ 0
  | emitVtype sew lmul vl =>
      (∀ sew' lmul', sewOfInt sew = some sew' → lmulOfInt lmul = some lmul' →
        m.vlmax sew' lmul' ≠ 0) ∧ (vl = -1 → m.vlAfter (linesOf events) ≠ some 0)
  | emitDataHazard name1 name2 => NameText name1 ∧ NameText name2
  | emitCoverpoint name => SingleLine name
  | emitSafePointerInit regs => ∀ reg ∈ regs, SingleLine reg
  | emitVadd vd vs2 vs1 _ | emitVmul vd vs2 vs1 _ | emitVsub vd vs2 vs1 _ | emitVdiv vd vs2 vs1 _ =>
      SingleLine vd ∧ SingleLine vs2 ∧ SingleLine vs1
  | emitLoad rd rs1 _ => SingleLine rd ∧ SingleLine rs1
  | emitStore rs2 rs1 _ => SingleLine rs2 ∧ SingleLine rs1
  | emitVectorLoadStrided vd rs1 rs2 =>
      (SingleLine vd ∧ SingleLine rs1 ∧ SingleLine rs2) ∧ EmulKeepsVl m events tracker
  | emitVectorLoadIndexed vd rs1 vs2 =>
      (SingleLine vd ∧ SingleLine rs1 ∧ SingleLine vs2) ∧ EmulKeepsVl m events tracker
  | _ => True

/-- A call that does not make the tracker drift. -/
def KeepsTrackStep (m : VectorMachine) (e e' : IsgEngine G) : Prop :=
  ∃ (c : EngineCall) (response : Response), c.KeepsTrack m e.trace.events e.vectorState ∧
    c.run.run e = some (response, e')

/-- A new engine. -/
theorem faithful_create (m : VectorMachine) (seed : BitVec 64) (uninitialised : ℕ → Char) :
    Viewed (Faithful m) (IsgEngine.create G seed uninitialised) := by
  refine ⟨fun hconfigured => ?_, fun hvl => absurd rfl hvl, m.vlmax_e8_m1, ?_⟩
  · cases hconfigured
  · intro before text tracker after front line back hevents
    simp [IsgEngine.create] at hevents

/-- One such call keeps events and tracker faithful. -/
theorem faithful_of_keepsTrackStep (m : VectorMachine) {e e' : IsgEngine G}
    (h : KeepsTrackStep m e e') (he : Viewed (Faithful m) e) : Viewed (Faithful m) e' := by
  obtain ⟨c, response, hkeeps, hrun⟩ := h
  have hcall {P : List EngineEvent → VectorStateTracker → Prop} {α : Type} {p : EngineM G α}
      {f : α → Response} (hp : Triple (Viewed P) p fun _ => Viewed (Faithful m))
      (hP : P e.trace.events e.vectorState)
      (hrun : (do return f (← p) : EngineM G Response).run e = some (response, e')) :
      Viewed (Faithful m) e' := by
    have hanswer : Triple (Viewed P) (do return f (← p) : EngineM G Response)
        fun _ => Viewed (Faithful m) := hp.bind fun _ => Triple.pure fun _ h => h
    exact hanswer e hP response e' hrun
  cases c with
  | emitPreamble => exact hcall (triple_emitPreamble m) he hrun
  | emitInstruction inst =>
      exact hcall (triple_emitInstruction_raw m hkeeps.1) ⟨he, hkeeps.2⟩ hrun
  | emitInstructionFormat inst =>
      exact hcall (triple_emitInstructionFormat_raw m hkeeps.1) ⟨he, hkeeps.2⟩ hrun
  | emitVsetvli rd rs1 sew lmul ta ma =>
      obtain ⟨hrd, hrs1, hsupported, hnonzero⟩ := hkeeps
      exact hcall (triple_emitVsetvli_nonzero m (P := fun events tracker =>
        Faithful m events tracker ∧ AvlNonzero m rd rs1 events) hrd hrs1 fun _ _ hevents =>
        ⟨hevents.1, hsupported, hevents.2⟩) ⟨he, hnonzero⟩ hrun
  | emitVsetivli rd uimm sew lmul ta ma =>
      exact hcall (triple_emitVsetivli m hkeeps.1 hkeeps.2) he hrun
  | emitEbreak => exact hcall (triple_quiet m (.instruction (by decide))) he hrun
  | emitMpause => exact hcall (triple_quiet m (.part (.appendChecked (by decide)))) he hrun
  | emitIllegalInstruction =>
    exact hcall (triple_quiet m (.part (.appendChecked (by decide)))) he hrun
  | emitDataHazard name1 name2 => exact hcall (triple_emitDataHazard m hkeeps.1 hkeeps.2) he hrun
  | emitFpPoisonPills => exact hcall (triple_quiet m .emitFpPoisonPills) he hrun
  | emitVtype sew lmul vl => exact hcall (triple_emitVtype m hkeeps.1) ⟨he, hkeeps.2⟩ hrun
  | setExpectedTrap mcause mepc mtval | setSeed seed => cases hrun; exact he
  | reset =>
      cases hrun
      exact faithful_create (G := G) m e.seed e.fixedAssemblyBuffer
  | emitCoverpoint name =>
      refine hcall (triple_quiet m (.part (.appendChecked ?_))) he hrun
      rw [cString_of_not_mem hkeeps.2]
      exact (quietLine_append (by decide) (by decide) hkeeps).quietText
  | emitSafePointerInit regs => exact hcall (triple_quiet m (.emitSafePointerInit hkeeps)) he hrun
  | addHazardTag tag => exact hcall (triple_quiet m (.part (.addHazardTag tag))) he hrun
  | setupTrapHandler trapAddr => exact hcall (triple_quiet m (.setupTrapHandler trapAddr)) he hrun
  | currentPc => exact hcall (triple_quiet m (.part .currentPc)) he hrun
  | draw => exact hcall (triple_quiet m (.part .draw)) he hrun
  | vectorState => exact hcall (triple_quiet m (.part .vectorState)) he hrun
  | strictSandboxing => exact hcall (triple_quiet m (.part .strictSandboxing)) he hrun
  | setStrictSandboxing strict =>
    exact hcall (triple_quiet m (.part (.setStrictSandboxing strict))) he hrun
  | emitVadd vd vs2 vs1 masked | emitVmul vd vs2 vs1 masked | emitVsub vd vs2 vs1 masked
  | emitVdiv vd vs2 vs1 masked =>
      obtain ⟨hvd, hvs2, hvs1⟩ := hkeeps
      exact hcall (triple_emitVectorArithmetic m (by decide) (by decide) hvd hvs2 hvs1 masked)
        he hrun
  | emitLoad rd rs1 imm => exact hcall (triple_quiet m (.emitLoad hkeeps.1 hkeeps.2 imm)) he hrun
  | emitStore rs2 rs1 imm => exact hcall (triple_quiet m (.emitStore hkeeps.1 hkeeps.2 imm)) he hrun
  | emitVectorLoadStrided vd rs1 rs2 =>
      obtain ⟨⟨hvd, hrs1, hrs2⟩, hemul⟩ := hkeeps
      exact hcall (triple_emitVectorLoadStrided m hvd hrs1 hrs2) ⟨he, hemul⟩ hrun
  | emitVectorLoadIndexed vd rs1 vs2 =>
      obtain ⟨⟨hvd, hrs1, hvs2⟩, hemul⟩ := hkeeps
      exact hcall (triple_emitVectorLoadIndexed m hvd hrs1 hvs2) ⟨he, hemul⟩ hrun

/-- **In every run of calls that keep track, the tracker never drifts from the text.** -/
theorem neverDrifts_of_keepsTrack (m : VectorMachine) (seed : BitVec 64) (uninitialised : ℕ → Char)
    (e : IsgEngine G)
    (h : Relation.ReflTransGen (KeepsTrackStep m) (.create G seed uninitialised) e) :
    NeverDrifts m e := by
  have hfaithful : Viewed (Faithful m) e := by
    induction h with
    | refl => exact faithful_create m seed uninitialised
    | tail _ hstep ih => exact faithful_of_keepsTrackStep m hstep ih
  exact hfaithful.neverDrifts

/-! ### A run that keeps track, and one that does not -/

/-- The registers of a machine that runs `lui` and `addi` only, for lines in reverse order. -/
def constantRegisters : List Text → Text → BitVec 32
  | [], _ => 0
  | line :: earlier, reg =>
      match tokens line with
      | [mnemonic, rd, imm] =>
          if mnemonic = "lui".toList ∧ rd = reg then
            BitVec.ofInt 32 ((parseInt imm).getD 0) <<< 12
          else constantRegisters earlier reg
      | [mnemonic, rd, rs, imm] =>
          if mnemonic = "addi".toList ∧ rd = reg then
            (if isZeroRegister rs then 0 else constantRegisters earlier rs) +
              BitVec.ofInt 32 ((parseInt imm).getD 0)
          else constantRegisters earlier reg
      | _ => constantRegisters earlier reg

/-- A machine with vector registers of 128 bits. -/
def constantMachine : VectorMachine where
  registers before reg := constantRegisters before.reverse reg
  vlmax sew lmul := lmul.eighths * 16 / sew.bits
  lui before line rd imm n htokens himm _ := by
    rw [List.reverse_append, List.reverse_singleton, List.singleton_append, constantRegisters,
      htokens]
    simp [himm]
  addi before line rd rs imm n htokens himm _ := by
    rw [List.reverse_append, List.reverse_singleton, List.singleton_append, constantRegisters,
      htokens]
    simp [himm]
  vlmax_e8_m1 := by decide
  vlmax_e8_m8 := by decide

/-- An engine with a preamble, and room for more. -/
theorem exists_preamble : ∃ e : IsgEngine mt19937_64,
    EngineCall.emitPreamble.run.run (.create mt19937_64 1 fun _ => '\x00') = some (.nothing, e) ∧
      HasBudget e 100 1000 := by
  have hbudget : HasBudget (IsgEngine.create mt19937_64 1 fun _ => '\x00') (300 + 100)
      (12000 + 1000) := ⟨by decide, by decide, fun append hmem => absurd hmem List.not_mem_nil⟩
  obtain ⟨u, e, hrun, hspent⟩ := completes_emitPreamble _ hbudget.before
  exact ⟨e, run_bind_eq_some.2 ⟨u, e, hrun, rfl⟩, hbudget.after hspent⟩

/-- The last item is this line. -/
def EndsWith (line : Text) (e : IsgEngine G) : Prop :=
  ∃ before tracker, e.trace.events = before ++ [.item (line ++ "\n".toList) tracker]

theorem triple_endsWith {inst : Text} : Triple (fun _ => True)
    (emitInstructionFormat inst : EngineM G _) fun _ => EndsWith inst :=
  triple_emitInstructionFormatBody (P := fun _ _ => True) (R := fun _ _ => True)
    (Q := fun events _ => ∃ before tracker,
      events = before ++ [.item (inst ++ "\n".toList) tracker])
    (fun _ _ _ _ _ => trivial) fun events tracker _ => ⟨events, tracker, rfl⟩

/-- A vector instruction behind the preamble. -/
theorem neverDrifts_vectorAdd : ∃ e : IsgEngine mt19937_64,
    Relation.ReflTransGen (KeepsTrackStep constantMachine)
      (.create mt19937_64 1 fun _ => '\x00') e ∧
      EndsWith "vadd.vv v1, v2, v3".toList e ∧ NeverDrifts constantMachine e := by
  obtain ⟨e₁, hpreamble, hbudget⟩ := exists_preamble
  have hcompletes : Completes (emitInstructionFormat "vadd.vv v1, v2, v3".toList :
      EngineM mt19937_64 Unit) 5 219 7 :=
    completes_emitInstructionFormatBody (completes_vectorSetUp fun line hline =>
      (completes_appendUnchecked (length_wordsOfLines_le hline)).weaken (Nat.le_refl _) (by simp)
        (Nat.le_refl _)) (by decide) (by decide)
  have hrest : HasBudget e₁ (5 + 95) (219 + 781) := hbudget
  obtain ⟨u, e₂, hadd, -⟩ := hcompletes e₁ hrest.before
  have hrun : Relation.ReflTransGen (KeepsTrackStep constantMachine)
      (.create mt19937_64 1 fun _ => '\x00') e₂ :=
    .tail (.single ⟨.emitPreamble, _, trivial, hpreamble⟩)
      ⟨.emitInstructionFormat "vadd.vv v1, v2, v3".toList, .nothing, ⟨by decide, fun hvset =>
        absurd hvset (by decide)⟩, run_bind_eq_some.2 ⟨u, e₂, hadd, rfl⟩⟩
  exact ⟨e₂, hrun, triple_endsWith e₁ trivial u e₂ hadd,
    neverDrifts_of_keepsTrack constantMachine 1 _ e₂ hrun⟩

/-- The raw line that does not name the tracked configuration. -/
def rawVset : Text := "vsetvli zero, zero, e32, m4, ta, ma".toList

/-- A configuration, a raw line with another one, and a vector instruction. -/
def driftingCalls : EngineM G Unit := do
  emitVsetivli "t0".toList 4 .e8 .m1 true true
  emitInstruction rawVset
  emitInstruction "vadd.vv v1, v2, v3".toList

/-- After the drifting calls the tracker is still at the elements of eight bits. -/
theorem triple_driftingCalls (before : List EngineEvent) :
    Triple (Viewed fun events _ => events = before) (driftingCalls : EngineM G Unit) fun _ =>
      Viewed fun events tracker => tracker.sew = .e8 ∧ ∃ tracker' tracker'',
        events = before ++ [.item (vsetivliLine "t0".toList 4 .e8 .m1 true true) tracker',
          .item (rawVset ++ "\n".toList) tracker'',
          .item ("vadd.vv v1, v2, v3".toList ++ "\n".toList) tracker] := by
  -- the tracker after `vsetivli`
  have hfirst : Triple (Viewed fun events _ => events = before)
      (emitVsetivli "t0".toList 4 .e8 .m1 true true : EngineM G Unit) fun _ =>
        Viewed fun events tracker => tracker.sew = .e8 ∧ ∃ tracker',
          events = before ++ [.item (vsetivliLine "t0".toList 4 .e8 .m1 true true) tracker'] :=
    (triple_setVectorState (Q := fun events tracker => events = before ∧ tracker.sew = .e8)
      fun _ _ hevents => ⟨hevents, rfl⟩).bind fun _ => triple_appendChecked
        fun events tracker hevents => ⟨hevents.2, tracker, by rw [hevents.1]⟩
  -- the raw line makes it configured, with an unknown vector length
  have hsecond : Triple (Viewed fun events tracker => tracker.sew = .e8 ∧ ∃ tracker',
      events = before ++ [.item (vsetivliLine "t0".toList 4 .e8 .m1 true true) tracker'])
      (emitInstruction rawVset : EngineM G Unit) fun _ =>
        Viewed fun events tracker => (tracker.sew = .e8 ∧ needsSetUp tracker = false) ∧
          ∃ tracker' tracker'', events = before ++ [.item (vsetivliLine "t0".toList 4 .e8 .m1 true
            true) tracker', .item (rawVset ++ "\n".toList) tracker''] := by
    unfold emitInstruction
    refine silent_tick.triple.bind fun _ => ?_
    dsimp only
    rw [if_pos (by decide), if_pos (by decide), cString_of_not_mem (by decide)]
    refine (triple_setVlUnknown (Q := fun events tracker =>
        (tracker.sew = .e8 ∧ needsSetUp tracker = false) ∧ ∃ tracker',
          events = before ++ [.item (vsetivliLine "t0".toList 4 .e8 .m1 true true) tracker'])
        fun events tracker hevents => ⟨⟨hevents.1, ?_⟩, hevents.2⟩).bind fun _ =>
      triple_appendChecked fun events tracker hevents => ?_
    · rfl
    · obtain ⟨htracker, tracker', rfl⟩ := hevents
      exact ⟨htracker, tracker', tracker, by simp⟩
  unfold driftingCalls
  refine hfirst.bind fun _ => hsecond.bind fun _ => ?_
  -- so the vector instruction needs no set-up lines
  unfold emitInstruction
  refine silent_tick.triple.bind fun _ => ?_
  dsimp only
  rw [if_neg (by decide), cString_of_not_mem (by decide)]
  refine triple_vectorState.bind fun tracker => ?_
  by_cases hsetUp : needsSetUp tracker = true
  · intro e he
    obtain ⟨⟨⟨-, hready⟩, -⟩, rfl⟩ := he
    rw [hsetUp] at hready
    cases hready
  · rw [if_neg (by simp [hsetUp]), pure_bind]
    refine triple_appendChecked fun events tracker' hevents => ?_
    obtain ⟨⟨⟨hsew, -⟩, tracker₁, tracker₂, rfl⟩, rfl⟩ := hevents
    exact ⟨hsew, tracker₁, tracker₂, by simp⟩

theorem completes_emitInstruction_vector {inst : Text} (hsingle : SingleLine inst)
    (hvset : isVset (strip inst) = false) :
    Completes (emitInstruction inst : EngineM G Unit) 5 (201 + inst.length) 7 := by
  have happend : ∀ line, '\n' ∉ line → Completes (appendChecked (line ++ "\n".toList) :
      EngineM G Unit) 0 (line.length + 1) 1 := fun line hline =>
    (completes_appendChecked (length_wordsOfLines_le hline)).weaken (Nat.le_refl _) (by simp)
      (Nat.le_refl _)
  unfold emitInstruction
  dsimp only
  rw [if_neg (by rw [hvset]; decide), cString_of_not_mem hsingle.2]
  refine (completes_tick.bind fun _ => completes_vectorState.bind fun _ =>
    (Completes.ite (completes_vectorSetUp happend) ((Completes.pure ()).weaken ?_ ?_ ?_)).bind
      fun _ => happend inst hsingle.1).weaken ?_ ?_ ?_ <;> omega

theorem completes_driftingCalls : Completes (driftingCalls : EngineM G Unit) 100 1000 100 := by
  have hline {item : Text} (hwords : (wordsOfLines (lines item)).length ≤ 1)
      (hlength : item.length ≤ 40) : Completes (appendChecked item : EngineM G Unit) 0 40 1 :=
    (completes_appendChecked hwords).weaken (Nat.le_refl _) hlength (Nat.le_refl _)
  have hfirst : Completes (emitVsetivli "t0".toList 4 .e8 .m1 true true : EngineM G Unit) 0 40 1 :=
    ((completes_setVectorState _).bind fun _ => hline (by decide) (by decide)).weaken (by decide)
      (by decide) (by decide)
  have hunknown : Completes (setVlUnknown : EngineM G Unit) 0 0 0 :=
    completes_modify fun _ => ⟨rfl, rfl, rfl, rfl⟩
  have hsecond : Completes (emitInstruction rawVset : EngineM G Unit) 1 40 1 := by
    unfold emitInstruction
    dsimp only
    rw [if_pos (by decide), if_pos (by decide), cString_of_not_mem (by decide)]
    exact (completes_tick.bind fun _ => hunknown.bind fun _ => hline (by decide) (by decide)).weaken
      (by decide) (by decide) (by decide)
  exact (hfirst.bind fun _ => hsecond.bind fun _ => completes_emitInstruction_vector (by decide)
    (by decide)).weaken (by decide) (by decide) (by decide)

/-- The raw line is behind the preamble, and the tracker has not read it. -/
theorem not_neverDrifts_rawVset : ¬ ∀ (m : VectorMachine) (e₀ e : IsgEngine mt19937_64),
    EngineCall.emitPreamble.run.run (.create mt19937_64 1 fun _ => '\x00') = some (.nothing, e₀) →
      Relation.ReflTransGen CallStep e₀ e → NeverDrifts m e := by
  intro h
  obtain ⟨e₀, hpreamble, hbudget⟩ := exists_preamble
  obtain ⟨u, e₃, hrun, -⟩ := completes_driftingCalls e₀ hbudget
  obtain ⟨hsew, tracker₁, tracker₂, hevents⟩ := triple_driftingCalls _ e₀ rfl u e₃ hrun
  obtain ⟨u₁, e₁, hfirst, hrun⟩ := run_bind_eq_some.1 hrun
  obtain ⟨u₂, e₂, hsecond, hthird⟩ := run_bind_eq_some.1 hrun
  have hreach : Relation.ReflTransGen CallStep e₀ e₃ :=
    .tail (.tail (.single ⟨.emitVsetivli "t0".toList 4 .e8 .m1 true true, .nothing,
      run_bind_eq_some.2 ⟨u₁, e₁, hfirst, rfl⟩⟩) ⟨.emitInstruction rawVset, .nothing,
      run_bind_eq_some.2 ⟨u₂, e₂, hsecond, rfl⟩⟩)
      ⟨.emitInstruction "vadd.vv v1, v2, v3".toList, .nothing,
        run_bind_eq_some.2 ⟨u, e₃, hthird, rfl⟩⟩
  have hsplit : e₃.trace.events = (e₀.trace.events ++ [.item (vsetivliLine "t0".toList 4 .e8 .m1
      true true) tracker₁]) ++ [.item (rawVset ++ "\n".toList) tracker₂] ++
        .item ("vadd.vv v1, v2, v3".toList ++ "\n".toList) e₃.vectorState :: [] := by
    rw [hevents]
    simp
  obtain ⟨line, vset, hlast, hvset, hnamed, -⟩ := (h constantMachine e₀ e₃ hpreamble hreach _ _ _ _
    [] _ [] hsplit (lines_item (by decide) (by decide)) ⟨by decide, by decide⟩).named
  -- the last `vset` line is the raw one
  rw [List.append_nil, linesSinceReset_item, lines_item (by decide) (by decide), lastVset_concat,
    if_pos (by decide)] at hlast
  cases hlast
  rw [show vsetOf rawVset = some ⟨.keep, .e32, .m4⟩ by decide] at hvset
  cases hvset
  rw [hsew] at hnamed
  cases hnamed

end CoralNpu
