/-
**Constants by `lui` and `addi`.**

A value is split into an upper part, rounded up when bit 11 is set, and a lower part with a sign.
The carry of the rounding may leave the 32 bits; the upper part is zero then, and the lower part is
the value itself.  The generator prints the two parts as text and leaves the `addi` out when it adds
nothing; the orchestrator encodes both as words.

Main definitions:

* `CoralNpu.liText` — the lines of `EmitLi`;
* `CoralNpu.PartsFit` — the two parts fit the immediates of the two instructions;
* `CoralNpu.LinesHold`, `CoralNpu.WordsHold` — lines, and words, that leave a value in a register.

Main results:

* `CoralNpu.emitLi_eq_forM` — `EmitLi` emits these lines;
* `CoralNpu.constant_exact` — **every value is materialised**, by the lines and by the words.
-/

import CoralNpu.IsgParts
import CoralNpu.IsgSandbox
import CoralNpu.OrchestratorSelfCheck

set_option relaxedAutoImplicit false
set_option autoImplicit false

namespace CoralNpu

open AsciiText PartialState Rv32 CodeImage

variable {G : Prng}

/-! ### Register names -/

/-- A digit of a number, which is neither white space nor punctuation. -/
theorem isOperand_of_digitValue {c : Char} {digit : ℕ} (h : digitValue c = some digit) :
    isSeparator c = false ∧ c ≠ ':' ∧ c ≠ '\x00' := by
  refine ⟨?_, ?_, ?_⟩
  · by_contra hc
    rw [Bool.not_eq_false, isSeparator, isSpace] at hc
    simp only [Bool.or_eq_true, beq_iff_eq] at hc
    rcases hc with ((((((((rfl | rfl) | rfl) | rfl) | rfl) | rfl) | rfl) | rfl) | rfl) <;> cases h
  · rintro rfl
    cases h
  · rintro rfl
    cases h

theorem forall_mem_of_parseDigits {base : ℕ} {text : Text} {value n : ℕ}
    (h : parseDigits base text value = some n) :
    ∀ c ∈ text, isSeparator c = false ∧ c ≠ ':' ∧ c ≠ '\x00' := by
  induction text generalizing value with
  | nil => simp
  | cons c text ih =>
      rw [parseDigits] at h
      obtain ⟨digit, hdigit, hrest⟩ := Option.bind_eq_some_iff.1 h
      split at hrest
      · exact List.forall_mem_cons.2 ⟨isOperand_of_digitValue hdigit, ih hrest⟩
      · cases hrest

theorem forall_mem_of_parseNat {text : Text} {n : ℕ} (h : parseNat text = some n) :
    ∀ c ∈ text, isSeparator c = false ∧ c ≠ ':' ∧ c ≠ '\x00' := by
  rw [parseNat.eq_def] at h
  split at h
  · have hrest := forall_mem_of_parseDigits h
    exact List.forall_mem_cons.2 ⟨by decide, List.forall_mem_cons.2 ⟨by decide, hrest⟩⟩
  · exact forall_mem_of_parseDigits h
  · cases h

theorem isOperand_of_forall_mem {text : Text} (hne : text ≠ [])
    (h : ∀ c ∈ text, isSeparator c = false ∧ c ≠ ':' ∧ c ≠ '\x00') : IsOperand text :=
  ⟨⟨hne, fun c hc => (h c hc).1⟩, fun hc => (h _ hc).2.1 rfl, fun hc => (h _ hc).2.2 rfl⟩

/-- The name of a register can stand as an operand. -/
theorem isOperand_of_regOf {text : Text} {rd : Reg} (h : regOf text = some rd) :
    IsOperand text := by
  rw [regOf.eq_def] at h
  cases hfind : abiNames.findIdx? fun name => name.toList == text with
  | some i =>
      obtain ⟨hlt, heq, -⟩ := List.findIdx?_eq_some_iff_getElem.1 hfind
      have hnames : ∀ name ∈ abiNames, name.toList ≠ [] ∧
          ∀ c ∈ name.toList, isSeparator c = false ∧ c ≠ ':' ∧ c ≠ '\x00' := by decide
      obtain ⟨hne, hmem⟩ := hnames _ (List.getElem_mem hlt)
      rw [beq_iff_eq.1 heq] at hne hmem
      exact isOperand_of_forall_mem hne hmem
  | none =>
      simp only [hfind, Option.bind_none, Option.orElse_eq_orElse, Option.orElse_none] at h
      split at h
      next => exact isOperand_of_forall_mem (by decide) (by decide)
      next number =>
        obtain ⟨n, hn, -⟩ := Option.bind_eq_some_iff.1 h
        refine isOperand_of_forall_mem (List.cons_ne_nil _ _)
          (List.forall_mem_cons.2 ⟨by decide, ?_⟩)
        exact forall_mem_of_parseNat hn
      next => cases h

/-! ### Lines -/

/-- The lines of `EmitLi`. -/
def liText (reg : Text) (val : BitVec 32) : List Text :=
  ("lui ".toList ++ reg ++ ", 0x".toList ++ hex (upperPart val).toNat) ::
    if lowerPart val ≠ 0 ∨ upperPart val = 0 then
      ["addi ".toList ++ reg ++ ", ".toList ++ reg ++ ", ".toList ++ signed (lowerPart val)]
    else []

/-- **`EmitLi` emits its lines.** -/
theorem addsWords_emitLi {reg : String} (hreg : IsOperand reg.toList) (val : BitVec 32) :
    AddsWords (emitLi reg.toList val : EngineM G Unit) (liText reg.toList val) := by
  rw [emitLi_eq, emitLiBody, liText, ← List.singleton_append]
  refine .bind (addsWords_emitInstructionFormat (plainLine_lui hreg _)) ?_
  show AddsWords (if lowerPart val ≠ 0 ∨ upperPart val = 0 then _ else _) _
  split
  · exact addsWords_emitInstructionFormat (plainLine_addi hreg _)
  · exact addsWords_pure

/-- The code of the lines. -/
def liCode (rd : Reg) (val : BitVec 32) : List Rv32.Instruction :=
  .lui rd (hi20 val) ::
    if lowerPart val ≠ 0 ∨ upperPart val = 0 then [.opImm .addi rd rd (lo12 val)] else []

theorem instructionsOf_liText {reg : Text} {rd : Reg} (hreg : regOf reg = some rd)
    (val : BitVec 32) : instructionsOf (liText reg val) = some (liCode rd val) := by
  have hword := (isOperand_of_regOf hreg).isWord
  have hlui := instructionOf_lui hword hreg (upperPart_lt val)
  rw [BitVec.ofNat_toNat] at hlui
  obtain ⟨hlo, hhi⟩ := lowerPart_bounds val
  have haddi := instructionOf_addi hword hreg hlo hhi
  rw [ofInt_lowerPart] at haddi
  rw [liText, liCode]
  split
  · simp only [instructionsOf, List.mapM_cons, hlui, haddi, List.mapM_nil]
    rfl
  · simp only [instructionsOf, List.mapM_cons, hlui, List.mapM_nil]
    rfl

/-- The code sets the register. -/
theorem afterAll_liCode {rd : Reg} (h : rd ≠ 0) (val : BitVec 32) (s : Hart) :
    s.afterAll (liCode rd val) = s.set rd val := by
  rw [liCode]
  split
  · exact s.afterAll_constant h val
  · rename_i hnot
    -- the lower part is zero
    refine s.afterAll_lui ?_
    have hlower : val - (val + 0x800) >>> 12 <<< 12 = 0#32 :=
      BitVec.eq_of_toInt_eq (not_not.1 (not_or.1 hnot).1)
    rw [lo12, hlower]
    rfl

/-! ### Words -/

/-- The words of `PerformPhase2Finalize`. -/
def constantWords (scratch golden : Word) : List Word :=
  [luiWord scratch golden, addiWord scratch golden]

/-! ### Every constant -/

/-- The two parts fit the immediates: 20 bits, and 12 bits with a sign. -/
structure PartsFit (val : BitVec 32) : Prop where
  upper : (upperPart val).toNat < 2 ^ 20
  lower : -2048 ≤ lowerPart val ∧ lowerPart val ≤ 2047

/-- `EmitLi` emits lines that leave a value in a register, and change nothing else. -/
structure LinesHold (G : Prng) (reg : String) (rd : Reg) (val : BitVec 32) : Prop where
  words : AddsWords (emitLi reg.toList val : EngineM G Unit) (liText reg.toList val)
  emitted : ∀ (e : IsgEngine G) (u : Unit) (e' : IsgEngine G),
    (emitLi reg.toList val).run e = some (u, e') → HasRoom e → UncheckedFit e' →
      assemble e'.text = assemble e.text ++ liText reg.toList val
  completes : reg.toList.length ≤ 3 → Completes (emitLi reg.toList val : EngineM G Unit) 2 60 2
  run : ∀ ram s, ∃ s', runText ram (liText reg.toList val) s = some s' ∧
    s'.get rd = (if rd = 0 then 0 else val) ∧ (∀ r, r ≠ rd → s'.get r = s.get r) ∧
    s'.memory = s.memory

/-- The words are `lui` and `addi` on one register, with the two parts as immediates, and a core
that stands at them goes past them with the value in the register. -/
structure WordsHold (scratch : BitVec 5) (rd : Reg) (golden : Word) : Prop where
  lui : ∃ imm, decode (luiWord (scratch.setWidth 32) golden) = some (.base (.lui rd imm)) ∧
    imm.toNat = (upperPart golden).toNat
  addi : ∃ imm, decode (addiWord (scratch.setWidth 32) golden) =
    some (.base (.opImm .addi rd rd imm)) ∧ imm.toInt = lowerPart golden
  run : ∀ {flen vlen : ℕ} (ram : Word → Bool) (image : Bytes) (c : Core flen vlen),
    StandsAt image c (constantWords (scratch.setWidth 32) golden) →
      Core.Steps ram image c { c with pc := c.pc + 8, hart := c.hart.set rd golden }

theorem linesHold {reg : String} {rd : Reg} (hreg : regOf reg.toList = some rd) (val : BitVec 32) :
    LinesHold G reg rd val := by
  have hoperand := isOperand_of_regOf hreg
  have hwords := addsWords_emitLi (G := G) hoperand val
  refine ⟨hwords, fun e u e' hrun hroom hfit => ?_, fun hlength => ?_, fun ram s => ?_⟩
  · exact assemble_of_words (Emission.emitLi _ _) hrun hroom hfit (hwords e u e' hrun)
  · exact completes_emitLi ⟨newline_not_mem hoperand.isWord, hlength⟩ val
  · have hregister : ∀ i ∈ liCode rd val, i.isRegister = true ∧ ∀ r, r ≠ rd → i.rd? ≠ some r := by
      intro i hi
      rw [liCode, List.mem_cons] at hi
      rcases hi with rfl | hi
      · exact ⟨rfl, fun r hr heq => hr (Option.some.inj heq).symm⟩
      · split at hi
        · rw [List.mem_singleton.1 hi]
          exact ⟨rfl, fun r hr heq => hr (Option.some.inj heq).symm⟩
        · cases hi
    refine ⟨s.afterAll (liCode rd val), ?_, ?_, fun r hr => ?_, memory_afterAll s _⟩
    · rw [runText, instructionsOf_liText hreg, Option.bind_some,
        run_of_isRegister ram fun i hi => (hregister i hi).1]
    · split
      · rename_i hzero
        rw [hzero, Hart.get_zero]
      · rename_i hne
        rw [afterAll_liCode hne, Hart.get_set, if_pos ⟨rfl, hne⟩]
    · exact get_afterAll fun i hi => (hregister i hi).2 r hr

theorem wordsHold {scratch : BitVec 5} (hne : scratch ≠ 0) (golden : Word) :
    WordsHold scratch ⟨scratch.toNat, scratch.isLt⟩ golden := by
  refine ⟨⟨_, decode_luiWord scratch golden, ?_⟩, ⟨_, decode_addiWord scratch golden, ?_⟩, ?_⟩
  · have hlt := upperPart_lt golden
    rw [hi20, BitVec.toNat_setWidth, ← upperPart]
    exact Nat.mod_eq_of_lt hlt
  · obtain ⟨hlo, hhi⟩ := lowerPart_bounds golden
    rw [← ofInt_lowerPart, BitVec.toInt_ofInt, Int.bmod_eq_of_le] <;> omega
  · intro flen vlen ram image c hstands
    obtain ⟨hlui, hrest⟩ := hstands.cons
    obtain ⟨haddi, -⟩ := List.cons.inj hrest
    refine Core.steps_constant ?_ (by rw [hlui]; exact decode_luiWord scratch golden)
      (by rw [haddi]; exact decode_addiWord scratch golden)
    intro hzero
    exact hne (BitVec.eq_of_toNat_eq (congrArg Fin.val hzero))

/-- **Every constant is materialised**: by the lines of `EmitLi`, and by the words in the checks of
the orchestrator, which use `x31` and `x30`. -/
theorem constant_exact (G : Prng) (val : BitVec 32) :
    PartsFit val ∧
      (∀ (reg : String) (rd : Reg), regOf reg.toList = some rd → LinesHold G reg rd val) ∧
      (∀ i, constantWords 31 val <+: checkX i val) ∧
      (∀ extract, constantWords 30 val <+: (checkExtracted extract val).tail) ∧
      WordsHold 31 31 val ∧ WordsHold 30 30 val := by
  obtain ⟨hlo, hhi⟩ := lowerPart_bounds val
  refine ⟨⟨upperPart_lt val, by omega, by omega⟩, fun reg rd hreg => linesHold hreg val,
    fun i => ?_, fun extract => ?_, wordsHold (by decide) val, wordsHold (by decide) val⟩
  · exact List.prefix_append _ [beqWord i 31, ebreakWord]
  · exact List.prefix_append _ [beqWord 31 30, ebreakWord]

-- the carry leaves the 32 bits: the `lui` loads zero, and the `addi` stays
example : liText "t0".toList 0xFFFFF800 = ["lui t0, 0x0".toList, "addi t0, t0, -2048".toList] := by
  decide

end CoralNpu
