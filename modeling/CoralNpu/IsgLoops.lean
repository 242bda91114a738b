/-
**The loops of a generated program.**

The generator prints two loops.  One is in every preamble, behind the trap handler: it fills the
data memory with words from a generator, whose seed is printed in front of it.  The other is a
control hazard: two branches around some `nop`s, one over the loop and one back to the first.  Here
the printed lines are executed.

Main definitions:

* `CoralNpu.controlHazardCode` — the instructions of a control hazard;
* `CoralNpu.fillWords`, `CoralNpu.fillTurn` — the lines that fill the memory, and the instructions
  of a turn;
* `CoralNpu.Keeps` — what a piece of code leaves alone.

Main results:

* `CoralNpu.controlHazard_leaves` — **a control hazard is left after two turns**;
* `CoralNpu.preamble_fills` — **a preamble fills the data memory** and sets the trap vector.
-/

import CoralNpu.IsgConstants
import CoralNpu.IsgProgram
import CoralNpu.Rv32Loops

set_option relaxedAutoImplicit false
set_option autoImplicit false

namespace CoralNpu

open AsciiText PartialState Rv32 WordMemory

variable {G : Prng}

/-! ### Lines and code -/

/-- Lines that are code are fetched as this code, wherever they stand. -/
theorem fetchLoop_of_lines {words : List Text} {code : List LoopInstruction}
    (hcode : words.map loopInstructionOf = code.map some) (before after : List Text) {k : ℕ}
    {i : LoopInstruction} (hi : code[k]? = some i) :
    fetchLoop (before ++ (words ++ after)) (4 * (before.length + k)) = some i := by
  have hmap := congrArg (·[k]?) hcode
  simp only [List.getElem?_map, hi, Option.map_some, Option.map_eq_some_iff] at hmap
  obtain ⟨line, hline, hinstruction⟩ := hmap
  exact fetchLoop_eq (getElem?_middle _ _ _ hline) hinstruction

/-- A block of code that is fetched behind `n` words. -/
theorem takes_block {ram : BitVec 32 → Bool} {fetch : ℕ → Option LoopInstruction}
    {code : List LoopInstruction} {n : ℕ}
    (hfetch : ∀ k i, code[k]? = some i → fetch (4 * (n + k)) = some i)
    (front block back : List LoopInstruction) (hcode : code = front ++ (block ++ back))
    {s t : TrapHart} (hrun : runStraight ram block s = some t) :
    Takes ram fetch block.length ⟨s, 4 * (n + front.length)⟩
      ⟨t, 4 * (n + (front.length + block.length))⟩ := by
  have hblock : ∀ j i, block[j]? = some i → fetch (4 * (n + front.length) + 4 * j) = some i := by
    intro j i hi
    rw [← Nat.mul_add, Nat.add_assoc n]
    refine hfetch (front.length + j) i ?_
    rw [hcode]
    exact getElem?_middle _ _ _ hi
  have htakes := takes_straight hblock hrun
  rwa [← Nat.mul_add, Nat.add_assoc n] at htakes

theorem targetOf_hex (n : ℕ) : targetOf ('0' :: 'x' :: hex n) = some n := by
  rw [targetOf, parseInt_hex]
  rfl

theorem tokens_branch {front : Text} {words : List Text} (h : tokens front = words) (n : ℕ) :
    tokens (front ++ ' ' :: '0' :: 'x' :: hex n) = words ++ ['0' :: 'x' :: hex n] := by
  have hword : IsWord ('0' :: 'x' :: hex n) :=
    isWord_cons (by decide) (isWord_cons (by decide) (isWord_hex n))
  rw [tokens_append _ _ (by decide), tokens_of_isWord hword, h]

theorem loopInstructionOf_beq (n : ℕ) :
    loopInstructionOf ("beq t0, t1, 0x".toList ++ hex n) = some (.trap (.beq 5 6 n)) := by
  have htokens : tokens ("beq t0, t1,".toList ++ ' ' :: '0' :: 'x' :: hex n) =
      ["beq".toList, "t0".toList, "t1".toList] ++ ['0' :: 'x' :: hex n] :=
        tokens_branch (by decide) n
  have hregs : regOf "t0".toList = some 5 ∧ regOf "t1".toList = some 6 := by decide
  have hmnemonic : "beq".toList ≠ "xor".toList ∧ "beq".toList ≠ "bne".toList ∧
      "beq".toList ≠ "csrrw".toList ∧ "beq".toList ≠ "csrrs".toList := by decide
  change loopInstructionOf ("beq t0, t1,".toList ++ ' ' :: '0' :: 'x' :: hex n) = _
  rw [loopInstructionOf, htokens]
  simp only [List.cons_append, List.nil_append, if_neg hmnemonic.1, if_neg hmnemonic.2.1]
  rw [trapInstructionOf, htokens]
  simp only [List.cons_append, List.nil_append, if_neg hmnemonic.2.2.1, if_neg hmnemonic.2.2.2,
    if_true, hregs, targetOf_hex]
  rfl

theorem loopInstructionOf_bne (front a b : Text) {rs1 rs2 : Reg}
    (hfront : tokens front = ["bne".toList, a, b]) (ha : regOf a = some rs1)
    (hb : regOf b = some rs2) (n : ℕ) :
    loopInstructionOf (front ++ ' ' :: '0' :: 'x' :: hex n) = some (.bne rs1 rs2 n) := by
  have hmnemonic : "bne".toList ≠ "xor".toList := by decide
  rw [loopInstructionOf, tokens_branch hfront]
  simp only [List.cons_append, List.nil_append, if_neg hmnemonic, if_true, ha, hb, targetOf_hex]
  rfl

/-! ### What code leaves alone -/

/-- The registers apart from some, the memory, and the control and status registers are as they
were. -/
structure Keeps (scratch : List Reg) (s t : TrapHart) : Prop where
  registers : ∀ r, r ∉ scratch → t.hart.get r = s.hart.get r
  memory : t.hart.memory = s.hart.memory
  csr : t.csr = s.csr

theorem Keeps.refl (scratch : List Reg) (s : TrapHart) : Keeps scratch s s :=
  ⟨fun _ _ => rfl, rfl, rfl⟩

theorem Keeps.trans {scratch : List Reg} {s t u : TrapHart} (h : Keeps scratch s t)
    (h' : Keeps scratch t u) : Keeps scratch s u :=
  ⟨fun r hr => (h'.registers r hr).trans (h.registers r hr), h'.memory.trans h.memory,
    h'.csr.trans h.csr⟩

/-- A register written. -/
theorem keeps_set {scratch : List Reg} {rd : Reg} (hrd : rd ∈ scratch) (s : TrapHart)
    (value : BitVec 32) : Keeps scratch s { s with hart := s.hart.set rd value } := by
  refine ⟨fun r hr => s.hart.get_set_of_ne value ?_, rfl, rfl⟩
  rintro rfl
  exact hr hrd

/-! ### The control hazard -/

def nopInstruction : LoopInstruction := .trap (.base (.opImm .addi 0 0 0))

/-- The instructions of a control hazard, behind `n` words. -/
def controlHazardCode (n dist : ℕ) : List LoopInstruction :=
  .trap (.base (.opImm .addi 5 0 2)) :: .trap (.base (.opImm .addi 6 0 0)) ::
    .trap (.beq 5 6 (4 * (n + 2) + dist * 4 + 12)) ::
    (List.replicate dist nopInstruction ++
      [.trap (.base (.opImm .addi 5 5 (-1))), .bne 5 6 (4 * (n + 2))])

/-- The lines of a control hazard stand for this code. -/
theorem loopInstructionOf_controlHazardWords (n dist : ℕ) :
    (controlHazardWords n dist).map loopInstructionOf = (controlHazardCode n dist).map some := by
  have hfirst : loopInstructionOf "addi t0, zero, 2".toList =
      some (.trap (.base (.opImm .addi 5 0 2))) ∧
      loopInstructionOf "addi t1, zero, 0".toList = some (.trap (.base (.opImm .addi 6 0 0))) := by
        decide
  have hnop : loopInstructionOf "addi x0, x0, 0".toList = some nopInstruction := by decide
  have hlast : loopInstructionOf "addi t0, t0, -1".toList =
      some (.trap (.base (.opImm .addi 5 5 (-1)))) := by decide
  have hbne : loopInstructionOf ("bne t0, t1, 0x".toList ++ hex (4 * (n + 2))) =
      some (.bne 5 6 (4 * (n + 2))) :=
    loopInstructionOf_bne "bne t0, t1,".toList "t0".toList "t1".toList (by decide) (by decide)
      (by decide) _
  rw [controlHazardWords, controlHazardCode]
  simp only [List.map_cons, List.map_append, List.map_replicate, List.map_nil, hfirst, hnop, hlast,
    hbne, loopInstructionOf_beq]

section Turn

variable {ram : BitVec 32 → Bool}

theorem runStraight_nops (ram : BitVec 32 → Bool) (dist : ℕ) (s : TrapHart) :
    ∃ t, runStraight ram (List.replicate dist nopInstruction) s = some t ∧ Keeps [] s t := by
  induction dist generalizing s with
  | zero => exact ⟨s, rfl, .refl _ s⟩
  | succ dist ih =>
      have hzero : Keeps [] s { s with hart := s.hart.set 0 0 } := by
        refine ⟨fun r _ => ?_, rfl, rfl⟩
        by_cases hr : r = 0
        · rw [hr]
          rfl
        · exact s.hart.get_set_of_ne 0 hr
      obtain ⟨t, hrun, hkeeps⟩ := ih { s with hart := s.hart.set 0 0 }
      exact ⟨t, hrun, hzero.trans hkeeps⟩

/-- What holds at the beginning of the turns. -/
structure HazardTurn (s : TrapHart) (j : ℕ) (t : TrapHart) : Prop where
  count : t.hart.get 5 = BitVec.ofNat 32 (2 - j)
  zero : t.hart.get 6 = 0
  keeps : Keeps [5, 6] s t

variable {fetch : ℕ → Option LoopInstruction} {n dist : ℕ}

/-- The `nop`s and the count between the two branches. -/
theorem controlHazardCode_eq (n dist : ℕ) :
    controlHazardCode n dist = (controlHazardCode n dist).take 3 ++
      ((List.replicate dist nopInstruction ++ [.trap (.base (.opImm .addi 5 5 (-1)))]) ++
        [.bne 5 6 (4 * (n + 2))]) := by
  rw [List.append_assoc]
  rfl

theorem getElem?_controlHazardCode_last (n dist : ℕ) :
    (controlHazardCode n dist)[3 + (dist + 1)]? = some (.bne 5 6 (4 * (n + 2))) := by
  have hfront : ((controlHazardCode n dist).take 3 ++ (List.replicate dist nopInstruction ++
      [LoopInstruction.trap (.base (.opImm .addi 5 5 (-1)))])).length = 3 + (dist + 1) := by
    rw [List.length_append, List.length_append, List.length_replicate]
    rfl
  rw [controlHazardCode_eq, ← List.append_assoc, ← hfront]
  exact List.getElem?_concat_length

/-- The first branch is not taken. -/
theorem HazardTurn.loopStep_beq
    (hfetch : ∀ k i, (controlHazardCode n dist)[k]? = some i → fetch (4 * (n + k)) = some i)
    {s t : TrapHart} {j : ℕ} (hj : j < 2) (h : HazardTurn s j t) :
    loopStep ram fetch ⟨t, 4 * (n + 2)⟩ = some ⟨t, 4 * (n + 3)⟩ := by
  have hne : ¬ t.hart.get 5 = t.hart.get 6 := by
    rw [h.count, h.zero]
    obtain rfl | rfl : j = 0 ∨ j = 1 := by omega
    · decide
    · decide
  have hfetched : fetch (4 * (n + 2)) = some (.trap (.beq 5 6 (4 * (n + 2) + dist * 4 + 12))) :=
    hfetch 2 _ rfl
  simp only [loopStep, hfetched, step, if_neg hne]
  rfl

/-- Between the branches the count goes down. -/
theorem HazardTurn.runStraight_count (ram : BitVec 32 → Bool) (dist : ℕ) {s t : TrapHart} {j : ℕ}
    (hj : j < 2) (h : HazardTurn s j t) :
    ∃ t', runStraight ram (List.replicate dist nopInstruction ++
      [.trap (.base (.opImm .addi 5 5 (-1)))]) t = some t' ∧ HazardTurn s (j + 1) t' := by
  obtain ⟨u, hnops, hkept⟩ := runStraight_nops ram dist t
  have hminus : u.hart.get 5 + (-1 : BitVec 12).signExtend 32 = BitVec.ofNat 32 (2 - (j + 1)) := by
    rw [hkept.registers 5 List.not_mem_nil, h.count]
    obtain rfl | rfl : j = 0 ∨ j = 1 := by omega
    · decide
    · decide
  have hset : Keeps [5, 6] u { u with hart := u.hart.set 5 (BitVec.ofNat 32 (2 - (j + 1))) } :=
    keeps_set (by decide) u _
  have hnopsKeep : Keeps [5, 6] t u :=
    ⟨fun r _ => hkept.registers r List.not_mem_nil, hkept.memory, hkept.csr⟩
  refine ⟨{ u with hart := u.hart.set 5 (BitVec.ofNat 32 (2 - (j + 1))) }, ?_, ?_, ?_, ?_⟩
  · rw [runStraight_append, hnops, Option.bind_some, ← hminus]
    rfl
  · simp
  · exact ((u.hart.get_set_of_ne _ (by decide)).trans (hkept.registers 6 List.not_mem_nil)).trans
      h.zero
  · exact (h.keeps.trans hnopsKeep).trans hset

/-- The second branch is taken unless the count is zero. -/
theorem HazardTurn.loopStep_bne
    (hfetch : ∀ k i, (controlHazardCode n dist)[k]? = some i → fetch (4 * (n + k)) = some i)
    {s t : TrapHart} {j : ℕ} (hj : j < 2) (h : HazardTurn s (j + 1) t) :
    loopStep ram fetch ⟨t, 4 * (n + (3 + (dist + 1)))⟩ =
      some ⟨t, if j + 1 = 2 then 4 * (n + (dist + 5)) else 4 * (n + 2)⟩ := by
  simp only [loopStep, hfetch _ _ (getElem?_controlHazardCode_last n dist), h.count, h.zero]
  obtain rfl | rfl : j = 0 ∨ j = 1 := by omega
  · rfl
  · have hend : 4 * (n + (3 + (dist + 1))) + 4 = 4 * (n + (dist + 5)) := by omega
    rw [if_pos (by decide), if_pos rfl, hend]

/-- **A turn.** -/
theorem hazardTurn
    (hfetch : ∀ k i, (controlHazardCode n dist)[k]? = some i → fetch (4 * (n + k)) = some i)
    {s t : TrapHart} {j : ℕ} (hj : j < 2) (h : HazardTurn s j t) :
    ∃ t', Takes ram fetch (dist + 3) ⟨t, 4 * (n + 2)⟩
        ⟨t', if j + 1 = 2 then 4 * (n + (dist + 5)) else 4 * (n + 2)⟩ ∧
        HazardTurn s (j + 1) t' := by
  obtain ⟨t', hblock, hnext⟩ := h.runStraight_count ram dist hj
  have hstraight := takes_block hfetch _ _ _ (controlHazardCode_eq n dist) hblock
  rw [List.length_append, List.length_replicate, List.length_singleton] at hstraight
  refine ⟨t', ?_, hnext⟩
  have hall := (Takes.single (h.loopStep_beq hfetch hj)).trans
    (hstraight.trans (.single (hnext.loopStep_bne hfetch hj)))
  rwa [show 1 + (dist + 1 + 1) = dist + 3 by omega] at hall

/-- **Code that is fetched as a control hazard is left after two turns.** -/
theorem takes_controlHazard (ram : BitVec 32 → Bool)
    (hfetch : ∀ k i, (controlHazardCode n dist)[k]? = some i → fetch (4 * (n + k)) = some i)
    (s : TrapHart) :
    ∃ t, Takes ram fetch (2 + 2 * (dist + 3)) ⟨s, 4 * n⟩ ⟨t, 4 * (n + (dist + 5))⟩ ∧
      HazardTurn s 2 t := by
  have hentry : ∃ t, runStraight ram ((controlHazardCode n dist).take 2) s = some t ∧
      HazardTurn s 0 t := by
    refine ⟨_, rfl, ?_, ?_, ?_⟩
    · simp [ImmOp.apply]
    · simp [ImmOp.apply]
    · exact (keeps_set (by decide) s _).trans (keeps_set (by decide) _ _)
  obtain ⟨t, hrun, hturn⟩ := hentry
  have hfirst : Takes ram fetch 2 ⟨s, 4 * n⟩ ⟨t, 4 * (n + 2)⟩ :=
    takes_block hfetch [] _ _ (List.take_append_drop 2 _).symm hrun
  obtain ⟨u, hturns, hend⟩ := takes_turns (fun j t hj h => hazardTurn hfetch hj h) (by decide) hturn
  exact ⟨u, hfirst.trans hturns, hend⟩

end Turn

/-- **A control hazard is left after two turns**, wherever it stands: `t0` and `t1` are zero then,
and nothing else has changed. -/
theorem controlHazard_leaves {e e' : IsgEngine G} {u : Unit}
    (hrun : (generateControlHazard : EngineM G Unit).run e = some (u, e')) (hroom : HasRoom e)
    (hfit : UncheckedFit e') (rest : List Text) (ram : BitVec 32 → Bool) (s : TrapHart) :
    ∃ dist t, 1 ≤ dist ∧ dist ≤ 4 ∧
      Takes ram (fetchLoop (assemble e'.text ++ rest)) (2 + 2 * (dist + 3))
        ⟨s, pcAfter e.text⟩ ⟨t, pcAfter e'.text⟩ ∧
      t.hart.get 5 = 0 ∧ t.hart.get 6 = 0 ∧ Keeps [5, 6] s t := by
  have hintact : BufferIntact e' :=
    ((Emission.generateControlHazard.relates_bufferStep _ _ _ hrun).2 hfit hroom).2
  obtain ⟨words, hadds, dist, hlo, hhi, rfl⟩ :=
    lays_generateControlHazard.adds _ _ _ hroom hfit hrun
  have hfetch : ∀ k i, (controlHazardCode e.words.length dist)[k]? = some i →
      fetchLoop (assemble e'.text ++ rest) (4 * (e.words.length + k)) = some i := by
    intro k i hi
    rw [assemble_text hintact, hadds, List.append_assoc]
    exact fetchLoop_of_lines (loopInstructionOf_controlHazardWords _ dist) _ _ hi
  obtain ⟨t, htakes, hturn⟩ := takes_controlHazard ram hfetch s
  have hlength : e'.words.length = e.words.length + (dist + 5) := by
    rw [hadds, List.length_append, controlHazardWords]
    simp
  refine ⟨dist, t, hlo, hhi, ?_, hturn.count, hturn.zero, hturn.keeps⟩
  rwa [pcAfter_text hroom.2, pcAfter_text hintact, hlength]

/-- A control hazard on a new engine. -/
theorem controlHazard_leaves_first :
    ∃ e, (generateControlHazard : EngineM mt19937_64 Unit).run
        (.create mt19937_64 1 fun _ => '\x00') = some ((), e) ∧
      ∀ s, ∃ dist t,
        Takes (fun _ => true) (fetchLoop (assemble e.text ++ [])) (2 + 2 * (dist + 3)) ⟨s, 0⟩
          ⟨t, pcAfter e.text⟩ := by
  have hbudget : HasBudget (IsgEngine.create mt19937_64 1 fun _ => '\x00') 10 400 :=
    ⟨by decide, by decide, fun append hmem => absurd hmem List.not_mem_nil⟩
  obtain ⟨u, e, hrun, hspent⟩ := completes_generateControlHazard _ hbudget
  refine ⟨e, hrun, fun s => ?_⟩
  obtain ⟨dist, t, -, -, htakes, -⟩ := controlHazard_leaves hrun (hasRoom_create _ _) hspent.fit []
    (fun _ => true) s
  exact ⟨dist, t, htakes⟩

/-! ### The lines that fill the memory -/

/-- What the lines of plain instructions stand for. -/
theorem loopInstructionOf_of_instructionOf {line : Text} {i : Rv32.Instruction}
    (h : instructionOf line = some i) : loopInstructionOf line = some (.trap (.base i)) := by
  have hbranches : ∀ mnemonic ∈ ["xor".toList, "bne".toList, "beq".toList, "csrrw".toList,
    "csrrs".toList],
      ∀ a b c, threeOperands mnemonic a b c = none := by
    have hnone : ∀ mnemonic ∈ ["xor".toList, "bne".toList, "beq".toList, "csrrw".toList,
      "csrrs".toList],
        immOpOf mnemonic = none ∧ shiftOpOf mnemonic = none ∧ regOpOf mnemonic = none ∧
          mnemonic ≠ "lw".toList ∧ mnemonic ≠ "sw".toList := by decide
    intro mnemonic hmem a b c
    obtain ⟨himm, hshift, hreg, hlw, hsw⟩ := hnone mnemonic hmem
    simp only [threeOperands, himm, hshift, hreg, if_neg hlw, if_neg hsw]
  have hline := h
  unfold instructionOf at h
  split at h
  next mnemonic rd imm htokens =>
    have hlui : mnemonic = "lui".toList := by
      by_contra hne
      rw [if_neg hne] at h
      cases h
    have hother : "lui".toList ≠ "csrw".toList ∧ "lui".toList ≠ "jal".toList := by decide
    rw [hlui] at htokens
    have htrap : trapInstructionOf line = some (.base i) := by
      rw [trapInstructionOf, htokens]
      simp only [if_neg hother.1, if_neg hother.2, hline, Option.map_some]
    rw [loopInstructionOf, htokens]
    simp only [if_neg fun hcsrw : _ ∧ _ => hother.1 hcsrw.1, htrap, Option.map_some]
  next mnemonic a b c htokens =>
    have hother : ∀ branch ∈ ["xor".toList, "bne".toList, "beq".toList, "csrrw".toList,
      "csrrs".toList],
        mnemonic ≠ branch := by
      rintro branch hmem rfl
      rw [hbranches _ hmem] at h
      cases h
    simp only [List.forall_mem_cons] at hother
    obtain ⟨hxor, hbne, hbeq, hcsrrw, hcsrrs, -⟩ := hother
    have htrap : trapInstructionOf line = some (.base i) := by
      rw [trapInstructionOf, htokens]
      simp only [if_neg hcsrrw, if_neg hcsrrs, if_neg hbeq, hline, Option.map_some]
    rw [loopInstructionOf, htokens]
    simp only [if_neg hxor, if_neg hbne, htrap, Option.map_some]
  next => cases h

/-- The instructions of a loop, for plain ones. -/
def plainCode (is : List Rv32.Instruction) : List LoopInstruction := is.map fun i => .trap (.base i)

theorem map_loopInstructionOf {lines : List Text} {is : List Rv32.Instruction}
    (h : Rv32.instructionsOf lines = some is) :
    lines.map loopInstructionOf = (plainCode is).map some := by
  induction lines generalizing is with
  | nil =>
      cases h
      rfl
  | cons line lines ih =>
      rw [Rv32.instructionsOf, List.mapM_cons] at h
      obtain ⟨i, hi, h⟩ := Option.bind_eq_some_iff.1 h
      obtain ⟨is, his, h⟩ := Option.bind_eq_some_iff.1 h
      cases h
      rw [List.map_cons, loopInstructionOf_of_instructionOf hi, ih his]
      rfl

/-- Plain instructions run as they do without loops. -/
theorem runStraight_plainCode {ram : BitVec 32 → Bool} {is : List Rv32.Instruction} {s : Hart}
    {hart : Hart} (h : Rv32.run ram is s = some hart) (csr : Csr → BitVec 32) :
    runStraight ram (plainCode is) ⟨s, csr⟩ = some ⟨hart, csr⟩ := by
  induction is generalizing s with
  | nil =>
      cases h
      rfl
  | cons i is ih =>
      obtain ⟨t, hfirst, hrest⟩ := Option.bind_eq_some_iff.1 h
      have hstep : executeStraight ram (.trap (.base i)) ⟨s, csr⟩ = some ⟨t, csr⟩ := by
        rw [executeStraight, executeBlock, hfirst]
        rfl
      rw [plainCode, List.map_cons, runStraight, hstep]
      exact ih hrest

/-- The lines of the loop that fills the data memory, with its set-up, behind `n` words. -/
def fillWords (n : ℕ) (seed : BitVec 32) : List Text :=
  let setUp := liText "t0".toList (BitVec.ofNat 32 kDefaultRwRegionStart) ++
    (liText "t1".toList seed ++ liText "t2".toList 8192)
  setUp ++ fillLoopWords (n + setUp.length)

/-- The engine prints these lines, with a seed that is not zero. -/
theorem lays_fillWords :
    Lays (emitFillLoop : EngineM G Unit) fun n _ words =>
      ∃ seed, seed ≠ 0 ∧ words = fillWords n seed := by
  have hbne : ∀ pc, PlainLine ("bne t2, zero, 0x".toList ++ hex pc) :=
    fun pc => plainLine_append (by decide) (by decide) (isOperand_hex pc)
  have hlabel : AddsWords (appendUnchecked "1:\n".toList : EngineM G Unit) [] :=
    addsWords_appendUnchecked (by decide)
  have hoperands : IsOperand "t0".toList ∧ IsOperand "t1".toList ∧ IsOperand "t2".toList :=
    ⟨⟨by decide, by decide, by decide⟩, ⟨by decide, by decide, by decide⟩,
      ⟨by decide, by decide, by decide⟩⟩
  refine Lays.weaken (.bind (.of_addsWords (.emitLi _ _) (addsWords_emitLi hoperands.1 _)) fun _ =>
    .bind .draw fun value =>
    .bind (.of_addsWords (.emitLi _ _) (addsWords_emitLi hoperands.2.1
      (if value.setWidth 32 = 0 then 1 else value.setWidth 32))) fun _ =>
    .bind (.of_addsWords (.emitLi _ _) (addsWords_emitLi hoperands.2.2 _)) fun _ =>
    .bind .currentPc fun _ =>
    .bind (.of_addsWords (.part (.appendUnchecked "1:".toList)) hlabel) fun _ =>
    .bind (lays_emitInstructions _ (by decide)) fun _ => lays_emitInstructionFormat (hbne _)) ?_
  rintro n _ words ⟨_, _, _, rfl, rfl, value, _, _, rfl, rfl, _, _, _, rfl, rfl, _, _, _, rfl, rfl,
    loopPc, _, _, rfl, ⟨rfl, rfl⟩, _, _, _, rfl, rfl, _, _, _, rfl, rfl, rfl⟩
  refine ⟨if value.setWidth 32 = 0 then 1 else value.setWidth 32, ?_, ?_⟩
  · split
    · decide
    · assumption
  · simp [fillWords, fillLoopWords, Nat.add_assoc]

/-! ### A turn -/

/-- The instructions of a turn, up to the branch. -/
def fillTurn : List LoopInstruction :=
  [.trap (.base (.sw 6 5 0)), .trap (.base (.shift .slli 28 6 13)), .xor 6 6 28,
    .trap (.base (.shift .srli 28 6 17)), .xor 6 6 28, .trap (.base (.shift .slli 28 6 5)),
    .xor 6 6 28, .trap (.base (.opImm .addi 5 5 4)), .trap (.base (.opImm .addi 7 7 (-1)))]

theorem loopInstructionOf_fillLoopWords (loop : ℕ) :
    (fillLoopWords loop).map loopInstructionOf =
      (fillTurn ++ [LoopInstruction.bne 7 0 (4 * loop)]).map some := by
  have hturn : (fillLoop.map String.toList).map loopInstructionOf = fillTurn.map some := by decide
  have hbne : loopInstructionOf ("bne t2, zero, 0x".toList ++ hex (4 * loop)) =
      some (.bne 7 0 (4 * loop)) :=
    loopInstructionOf_bne "bne t2, zero,".toList "t2".toList "zero".toList (by decide) (by decide)
      (by decide) _
  rw [fillLoopWords, List.map_append, List.map_append, hturn, List.map_singleton, hbne]
  rfl

/-- What a turn does: it stores the word, makes the next one, and goes on to the next address. -/
theorem runStraight_fillTurn {ram : BitVec 32 → Bool} {s : TrapHart}
    (hram : WordInRam ram (s.hart.get 5)) :
    ∃ t, runStraight ram fillTurn s = some t ∧ t.hart.get 5 = s.hart.get 5 + 4 ∧
      t.hart.get 6 = xorshift32 (s.hart.get 6) ∧ t.hart.get 7 = s.hart.get 7 - 1 ∧
      t.hart.memory = storeWord s.hart.memory (s.hart.get 5) (s.hart.get 6) ∧ t.csr = s.csr ∧
      ∀ r, r ∉ [5, 6, 7, 28] → t.hart.get r = s.hart.get r := by
  have hminus : -(1#32) = 4294967295#32 := by decide
  simp [fillTurn, runStraight, executeStraight, executeBlock, execute, ImmOp.apply, ShiftOp.apply,
    hram, xorshift32, BitVec.sub_eq_add_neg, hminus]
  exact fun r h5 h6 h7 h28 => by simp [h5, h6, h7, h28]

/-! ### The loop -/

def dataBase : BitVec 32 := BitVec.ofNat 32 kDefaultRwRegionStart

/-- A byte of the data memory. -/
def InData (a : BitVec 32) : Prop := (a - dataBase).toNat < kDefaultRwRegionLength

/-- The address of a word of the data memory. -/
def dataSlot (k : ℕ) : BitVec 32 := slot dataBase (4 * k)

theorem inData_dataSlot {k : ℕ} (hk : k < 8192) {i : BitVec 32} (hi : i.toNat < 4) :
    InData (dataSlot k + i) := by
  have hdiff : dataSlot k + i - dataBase = BitVec.ofNat 32 (4 * k) + i := by
    rw [dataSlot, slot, BitVec.add_assoc, BitVec.add_comm, BitVec.add_sub_cancel]
  rw [InData, hdiff, BitVec.toNat_add, BitVec.toNat_ofNat, kDefaultRwRegionLength]
  omega

theorem wordInRam_dataSlot {ram : BitVec 32 → Bool} (hram : ∀ a, InData a → ram a = true) {k : ℕ}
    (hk : k < 8192) : WordInRam ram (dataSlot k) := by
  have hbyte (i : BitVec 32) (hi : i.toNat < 4) : ram (dataSlot k + i) = true :=
    hram _ (inData_dataSlot hk hi)
  refine ⟨?_, hbyte 1 (by decide), hbyte 2 (by decide), hbyte 3 (by decide)⟩
  simpa using hbyte 0 (by decide)

/-- Bytes outside the data memory are not in a word of it. -/
theorem storeWord_dataSlot (memory : BitVec 32 → BitVec 8) (value : BitVec 32) {k : ℕ}
    (hk : k < 8192) {a : BitVec 32} (ha : ¬ InData a) :
    storeWord memory (dataSlot k) value a = memory a := by
  refine if_neg fun hlt => ha ?_
  have hin := inData_dataSlot hk hlt
  rwa [BitVec.add_comm, BitVec.sub_add_cancel] at hin

/-- The words stored before are kept. -/
theorem loadWord_dataSlot (memory : BitVec 32 → BitVec 8) (value : BitVec 32) {j k : ℕ}
    (hj : j < 8192) (hk : k < j) : loadWord (storeWord memory (dataSlot j) value) (dataSlot k) =
      loadWord memory (dataSlot k) := by
  refine loadWord_slot_of_ne memory dataBase value ?_ ?_ <;>
  · rw [BitVec.toNat_sub, BitVec.toNat_ofNat, BitVec.toNat_ofNat]
    omega

/-- What holds after `j` turns. -/
structure Filling (s : TrapHart) (seed : BitVec 32) (j : ℕ) (t : TrapHart) : Prop where
  pointer : t.hart.get 5 = dataSlot j
  word : t.hart.get 6 = xorshift32^[j] seed
  count : t.hart.get 7 = BitVec.ofNat 32 (8192 - j)
  registers : ∀ r, r ∉ [5, 6, 7, 28] → t.hart.get r = s.hart.get r
  csr : t.csr = s.csr
  filled : ∀ k < j, loadWord t.hart.memory (dataSlot k) = xorshift32^[k] seed
  kept : ∀ a, ¬ InData a → t.hart.memory a = s.hart.memory a

/-- **A turn fills one word more.** -/
theorem Filling.turn {ram : BitVec 32 → Bool} (hram : ∀ a, InData a → ram a = true) {s t : TrapHart}
    {seed : BitVec 32} {j : ℕ} (hj : j < 8192) (h : Filling s seed j t) :
    ∃ t', runStraight ram fillTurn t = some t' ∧ Filling s seed (j + 1) t' := by
  have hword : WordInRam ram (t.hart.get 5) := h.pointer ▸ wordInRam_dataSlot hram hj
  obtain ⟨t', hrun, hpointer, hnext, hcount, hmemory, hcsr, hregisters⟩ :=
    runStraight_fillTurn hword
  rw [h.pointer, h.word] at hmemory
  refine ⟨t', hrun, ?_, ?_, ?_,
    fun r hr => (hregisters r hr).trans (h.registers r hr), hcsr.trans h.csr,
    fun k hk => ?_, fun a ha => ?_⟩
  · rw [hpointer, h.pointer, dataSlot, dataSlot, slot, slot, BitVec.add_assoc, Nat.mul_succ,
      BitVec.ofNat_add]
    rfl
  · rw [hnext, h.word, ← Function.iterate_succ_apply' xorshift32]
  · rw [hcount, h.count]
    have hone : (1 : BitVec 32).toNat = 1 := rfl
    apply BitVec.eq_of_toNat_eq
    rw [BitVec.toNat_sub, BitVec.toNat_ofNat, BitVec.toNat_ofNat, hone]
    omega
  · rw [hmemory]
    rcases Nat.lt_succ_iff_lt_or_eq.1 hk with hlt | rfl
    · rw [loadWord_dataSlot _ _ hj hlt, h.filled k hlt]
    · exact loadWord_storeWord (by decide) _ _ _
  · rw [hmemory, storeWord_dataSlot _ _ hj ha, h.kept a ha]

/-- The instructions of the lines that fill the memory. -/
def fillSetUp (seed : BitVec 32) : List Rv32.Instruction :=
  liCode 5 dataBase ++ (liCode 6 seed ++ liCode 7 8192)

def fillCode (n : ℕ) (seed : BitVec 32) : List LoopInstruction :=
  plainCode (fillSetUp seed) ++ (fillTurn ++ [.bne 7 0 (4 * (n + (fillSetUp seed).length))])

theorem loopInstructionOf_fillWords (n : ℕ) (seed : BitVec 32) :
    (fillWords n seed).map loopInstructionOf = (fillCode n seed).map some := by
  have hregs : regOf "t0".toList = some 5 ∧ regOf "t1".toList = some 6 ∧
      regOf "t2".toList = some 7 := by
    decide
  have hsetUp : Rv32.instructionsOf (liText "t0".toList (BitVec.ofNat 32 kDefaultRwRegionStart) ++
      (liText "t1".toList seed ++ liText "t2".toList 8192)) = some (fillSetUp seed) :=
    instructionsOf_append (instructionsOf_liText hregs.1 _)
      (instructionsOf_append (instructionsOf_liText hregs.2.1 _)
        (instructionsOf_liText hregs.2.2 _))
  have hmap := map_loopInstructionOf hsetUp
  have hlength := congrArg List.length hmap
  rw [List.length_map, List.length_map, plainCode, List.length_map] at hlength
  rw [fillWords, fillCode]
  generalize liText "t0".toList (BitVec.ofNat 32 kDefaultRwRegionStart) ++
    (liText "t1".toList seed ++ liText "t2".toList 8192) = setUp at hmap hlength ⊢
  rw [List.map_append, List.map_append, hmap, hlength, loopInstructionOf_fillLoopWords]

/-- The set-up. -/
theorem filling_setUp (ram : BitVec 32 → Bool) (seed : BitVec 32) (s : TrapHart) :
    ∃ t, runStraight ram (plainCode (fillSetUp seed)) s = some t ∧ Filling s seed 0 t := by
  have hregister : ∀ i ∈ fillSetUp seed, i.isRegister = true := by
    have hli : ∀ rd val, ∀ i ∈ liCode rd val, i.isRegister = true := by
      intro rd val i hi
      rw [liCode, List.mem_cons] at hi
      rcases hi with rfl | hi
      · rfl
      · split at hi
        · rw [List.mem_singleton.1 hi]
          rfl
        · cases hi
    intro i hi
    rcases List.mem_append.1 hi with hi | hi
    · exact hli _ _ i hi
    · rcases List.mem_append.1 hi with hi | hi <;> exact hli _ _ i hi
  have hafter : s.hart.afterAll (fillSetUp seed) =
      ((s.hart.set 5 dataBase).set 6 seed).set 7 8192 := by
    rw [fillSetUp, Hart.afterAll_append, Hart.afterAll_append, afterAll_liCode (by decide),
      afterAll_liCode (by decide), afterAll_liCode (by decide)]
  have hrun := run_of_isRegister ram hregister s.hart
  rw [hafter] at hrun
  refine ⟨_, runStraight_plainCode hrun s.csr, ?_, ?_, ?_,
    fun r hr => ?_, rfl, fun k hk => ?_, fun a _ => rfl⟩
  · simp [dataSlot, slot]
  · simp
  · simp
  · simp only [List.mem_cons, List.not_mem_nil, or_false, not_or] at hr
    simp [hr]
  · exact absurd hk (Nat.not_lt_zero k)

/-- **Code that is fetched as the loop fills the data memory.** -/
theorem takes_fill {ram : BitVec 32 → Bool} {fetch : ℕ → Option LoopInstruction} {n : ℕ}
    {seed : BitVec 32}
    (hfetch : ∀ k i, (fillCode n seed)[k]? = some i → fetch (4 * (n + k)) = some i)
    (hram : ∀ a, InData a → ram a = true) (s : TrapHart) :
    ∃ t, Takes ram fetch ((fillSetUp seed).length + 8192 * 10) ⟨s, 4 * n⟩
        ⟨t, 4 * (n + ((fillSetUp seed).length + 10))⟩ ∧ Filling s seed 8192 t := by
  have hsize : (plainCode (fillSetUp seed)).length = (fillSetUp seed).length := List.length_map _
  have hlast : (fillCode n seed)[(fillSetUp seed).length + 9]? =
      some (.bne 7 0 (4 * (n + (fillSetUp seed).length))) := by
    have hfront : (plainCode (fillSetUp seed) ++ fillTurn).length =
        (fillSetUp seed).length + 9 := by
      rw [List.length_append, hsize]
      rfl
    rw [fillCode, ← List.append_assoc, ← hfront]
    exact List.getElem?_concat_length
  obtain ⟨t, hsetUp, hstart⟩ := filling_setUp ram seed s
  have hfirst := takes_block hfetch [] (plainCode (fillSetUp seed)) _ rfl hsetUp
  rw [List.length_nil, Nat.add_zero, Nat.zero_add, hsize] at hfirst
  have hturn : ∀ j t, j < 8192 → Filling s seed j t → ∃ t',
      Takes ram fetch 10 ⟨t, 4 * (n + (fillSetUp seed).length)⟩
        ⟨t', if j + 1 = 8192 then 4 * (n + ((fillSetUp seed).length + 10))
          else 4 * (n + (fillSetUp seed).length)⟩ ∧ Filling s seed (j + 1) t' := by
    intro j t hj h
    obtain ⟨t', hrun, hnext⟩ := h.turn hram hj
    have hstraight := takes_block hfetch (plainCode (fillSetUp seed)) fillTurn _ rfl hrun
    rw [hsize] at hstraight
    refine ⟨t', hstraight.trans (.single ?_), hnext⟩
    have hcount : t'.hart.get 7 = t'.hart.get 0 ↔ j + 1 = 8192 := by
      rw [hnext.count, Hart.get_zero]
      constructor
      · intro heq
        have htoNat := congrArg BitVec.toNat heq
        rw [BitVec.toNat_ofNat, show (0 : BitVec 32).toNat = 0 from rfl] at htoNat
        omega
      · intro heq
        rw [heq]
        rfl
    simp only [loopStep, show fillTurn.length = 9 from rfl, hfetch _ _ hlast, hcount]
    split <;> rfl
  obtain ⟨u, hturns, hend⟩ := takes_turns hturn (by decide) hstart
  exact ⟨u, hfirst.trans hturns, hend⟩

theorem length_fillSetUp_le (seed : BitVec 32) : (fillSetUp seed).length ≤ 4 := by
  have hconstants : (liCode 5 dataBase).length = 1 ∧ (liCode 7 8192).length = 1 := by decide
  have hseed : (liCode 6 seed).length ≤ 2 := by
    rw [liCode]
    split
    · exact Nat.le_refl 2
    · exact Nat.le_succ 1
  rw [fillSetUp, List.length_append, List.length_append]
  omega

theorem length_fillWords (n : ℕ) (seed : BitVec 32) :
    (fillWords n seed).length = (fillSetUp seed).length + 10 := by
  have hlength := congrArg List.length (loopInstructionOf_fillWords n seed)
  rw [List.length_map, List.length_map, fillCode, plainCode, List.length_append, List.length_map]
    at hlength
  exact hlength

/-! ### The preamble -/

/-- The instructions that set the trap vector. -/
def vectorCode : List LoopInstruction :=
  [.trap (.base (.opImm .addi 5 0 4)), .trap (.csrrw 0 mtvec 5)]

/-- The trap vector is set, and the jump before has left register zero alone. -/
theorem runStraight_vectorCode (ram : BitVec 32 → Bool) (s : TrapHart) (link : BitVec 32) :
    ∃ t, runStraight ram vectorCode { s with hart := s.hart.set 0 link } = some t ∧
      t.csr = Function.update s.csr mtvec 4 ∧ t.hart.memory = s.hart.memory ∧
      ∀ r, r ≠ 5 → t.hart.get r = s.hart.get r := by
  refine ⟨_, rfl, ?_, rfl, fun r hr => ?_⟩
  · simp [ImmOp.apply]
  · by_cases hzero : r = 0
    · rw [hzero]
      rfl
    · simp [hr, hzero]

/-- A preamble, with the loop that fills the memory in it. -/
theorem lays_emitPreamble_fillWords :
    Lays (emitPreamble : EngineM G Unit) fun n _ words => ∃ seed back, seed ≠ 0 ∧ words =
      trapHandlerWords n ++ (["addi t0, zero, 4".toList, "csrw mtvec, t0".toList] ++
        (fillWords (n + 30) seed ++ back)) := by
  have hhead : AddsWords (appendUnchecked preambleHead : EngineM G Unit) [] :=
    addsWords_appendUnchecked (by decide)
  have hsetup : Lays (setupTrapHandler 4 : EngineM G Unit) fun _ _ words =>
      words = ["addi t0, zero, 4".toList, "csrw mtvec, t0".toList] :=
    .of_addsWords (.setupTrapHandler _)
      (.bind (addsWords_emitInstructionFormat (by decide)) (addsWords_emitInstruction (by decide)))
  refine Lays.weaken (.bind (.of_addsWords (.part (.appendUnchecked
      "; BEGIN PROTECTED\n.text\n.global _start\n_start:".toList)) hhead) fun _ =>
    .bind lays_emitTrapHandler fun _ => .bind hsetup fun _ => .bind lays_fillWords fun _ =>
    .bind (.emission .emitRegisterInit) fun _ => .bind (.emission .emitVectorInit) fun _ =>
    .emission (.part (.appendUnchecked
      "; END PROTECTED\n; BEGIN MUTABLE\n_mutable_start:".toList))) ?_
  rintro n _ words ⟨_, _, _, rfl, rfl, _, _, _, rfl, rfl, _, _, _, rfl, rfl, _, _, _, rfl,
    ⟨seed, hseed, rfl⟩, _, registers, _, rfl, -, _, vectors, close, rfl, -, -⟩
  refine ⟨seed, registers ++ (vectors ++ close), hseed, ?_⟩
  have hlength : (trapHandlerWords n).length = 28 := rfl
  simp [hlength, Nat.add_assoc]

/-- The beginning of a preamble: the jump over the handler, and the trap vector. -/
theorem takes_trapVector (ram : BitVec 32 → Bool) (back : List Text) (s : TrapHart) :
    ∃ t,
    Takes ram
      (fetchLoop (trapHandlerWords 0 ++ (["addi t0, zero, 4".toList, "csrw mtvec, t0".toList] ++
        back))) 3 ⟨s, 0⟩ ⟨t, 4 * 30⟩ ∧
      t.csr = Function.update s.csr mtvec 4 ∧ t.hart.memory = s.hart.memory ∧
      ∀ r, r ≠ 5 → t.hart.get r = s.hart.get r := by
  have hjump : loopStep ram (fetchLoop (trapHandlerWords 0 ++ (["addi t0, zero, 4".toList,
      "csrw mtvec, t0".toList] ++ back))) ⟨s, 0⟩ =
        some ⟨{ s with hart := s.hart.set 0 4 }, 4 * 28⟩ := by
    have hfetch := @fetchLoop_eq (trapHandlerWords 0 ++ (["addi t0, zero, 4".toList,
      "csrw mtvec, t0".toList] ++ back)) 0 "jal zero, 0x70".toList (.trap (.jal 0 0x70)) rfl
        (by decide)
    rw [Nat.mul_zero] at hfetch
    simp only [loopStep, hfetch]
    rfl
  obtain ⟨t, hvector, ht⟩ := runStraight_vectorCode ram s 4
  have hlines : ["addi t0, zero, 4".toList, "csrw mtvec, t0".toList].map loopInstructionOf =
      vectorCode.map some := by decide
  have hblock :=
    takes_block (fun k i => fetchLoop_of_lines hlines (trapHandlerWords 0) back) [] vectorCode []
    rfl hvector
  exact ⟨t, (Takes.single hjump).trans hblock, ht⟩

/-- **A preamble at the beginning of a program fills the data memory**: from address zero it jumps
over the trap handler, sets the trap vector to it, and stores a word of the generator in every word
of the data memory, none of them zero.  Nothing else changes but `t0` to `t3`. -/
theorem preamble_fills {e e' : IsgEngine G} {u : Unit}
    (hrun : (emitPreamble : EngineM G Unit).run e = some (u, e')) (hroom : HasRoom e)
    (hfit : UncheckedFit e') (hfirst : pcAfter e.text = 0) (rest : List Text)
    {ram : BitVec 32 → Bool} (hram : ∀ a, InData a → ram a = true) (s : TrapHart) :
    ∃ seed steps t, seed ≠ 0 ∧ steps ≤ 81927 ∧
      Takes ram (fetchLoop (assemble e'.text ++ rest)) steps ⟨s, 0⟩
        ⟨t, 4 * (30 + (fillWords 30 seed).length)⟩ ∧
      (∀ k < 8192, loadWord t.hart.memory (dataSlot k) = xorshift32^[k] seed ∧
        loadWord t.hart.memory (dataSlot k) ≠ 0) ∧
      (∀ a, ¬ InData a → t.hart.memory a = s.hart.memory a) ∧
      t.csr = Function.update s.csr mtvec 4 ∧
      ∀ r, r ∉ [5, 6, 7, 28] → t.hart.get r = s.hart.get r := by
  have hintact : BufferIntact e' :=
    ((Emission.emitPreamble.relates_bufferStep _ _ _ hrun).2 hfit hroom).2
  obtain ⟨words, hadds, seed, back, hseed, rfl⟩ :=
    lays_emitPreamble_fillWords.adds _ _ _ hroom hfit hrun
  have hnone : e.words = [] := by
    rw [pcAfter_text hroom.2] at hfirst
    exact List.length_eq_zero_iff.1 (by omega)
  have hprogram : assemble e'.text ++ rest = trapHandlerWords 0 ++
      (["addi t0, zero, 4".toList, "csrw mtvec, t0".toList] ++
        (fillWords 30 seed ++ (back ++ rest))) := by
    rw [assemble_text hintact, hadds, hnone]
    simp
  rw [hprogram]
  obtain ⟨t, hfront, hcsr, hmemory, hregisters⟩ :=
    takes_trapVector ram (fillWords 30 seed ++ (back ++ rest)) s
  have hloop := takes_fill (fun k i => fetchLoop_of_lines (loopInstructionOf_fillWords 30 seed)
    (trapHandlerWords 0 ++ ["addi t0, zero, 4".toList, "csrw mtvec, t0".toList]) (back ++ rest))
      hram t
  rw [List.append_assoc] at hloop
  obtain ⟨v, hfill, hend⟩ := hloop
  have hle := length_fillSetUp_le seed
  refine ⟨seed, 3 + ((fillSetUp seed).length + 8192 * 10), v, hseed, by omega, ?_, ?_, ?_, ?_, ?_⟩
  · rw [length_fillWords]
    exact hfront.trans hfill
  · intro k hk
    rw [hend.filled k hk]
    exact ⟨rfl, xorshift32_iterate_ne_zero hseed k⟩
  · intro a ha
    rw [hend.kept a ha, hmemory]
  · rw [hend.csr, hcsr]
  · intro r hr
    rw [hend.registers r hr]
    exact hregisters r fun h5 => hr (h5 ▸ List.mem_cons_self)

/-- A program with nothing before the preamble. -/
theorem preamble_fills_first :
    ∃ e, (emitPreamble : EngineM mt19937_64 Unit).run (.create mt19937_64 1 fun _ => '\x00') =
      some ((), e) ∧
      ∀ s, ∃ seed steps t,
        seed ≠ 0 ∧ Takes (fun _ => true) (fetchLoop (assemble e.text ++ [])) steps ⟨s, 0⟩
          ⟨t, 4 * (30 + (fillWords 30 seed).length)⟩ := by
  have hbudget : HasBudget (IsgEngine.create mt19937_64 1 fun _ => '\x00') 300 12000 :=
    ⟨by decide, by decide, fun append hmem => absurd hmem List.not_mem_nil⟩
  obtain ⟨u, e, hrun, hspent⟩ := completes_emitPreamble _ hbudget
  refine ⟨e, hrun, fun s => ?_⟩
  have hram : ∀ a, InData a → (fun _ : BitVec 32 => true) a = true := fun _ _ => rfl
  obtain ⟨seed, steps, t, hseed, -, htakes, -⟩ :=
    preamble_fills hrun (hasRoom_create _ _) hspent.fit rfl []
    hram s
  exact ⟨seed, steps, t, hseed, htakes⟩

end CoralNpu
