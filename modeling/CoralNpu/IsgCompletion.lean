/-
**Emissions that complete.**

An emission aborts when the watchdog runs out or the buffer is full.  This module bounds what an
emission uses up: ticks of the watchdog, characters of the buffer, and words of the program.  With
a budget that covers the bound the emission completes, and every append made without a check fits.

Main definitions:

* `CoralNpu.HasBudget`, `CoralNpu.Spent` — what is left, and what is used up;
* `CoralNpu.Completes` — a program that completes within its bounds.

Main results:

* `CoralNpu.completes_emitPreamble` — **the preamble completes** on an engine with enough room;
* `CoralNpu.completes_generateControlHazard` — and so does a control hazard.
-/

import CoralNpu.IsgLayout

set_option relaxedAutoImplicit false
set_option autoImplicit false

namespace CoralNpu

open AsciiText PartialState

variable {G : Prng}

/-! ### Bounds -/

/-- The engine has this many ticks and characters left. -/
structure HasBudget (e : IsgEngine G) (ticks chars : ℕ) : Prop where
  ticks : e.watchdog.currentIterations + ticks ≤ e.watchdog.maxIterations
  chars : e.assemblyLength + chars < kAssemblyBufferSize
  fit : UncheckedFit e

/-- At most this much is used up between the two engines. -/
structure Spent (e e' : IsgEngine G) (ticks chars words : ℕ) : Prop where
  maxIterations : e'.watchdog.maxIterations = e.watchdog.maxIterations
  ticks : e'.watchdog.currentIterations ≤ e.watchdog.currentIterations + ticks
  chars : e'.assemblyLength ≤ e.assemblyLength + chars
  words : e'.words.length ≤ e.words.length + words
  fit : UncheckedFit e'

/-- What is left after a program. -/
theorem HasBudget.after {e e' : IsgEngine G} {ticks chars words ticks' chars' : ℕ}
    (h : HasBudget e (ticks + ticks') (chars + chars')) (hspent : Spent e e' ticks chars words) :
    HasBudget e' ticks' chars' := by
  obtain ⟨hmax, hticks, hchars, -, hfit⟩ := hspent
  have hroom := h.ticks
  have hspace := h.chars
  exact ⟨by omega, by omega, hfit⟩

theorem HasBudget.before {e : IsgEngine G} {ticks chars ticks' chars' : ℕ}
    (h : HasBudget e (ticks + ticks') (chars + chars')) : HasBudget e ticks chars := by
  have hroom := h.ticks
  have hspace := h.chars
  exact ⟨by omega, by omega, h.fit⟩

/-- With this budget the program completes, and uses up no more. -/
def Completes {α : Type} (m : EngineM G α) (ticks chars words : ℕ) : Prop :=
  ∀ e, HasBudget e ticks chars → ∃ a e', m.run e = some (a, e') ∧ Spent e e' ticks chars words

namespace Completes

variable {α β : Type} {m : EngineM G α} {f : α → EngineM G β} {ticks chars words : ℕ}
  {ticks' chars' words' : ℕ}

theorem weaken (h : Completes m ticks chars words) (hticks : ticks ≤ ticks')
    (hchars : chars ≤ chars') (hwords : words ≤ words') : Completes m ticks' chars' words' := by
  intro e he
  obtain ⟨a, e', hrun, hspent⟩ :=
    h e ⟨by have := he.ticks; omega, by have := he.chars; omega, he.fit⟩
  refine ⟨a, e', hrun, hspent.maxIterations, ?_, ?_, ?_, hspent.fit⟩
  · have := hspent.ticks
    omega
  · have := hspent.chars
    omega
  · have := hspent.words
    omega

theorem pure (a : α) : Completes (Pure.pure a : EngineM G α) 0 0 0 :=
  fun e he => ⟨a, e, rfl, rfl, Nat.le_refl _, Nat.le_refl _, Nat.le_refl _, he.fit⟩

/-- Two programs use up what each of them does. -/
theorem bind (hm : Completes m ticks chars words) (hf : ∀ a, Completes (f a) ticks' chars' words') :
    Completes (m >>= f) (ticks + ticks') (chars + chars') (words + words') := by
  intro e he
  have hticks := he.ticks
  have hchars := he.chars
  obtain ⟨a, e₁, hfirst, hspent⟩ := hm e ⟨by omega, by omega, he.fit⟩
  obtain ⟨hmax₁, hticks₁, hchars₁, hwords₁, hfit₁⟩ := hspent
  obtain ⟨b, e₂, hsecond, hspent⟩ := hf a e₁ ⟨by omega, by omega, hfit₁⟩
  obtain ⟨hmax₂, hticks₂, hchars₂, hwords₂, hfit₂⟩ := hspent
  exact ⟨b, e₂, run_bind_eq_some.2 ⟨a, e₁, hfirst, hsecond⟩, by omega, by omega, by omega, by omega,
    hfit₂⟩

theorem ite {p : Prop} [Decidable p] {m' : EngineM G α} (h : Completes m ticks chars words)
    (h' : Completes m' ticks chars words) : Completes (if p then m else m') ticks chars words := by
  split
  · exact h
  · exact h'

theorem forM {xs : List α} {g : α → EngineM G Unit}
    (h : ∀ x ∈ xs, Completes (g x) ticks chars words) :
    Completes (xs.forM g) (xs.length * ticks) (xs.length * chars) (xs.length * words) := by
  induction xs with
  | nil => simpa using Completes.pure ()
  | cons x xs ih =>
      rw [List.forall_mem_cons] at h
      refine (bind h.1 fun _ => ih h.2).weaken ?_ ?_ ?_ <;>
        rw [List.length_cons, Nat.add_one_mul, Nat.add_comm]

end Completes

/-! ### Single lines -/

/-- A program that changes neither watchdog nor length nor trace. -/
theorem completes_modify {f : IsgEngine G → IsgEngine G}
    (h : ∀ e, (f e).watchdog = e.watchdog ∧ (f e).assemblyLength = e.assemblyLength ∧
      (f e).trace.events = e.trace.events ∧
      (f e).trace.uncheckedAppends = e.trace.uncheckedAppends) :
    Completes (modify f : EngineM G Unit) 0 0 0 := by
  intro e he
  obtain ⟨hwatchdog, hlength, hevents, hunchecked⟩ := h e
  refine ⟨(), f e, rfl, by rw [hwatchdog], by rw [hwatchdog]; exact Nat.le_refl _,
    Nat.le_of_eq hlength, by rw [IsgEngine.words, hevents]; exact Nat.le_refl _, ?_⟩
  intro append hmem
  exact he.fit append (hunchecked ▸ hmem)

theorem completes_tick : Completes (tick : EngineM G Unit) 1 0 0 := by
  intro e he
  have hticks := he.ticks
  have htick : e.watchdog.tick = some { e.watchdog with
      currentIterations := e.watchdog.currentIterations + 1 } := by
    rw [IsgWatchdog.tick, if_neg (by omega)]
  refine ⟨(), { e with watchdog := { e.watchdog with
      currentIterations := e.watchdog.currentIterations + 1 } }, ?_, rfl, Nat.le_refl _,
    Nat.le_refl _, Nat.le_refl _, he.fit⟩
  simp only [tick, StateT.run_bind, StateT.run_get, Option.pure_def, Option.bind_eq_bind,
    Option.bind_some, htick]
  rfl

theorem completes_draw : Completes (draw : EngineM G _) 0 0 0 :=
  fun _ he => ⟨_, _, rfl, rfl, Nat.le_refl _, Nat.le_refl _, Nat.le_refl _, he.fit⟩

theorem completes_vectorState : Completes (vectorState : EngineM G _) 0 0 0 :=
  fun _ he => ⟨_, _, rfl, rfl, Nat.le_refl _, Nat.le_refl _, Nat.le_refl _, he.fit⟩

/-- A text has no more lines than characters. -/
theorem length_lines_le (text : Text) : (lines text).length ≤ text.length := by
  induction h : text.length using Nat.strongRecOn generalizing text with
  | _ n ih =>
      subst h
      by_cases hnewline : '\n' ∈ text
      · obtain ⟨front, back, rfl⟩ := List.append_of_mem hnewline
        have hlength : (front ++ '\n' :: back).length = front.length + back.length + 1 := by
          rw [List.length_append, List.length_cons]
          omega
        have hfront := ih front.length (by omega) front rfl
        have hback := ih back.length (by omega) back rfl
        rw [lines_append, List.length_append]
        omega
      · by_cases hne : text = []
        · subst hne
          decide
        · rw [lines_of_not_mem hnewline hne]
          exact List.length_pos_iff.2 hne

theorem pcAfter_le (text : Text) : pcAfter text ≤ 4 * text.length := by
  have hwords : (assemble text).length ≤ (lines text).length :=
    Nat.le_trans (List.length_filter_le _ _) (Nat.le_of_eq (List.length_map _))
  have hlines := length_lines_le text
  rw [pcAfter_eq]
  omega

/-- The address after the text is a 32-bit number. -/
theorem completes_currentPc {α : Type} {m : ℕ → EngineM G α} {ticks chars words : ℕ}
    (hm : ∀ pc < 2 ^ 31, Completes (m pc) ticks chars words) :
    Completes (currentPc >>= m) ticks chars words := by
  intro e he
  have hchars := he.chars
  have hlength : e.text.length = e.assemblyLength := by simp [IsgEngine.text]
  have hpc := pcAfter_le e.text
  rw [kAssemblyBufferSize] at hchars
  obtain ⟨a, e', hrun, hspent⟩ := hm (pcAfter e.text) (by omega) e he
  exact ⟨a, e', run_bind_eq_some.2 ⟨_, e, rfl, hrun⟩, hspent⟩

theorem completes_print (text : Text) : Completes (print text : EngineM G _) 0 0 0 :=
  completes_modify fun _ => ⟨rfl, rfl, rfl, rfl⟩

theorem completes_setVl (vl : BitVec 32) : Completes (setVl vl : EngineM G _) 0 0 0 :=
  completes_modify fun _ => ⟨rfl, rfl, rfl, rfl⟩

theorem completes_setVectorState (tracker : VectorStateTracker) :
    Completes (setVectorState tracker : EngineM G _) 0 0 0 :=
  completes_modify fun _ => ⟨rfl, rfl, rfl, rfl⟩

theorem completes_advance (written : ℕ) : Completes (advance written : EngineM G _) 0 written 0 :=
  fun _ he => ⟨(), _, rfl, rfl, Nat.le_refl _, Nat.le_refl _, Nat.le_refl _, he.fit⟩

/-- The check passes when the budget covers the text. -/
theorem completes_checkRoom {α : Type} {m : Unit → EngineM G α} {written ticks chars words : ℕ}
    (hm : ∀ u, Completes (m u) ticks chars words) (hwritten : written ≤ chars) :
    Completes (checkRoom written >>= m) ticks chars words := by
  intro e he
  have hchars := he.chars
  obtain ⟨a, e', hrun, hspent⟩ := hm () e he
  refine ⟨a, e', run_bind_eq_some.2 ⟨(), e, ?_, hrun⟩, hspent⟩
  simp only [checkRoom, check, StateT.run_bind, StateT.run_get, Option.pure_def,
    Option.bind_eq_bind, Option.bind_some, if_pos (show e.assemblyLength + written <
      kAssemblyBufferSize by omega)]
  rfl

/-- An append without a check fits when the budget covers the text. -/
theorem completes_noteUnchecked {α : Type} {m : Unit → EngineM G α} {written ticks chars words : ℕ}
    (hm : ∀ u, Completes (m u) ticks chars words) (hwritten : written ≤ chars) :
    Completes (noteUnchecked written >>= m) ticks chars words := by
  intro e he
  have hchars := he.chars
  have hnoted : UncheckedFit (e.noted written) := by
    intro append hmem
    rcases List.mem_append.1 hmem with hmem | hmem
    · exact he.fit append hmem
    · rw [List.mem_singleton.1 hmem]
      exact Nat.lt_of_le_of_lt (Nat.add_le_add_left hwritten _) hchars
  obtain ⟨a, e', hrun, hspent⟩ := hm () (e.noted written) ⟨he.ticks, he.chars, hnoted⟩
  exact ⟨a, e', run_bind_eq_some.2 ⟨(), e.noted written, rfl, hrun⟩, hspent.maxIterations,
    hspent.ticks, hspent.chars, hspent.words, hspent.fit⟩

theorem completes_noteItem {item : Text} {words : ℕ}
    (h : (wordsOfLines (lines item)).length ≤ words) :
    Completes (noteItem item : EngineM G _) 0 0 words := by
  intro e he
  refine ⟨(), _, rfl, rfl, Nat.le_refl _, Nat.le_refl _, ?_, he.fit⟩
  rw [words_of_item (e := e) rfl, List.length_append]
  omega

theorem completes_appendChecked {item : Text} {words : ℕ}
    (h : (wordsOfLines (lines item)).length ≤ words) :
    Completes (appendChecked item : EngineM G _) 0 item.length words := by
  refine ((completes_print item).bind fun _ => completes_checkRoom
    (fun _ => (completes_advance item.length).bind fun _ => completes_noteItem h)
    (Nat.le_refl _)).weaken ?_ ?_ ?_ <;> simp

theorem completes_appendUnchecked {item : Text} {words : ℕ}
    (h : (wordsOfLines (lines item)).length ≤ words) :
    Completes (appendUnchecked item : EngineM G _) 0 item.length words := by
  refine (completes_noteUnchecked (fun _ => (completes_print item).bind fun _ =>
    (completes_advance item.length).bind fun _ => completes_noteItem h) ?_).weaken ?_ ?_ ?_ <;> simp

/-- A line has at most one word. -/
theorem length_wordsOfLines_le {line : Text} (h : '\n' ∉ line) :
    (wordsOfLines (lines (line ++ "\n".toList))).length ≤ 1 := by
  have hlines : (lines (line ++ "\n".toList)).length ≤ 1 := by
    rw [show "\n".toList = '\n' :: [] from rfl, lines_append]
    by_cases hne : line = []
    · subst hne
      decide
    · rw [lines_of_not_mem h hne]
      exact Nat.le_refl 1
  refine Nat.le_trans (List.length_filter_le _ _) ?_
  rwa [List.length_map]

/-- The body of `EmitInstructionFormat`, on a line that is no `vset`. -/
theorem completes_emitInstructionFormatBody {setUp : EngineM G Unit} {ticks chars words : ℕ}
    (hsetUp : Completes setUp ticks chars words) {inst : Text} (hinst : '\n' ∉ inst)
    (hvset : isVset (strip inst) = false) :
    Completes (emitInstructionFormatBody setUp inst) (ticks + 1) (chars + inst.length + 1)
      (words + 1) := by
  have hadvance : Completes (advance inst.length : EngineM G Unit) ticks
      (chars + inst.length) words :=
    (completes_advance inst.length).weaken (by omega) (by omega) (by omega)
  -- the set-up lines, and the instruction printed once more
  have hprint : Completes (do noteUnchecked inst.length; print inst; advance inst.length :
      EngineM G Unit) 0 inst.length 0 := by
    refine completes_noteUnchecked (fun _ => ?_) (Nat.le_refl _)
    exact ((completes_print inst).bind fun _ => completes_advance inst.length).weaken (by omega)
      (by omega) (by omega)
  have hagain : Completes (do setUp; noteUnchecked inst.length; print inst; advance inst.length)
      ticks (chars + inst.length) words := hsetUp.bind fun _ => hprint
  have hplace : Completes (placeInstruction setUp inst) ticks (chars + inst.length) words := by
    rw [placeInstruction, if_neg (by simp [hvset])]
    refine Completes.ite ?_ hadvance
    refine (completes_vectorState.bind fun _ => .ite hagain hadvance).weaken ?_ ?_ ?_ <;> omega
  have hend : Completes (endLine inst : EngineM G Unit) 0 1 1 :=
    completes_noteUnchecked (fun _ => (completes_print _).bind fun _ =>
      (completes_advance 1).bind fun _ => completes_noteItem (length_wordsOfLines_le hinst))
      (Nat.le_refl _)
  refine (completes_tick.bind fun _ => (completes_print inst).bind fun _ =>
    completes_checkRoom (fun _ => hplace.bind fun _ => hend) (by omega)).weaken ?_ ?_ ?_ <;> omega

/-- `EmitInstructionFormat`, on a line of at most `n` characters that is no vector instruction. -/
theorem completes_emitInstructionFormat {inst : Text} (hinst : '\n' ∉ inst)
    (hvector : isVector (strip inst) = false) {n : ℕ} (hlength : inst.length ≤ n) :
    Completes (emitInstructionFormat inst : EngineM G Unit) 1 (n + 1) 1 := by
  have hbody := completes_emitInstructionFormatBody (Completes.pure (G := G) ()) hinst
    (isVset_of_isVector hvector)
  rw [emitInstructionFormatBody_congr hvector] at hbody
  exact hbody.weaken (by omega) (by omega) (by omega)

/-- `EmitInstruction`, on a line of its own that is no vector instruction. -/
theorem completes_emitInstruction {inst : Text} (h : PlainLine inst) :
    Completes (emitInstruction inst : EngineM G Unit) 1 (inst.length + 1) 1 := by
  have happend := completes_appendChecked (G := G) (length_wordsOfLines_le h.newline)
  have hbody : Completes (do
      let vectorState ← vectorState
      (if isVector (strip inst) && needsSetUp vectorState then vectorSetUp appendChecked
        else pure ())
      appendChecked (cString inst ++ "\n".toList) : EngineM G Unit) 0 (inst.length + 1) 1 := by
    rw [h.strip_eq, h.not_isVector, h.cString_eq]
    exact (completes_vectorState.bind fun _ => (Completes.pure ()).bind fun _ => happend).weaken
      (Nat.le_refl _) (by simp) (Nat.le_refl _)
  have hvset : ¬ isVset (strip inst) = true := by
    rw [h.strip_eq, isVset_of_isVector h.not_isVector]
    exact Bool.false_ne_true
  have hrest := completes_tick.bind fun _ => hbody
  simpa only [emitInstruction, if_neg hvset, Nat.zero_add, Nat.add_zero] using hrest

/-- Instructions of at most `n` characters. -/
theorem completes_emitInstructions {insts : List String} {n : ℕ}
    (h : ∀ inst ∈ insts, PlainLine inst.toList ∧ inst.toList.length ≤ n) :
    Completes (emitInstructions insts : EngineM G Unit) insts.length (insts.length * (n + 1))
      insts.length := by
  have hinst : ∀ inst ∈ insts,
      Completes (emitInstruction inst.toList : EngineM G Unit) 1 (n + 1) 1 :=
    fun inst hinst => (completes_emitInstruction (h inst hinst).1).weaken (Nat.le_refl 1)
      (Nat.add_le_add_right (h inst hinst).2 1) (Nat.le_refl 1)
  have hforM := Completes.forM hinst
  rwa [Nat.mul_one] at hforM

/-! ### Constants and set-up lines -/

theorem length_hex_le {n : ℕ} (h : n < 2 ^ 32) : (hex n).length ≤ 8 :=
  (Nat.length_toDigits_le_iff (by decide) (by decide)).2 (Nat.lt_of_lt_of_le h (by decide))

theorem length_signed_le (x : BitVec 32) : (signed x.toInt).length ≤ 11 := by
  have hlo := BitVec.le_two_mul_toInt (x := x)
  have hhi := BitVec.two_mul_toInt_lt (x := x)
  have hdigits : (decimal x.toInt.natAbs).length ≤ 10 :=
    (Nat.length_toDigits_le_iff (by decide) (by decide)).2 (by omega)
  rw [signed]
  split
  · rw [List.length_cons]
    omega
  · omega

/-- A register name. -/
def IsRegister (reg : Text) : Prop := '\n' ∉ reg ∧ reg.length ≤ 3

instance (reg : Text) : Decidable (IsRegister reg) := inferInstanceAs (Decidable (_ ∧ _))

theorem newline_not_mem {word : Text} (h : IsWord word) : '\n' ∉ word :=
  fun hmem => absurd (h.2 _ hmem) (by decide)

theorem completes_lui {reg : Text} (hreg : IsRegister reg) {n : ℕ} (h : n < 2 ^ 32) :
    Completes (emitInstructionFormat ("lui ".toList ++ (reg ++ (", 0x".toList ++ hex n))) :
      EngineM G Unit) 1 30 1 := by
  obtain ⟨hnewline, hlength⟩ := hreg
  have hhex := length_hex_le h
  have hvector : isVector (strip ("lui ".toList ++ (reg ++ (", 0x".toList ++ hex n)))) = false :=
    isVector_strip (by decide) (by decide)
  refine completes_emitInstructionFormat ?_ hvector ?_
  · simp [hnewline, newline_not_mem (isWord_hex _)]
  · simp
    omega

theorem completes_addi {reg : Text} (hreg : IsRegister reg) (x : BitVec 32) :
    Completes (emitInstructionFormat ("addi ".toList ++ (reg ++ (", ".toList ++ (reg ++
      (", ".toList ++ signed x.toInt))))) : EngineM G Unit) 1 30 1 := by
  obtain ⟨hnewline, hlength⟩ := hreg
  have hsigned := length_signed_le x
  have hvector : isVector (strip ("addi ".toList ++ (reg ++ (", ".toList ++ (reg ++
      (", ".toList ++ signed x.toInt)))))) = false :=
    isVector_strip (by decide) (by decide)
  refine completes_emitInstructionFormat ?_ hvector ?_
  · simp [hnewline, newline_not_mem (isWord_signed _)]
  · simp
    omega

theorem completes_emitLi {reg : Text} (hreg : IsRegister reg) (val : BitVec 32) :
    Completes (emitLi reg val : EngineM G Unit) 2 60 2 := by
  rw [emitLi_eq, emitLiBody]
  simp only [List.append_assoc]
  exact (completes_lui hreg (BitVec.isLt _)).bind fun _ => .ite (completes_addi hreg _)
    ((Completes.pure ()).weaken (Nat.zero_le _) (Nat.zero_le _) (Nat.zero_le _))

theorem completes_emitLi_draw {reg : Text} (hreg : IsRegister reg) (f : BitVec 64 → BitVec 32) :
    Completes (do emitLi reg (f (← draw)) : EngineM G Unit) 2 60 2 :=
  (completes_draw.bind fun _ => completes_emitLi hreg _).weaken (Nat.le_refl _) (Nat.le_refl _)
    (Nat.le_refl _)

theorem length_toText_le (sew : VectorSew) (lmul : VectorLmul) :
    sew.toText.length ≤ 3 ∧ lmul.toText.length ≤ 3 := by
  constructor
  · cases sew <;> decide
  · cases lmul <;> decide

/-- The lines in front of a vector instruction. -/
theorem completes_vectorSetUp {append : Text → EngineM G Unit}
    (happend : ∀ line, '\n' ∉ line →
      Completes (append (line ++ "\n".toList)) 0 (line.length + 1) 1) :
    Completes (vectorSetUp append) 4 200 6 := by
  have hfirst : ∀ value : BitVec 64, Completes (append ("addi t3, zero, ".toList ++
      decimal (value.toNat % 32 + 1) ++ "\n".toList)) 0 30 1 := by
    intro value
    have hdecimal : (decimal (value.toNat % 32 + 1)).length ≤ 2 :=
      (Nat.length_toDigits_le_iff (by decide) (by decide)).2 (by omega)
    refine (happend _ ?_).weaken (Nat.le_refl _) ?_ (Nat.le_refl _)
    · simp [newline_not_mem (isWord_decimal _)]
    · simp
      omega
  have hvset : ∀ sew lmul, Completes (emitVsetvli "t2".toList "t3".toList sew lmul true true :
      EngineM G Unit) 0 50 1 := by
    intro sew lmul
    obtain ⟨hsew, hlmul⟩ := length_toText_le sew lmul
    have hnewline : '\n' ∉ sew.toText ∧ '\n' ∉ lmul.toText := by
      cases sew <;> cases lmul <;> decide
    have hregs : cString ['t', '2'] = ['t', '2'] ∧ cString ['t', '3'] = ['t', '3'] := by decide
    refine ((completes_setVectorState _).bind fun _ =>
      completes_appendChecked (length_wordsOfLines_le ?_)).weaken (Nat.le_refl _) ?_ (Nat.le_refl _)
    · simp [hnewline, hregs, tailText, maskText]
    · simp [hregs, tailText, maskText]
      omega
  have hpointers : Completes (emitSafePointerInit ["t2".toList, "t3".toList] : EngineM G Unit)
      (2 * 2) (2 * 60) (2 * 2) := by
    have hregs : ∀ reg ∈ ["t2".toList, "t3".toList], IsRegister reg := by decide
    exact Completes.forM fun reg hreg => completes_emitLi_draw (hregs reg hreg) fun value =>
      BitVec.ofNat 32 kDefaultRwRegionStart +
        BitVec.ofNat 32 (kReservedDtcmBytes + value.toNat % (0x1000 - kReservedDtcmBytes))
  have hrest : ∀ value : BitVec 64, Completes (do
      let vectorState ← vectorState
      emitVsetvli "t2".toList "t3".toList vectorState.sew vectorState.lmul true true
      setVl (BitVec.ofNat 32 (value.toNat % 32 + 1))
      emitSafePointerInit ["t2".toList, "t3".toList] : EngineM G Unit) 4 170 5 :=
    fun value => (completes_vectorState.bind fun _ => (hvset _ _).bind fun _ =>
      (completes_setVl _).bind fun _ => hpointers).weaken (by decide) (by decide) (by decide)
  exact (completes_draw.bind fun value => (hfirst value).bind fun _ => hrest value).weaken
    (by decide) (by decide) (by decide)

/-! ### The preamble and the control hazard -/

/-- A fixed text followed by a printed operand. -/
theorem completes_operandLine {c : Char} {front operand : Text}
    (hc : c ≠ '#' ∧ c ≠ ';' ∧ c ≠ '.' ∧ c ≠ 'v' ∧ isSpace c = false)
    (hfront : ('\n' ∉ c :: front ∧ '\x00' ∉ c :: front) ∧ front.length ≤ 28)
    (hoperand : IsOperand operand) (hlength : operand.length ≤ 10) :
    Completes (emitInstructionFormat (c :: front ++ operand) : EngineM G Unit) 1 40 1 := by
  have hline : PlainLine (c :: front ++ operand) := plainLine_append hc hfront.1 hoperand
  refine completes_emitInstructionFormat hline.newline
    (by rw [hline.strip_eq]; exact hline.not_isVector)
    (n := 39) ?_
  rw [List.length_append, List.length_cons]
  omega

/-- Every address the generator prints has few digits. -/
theorem length_hexAlt_le {n : ℕ} (h : n < 2 ^ 32) : (hexAlt n).length ≤ 10 := by
  have hhex := length_hex_le h
  rw [hexAlt]
  split
  · decide
  · simp only [List.length_cons]
    omega

theorem length_decimal_le {n : ℕ} (h : n < 2 ^ 32) : (decimal n).length ≤ 10 :=
  (Nat.length_toDigits_le_iff (by decide) (by decide)).2 (by omega)

theorem completes_instructions (insts : List String) {n : ℕ} (hn : insts.length = n)
    (h : ∀ inst ∈ insts, PlainLine inst.toList ∧ inst.toList.length ≤ 39) :
    Completes (emitInstructions insts : EngineM G Unit) n (n * 40) n := by
  subst hn
  exact completes_emitInstructions h

theorem completes_emitTrapHandler :
    Completes (emitTrapHandler : EngineM G Unit) 28 1120 28 := by
  have hbeq : ∀ pc < 2 ^ 32, Completes (emitInstructionFormat ("beq t1, t2, ".toList ++ hexAlt pc) :
      EngineM G Unit) 1 40 1 := by
    intro pc hpc
    have hhex := length_hexAlt_le hpc
    exact completes_operandLine (by decide) (by decide) (isOperand_hexAlt pc) (by omega)
  have hjal : ∀ pc < 2 ^ 32, Completes (emitInstructionFormat ("jal zero, ".toList ++ hexAlt pc) :
      EngineM G Unit) 1 40 1 := by
    intro pc hpc
    have hhex := length_hexAlt_le hpc
    exact completes_operandLine (by decide) (by decide) (isOperand_hexAlt pc) (by omega)
  have hentry := completes_instructions (G := G) trapHandlerEntry (n := 16) rfl (by decide)
  have hreturn := completes_instructions (G := G) trapHandlerReturn (n := 3) rfl (by decide)
  have hrestore := completes_instructions (G := G) trapHandlerRestore (n := 7) rfl (by decide)
  exact hentry.bind fun _ => completes_currentPc fun pc hpc => (hbeq _ (by omega)).bind fun _ =>
    hreturn.bind fun _ => completes_currentPc fun pc hpc =>
      (hjal _ (by omega)).bind fun _ => hrestore

theorem completes_emitFillLoop : Completes (emitFillLoop : EngineM G Unit) 16 583 16 := by
  have hbne : ∀ pc < 2 ^ 32,
      Completes (emitInstructionFormat ("bne t2, zero, 0x".toList ++ hex pc) :
      EngineM G Unit) 1 40 1 := by
    intro pc hpc
    have hhex := length_hex_le hpc
    exact completes_operandLine (by decide) (by decide) (isOperand_hex pc) (by omega)
  have hlabel : Completes (appendUnchecked "1:\n".toList : EngineM G Unit) 0 3 0 :=
    completes_appendUnchecked (by decide)
  have hloop := completes_instructions (G := G) fillLoop (n := 9) rfl (by decide)
  exact (completes_emitLi (by decide) _).bind fun _ => completes_draw.bind fun _ =>
    (completes_emitLi (by decide) _).bind fun _ => (completes_emitLi (by decide) _).bind fun _ =>
    completes_currentPc fun pc hpc => hlabel.bind fun _ => hloop.bind fun _ => hbne pc (by omega)

/-- An instruction with a fixed text. -/
theorem completes_instruction (inst : String)
    (h : PlainLine inst.toList ∧ inst.toList.length ≤ 39) :
    Completes (emitInstruction inst.toList : EngineM G Unit) 1 40 1 :=
  (completes_emitInstruction h.1).weaken (Nat.le_refl _) (by omega) (Nat.le_refl _)

/-- `addi t0, zero` with a printed number. -/
theorem completes_addiZero {n : ℕ} (h : n < 2 ^ 32) :
    Completes (emitInstructionFormat ("addi t0, zero, ".toList ++ decimal n) : EngineM G Unit)
      1 40 1 :=
  completes_operandLine (by decide) (by decide) (isOperand_decimal n) (length_decimal_le h)

/-- A register numbered below 32. -/
theorem isRegister_number {c : Char} (hc : c ≠ '\n') {n : ℕ} (h : n < 32) :
    IsRegister (c :: decimal n) := by
  have hlength : (decimal n).length ≤ 2 :=
    (Nat.length_toDigits_le_iff (by decide) (by decide)).2 (by omega)
  refine ⟨?_, Nat.succ_le_succ hlength⟩
  simp [newline_not_mem (isWord_decimal n), hc.symm]

theorem completes_emitRegisterInit :
    Completes (emitRegisterInit : EngineM G Unit) 177 7000 177 := by
  have hregisters : Completes ((List.range' 1 31).forM fun i => do
      emitLi ("x".toList ++ decimal i) ((← draw).setWidth 32) : EngineM G Unit)
      (31 * 2) (31 * 60) (31 * 2) := by
    refine Completes.forM fun i hi => completes_emitLi_draw ?_ fun value => value.setWidth 32
    obtain ⟨-, hlt⟩ := List.mem_range'_1.1 hi
    exact isRegister_number (by decide) (by omega)
  have hfloats : Completes ((List.range 32).forM fun i => do
      emitLi "t0".toList ((← draw).setWidth 32)
      emitInstructionFormat ("mv.w.x f".toList ++ decimal i ++ ", t0".toList) : EngineM G Unit)
      (32 * 3) (32 * 100) (32 * 3) := by
    refine Completes.forM fun i hi => ?_
    have hdecimal := length_decimal_le (n := i) (by have := List.mem_range.1 hi; omega)
    have hmove : Completes (emitInstructionFormat ("mv.w.x f".toList ++ (decimal i ++
        ", t0".toList)) : EngineM G Unit) 1 40 1 := by
      have hvector : isVector (strip ("mv.w.x f".toList ++ (decimal i ++ ", t0".toList))) = false :=
        isVector_strip (by decide) (by decide)
      refine completes_emitInstructionFormat ?_ hvector ?_
      · simp [newline_not_mem (isWord_decimal _)]
      · simp
        omega
    rw [List.append_assoc]
    exact completes_draw.bind fun _ => (completes_emitLi (by decide) _).bind fun _ => hmove
  -- a random value into a control register
  have hcsr : ∀ inst : String,
      PlainLine inst.toList ∧ inst.toList.length ≤ 39 → ∀ {k : EngineM G Unit}
      {ticks chars words : ℕ}, Completes k ticks chars words → Completes (do
        emitLi "t0".toList ((← draw).setWidth 32)
        emitInstruction inst.toList
        k) (3 + ticks) (100 + chars) (3 + words) := by
    intro inst hinst k ticks chars words hk
    refine (completes_draw.bind fun _ => (completes_emitLi (by decide) _).bind fun _ =>
      (completes_instruction inst hinst).bind fun _ => hk).weaken ?_ ?_ ?_ <;> omega
  have hsmall : ∀ {n : ℕ}, 0 < n → n < 2 ^ 32 → ∀ inst : String,
      PlainLine inst.toList ∧ inst.toList.length ≤ 39 → ∀ {k : EngineM G Unit}
      {ticks chars words : ℕ}, Completes k ticks chars words → Completes (do
        emitInstructionFormat ("addi t0, zero, ".toList ++ decimal ((← draw).toNat % n))
        emitInstruction inst.toList
        k) (2 + ticks) (80 + chars) (2 + words) := by
    intro n hpos hn inst hinst k ticks chars words hk
    refine (completes_draw.bind fun value => (completes_addiZero (n := value.toNat % n) (by
      have := Nat.mod_lt value.toNat hpos
      omega)).bind fun _ => (completes_instruction inst hinst).bind fun _ => hk).weaken
        ?_ ?_ ?_ <;> omega
  have htail := hcsr "csrw mscratch, t0" (by decide) (hcsr "csrw mepc, t0" (by decide)
    (hcsr "csrw mcause, t0" (by decide) (hsmall (n := 4) (by decide) (by decide) "csrw vxrm, t0"
    (by decide) (hsmall (n := 2) (by decide) (by decide) "csrw vxsat, t0" (by decide)
    ((completes_instruction (G := G) "csrw vstart, zero" (by decide)).bind
      fun _ => hfloats)))))
  refine ((completes_emitLi (by decide) _).bind fun _ =>
    (completes_instruction "csrw mstatus, t0" (by decide)).bind fun _ =>
    hregisters.bind fun _ => completes_draw.bind fun _ => completes_draw.bind fun _ =>
    (completes_addiZero (BitVec.isLt _)).bind fun _ =>
    (completes_instruction "csrw fcsr, t0" (by decide)).bind fun _ => htail).weaken
    ?_ ?_ ?_ <;> decide

/-- A vector load of the preamble, with the lines that may come first. -/
theorem completes_vectorLoad {i : ℕ} (hi : i < 32) :
    Completes (emitInstructionFormat ("vle8.v v".toList ++ decimal i ++ ",(t0)".toList) :
      EngineM G Unit) 5 300 7 := by
  have hlength : (decimal i).length ≤ 10 := length_decimal_le (by omega)
  have hvset : isVset (strip ("vle8.v v".toList ++ decimal i ++ ",(t0)".toList)) = false := by
    have hword : IsWord "vle8.v".toList := by decide
    obtain ⟨rest, hrest⟩ := exists_strip_append hword.1 hword.isSpace_eq
      (" v".toList ++ decimal i ++ ",(t0)".toList)
    have hstrip : strip ("vle8.v v".toList ++ decimal i ++ ",(t0)".toList) =
        "vle8.v".toList ++ rest := by
      rw [← hrest]
      simp
    rw [hstrip]
    rfl
  refine (completes_emitInstructionFormatBody (completes_vectorSetUp fun line hline => ?_) ?_
    hvset).weaken (Nat.le_refl _) ?_ (Nat.le_refl _)
  · refine (completes_appendUnchecked (length_wordsOfLines_le hline)).weaken (Nat.le_refl _) ?_
      (Nat.le_refl _)
    simp
  · simp [newline_not_mem (isWord_decimal _)]
  · simp
    omega

theorem completes_resetTracker : Completes (resetTracker : EngineM G Unit) 0 0 0 := by
  intro e he
  refine ⟨(), _, rfl, rfl, Nat.le_refl _, Nat.le_refl _, ?_, he.fit⟩
  simp [IsgEngine.words]

theorem completes_emitVectorInit : Completes (emitVectorInit : EngineM G Unit) 36 1720 44 := by
  have hloads : Completes ([0, 8, 16, 24].forM fun i => do
      emitInstructionFormat ("vle8.v v".toList ++ decimal i ++ ",(t0)".toList)
      emitInstruction "addi t0, t0, 1024".toList : EngineM G Unit) (4 * 6) (4 * 340) (4 * 8) := by
    refine Completes.forM fun i hi => ?_
    have hlt : ∀ i ∈ [0, 8, 16, 24], i < 32 := by decide
    exact (completes_vectorLoad (hlt i hi)).bind fun _ =>
      completes_instruction "addi t0, t0, 1024" (by decide)
  have haddress : Completes (drawDataAddress : EngineM G _) 0 0 0 :=
    completes_draw.bind fun _ => Completes.pure _
  refine (completes_resetTracker.bind fun _ => (completes_emitLi (by decide) _).bind fun _ =>
    hloads.bind fun _ => haddress.bind fun _ => (completes_emitLi (by decide) _).bind fun _ =>
    haddress.bind fun _ => (completes_emitLi (by decide) _).bind fun _ =>
    haddress.bind fun _ => (completes_emitLi (by decide) _).bind fun _ =>
    haddress.bind fun _ => (completes_emitLi (by decide) _).bind fun _ =>
    completes_emitLi (by decide) _).weaken ?_ ?_ ?_ <;> decide

/-- **The preamble completes** on an engine with enough room. -/
theorem completes_emitPreamble : Completes (emitPreamble : EngineM G Unit) 300 12000 300 := by
  have hwords : (wordsOfLines (lines preambleHead)).length ≤ 0 ∧
      (wordsOfLines (lines preambleTail)).length ≤ 0 := by decide
  have hhead : Completes (appendUnchecked preambleHead : EngineM G Unit) 0 47 0 :=
    completes_appendUnchecked hwords.1
  have htail : Completes (appendUnchecked preambleTail : EngineM G Unit) 0 48 0 :=
    completes_appendUnchecked hwords.2
  have hsetup : Completes (setupTrapHandler 4 : EngineM G Unit) 2 80 2 :=
    (completes_addiZero (BitVec.isLt _)).bind fun _ =>
      completes_instruction "csrw mtvec, t0" (by decide)
  refine (hhead.bind fun _ => completes_emitTrapHandler.bind fun _ => hsetup.bind fun _ =>
    completes_emitFillLoop.bind fun _ => completes_emitRegisterInit.bind fun _ =>
    completes_emitVectorInit.bind fun _ => htail).weaken ?_ ?_ ?_ <;> decide

/-- **A control hazard completes** on an engine with enough room. -/
theorem completes_generateControlHazard :
    Completes (generateControlHazard : EngineM G Unit) 10 400 10 := by
  have hbeq : ∀ pc < 2 ^ 32, Completes (emitInstructionFormat ("beq t0, t1, 0x".toList ++ hex pc) :
      EngineM G Unit) 1 40 1 := by
    intro pc hpc
    have hhex := length_hex_le hpc
    exact completes_operandLine (by decide) (by decide) (isOperand_hex pc) (by omega)
  have hbne : ∀ pc < 2 ^ 32, Completes (emitInstructionFormat ("bne t0, t1, 0x".toList ++ hex pc) :
      EngineM G Unit) 1 40 1 := by
    intro pc hpc
    have hhex := length_hex_le hpc
    exact completes_operandLine (by decide) (by decide) (isOperand_hex pc) (by omega)
  have hnops : ∀ dist ≤ 4, Completes (emitInstructions (List.replicate dist "addi x0, x0, 0") :
      EngineM G Unit) 4 160 4 := by
    intro dist hdist
    have hnop : PlainLine "addi x0, x0, 0".toList ∧ "addi x0, x0, 0".toList.length ≤ 39 := by decide
    refine (completes_instructions (List.replicate dist "addi x0, x0, 0") (n := dist) (by simp)
      fun inst hinst => List.eq_of_mem_replicate hinst ▸ hnop).weaken ?_ ?_ ?_ <;> omega
  have hhead :=
    completes_instructions (G := G) ["addi t0, zero, 2", "addi t1, zero, 0"] (n := 2) rfl
    (by decide)
  exact (completes_draw.bind fun value => hhead.bind fun _ => completes_currentPc fun pc hpc =>
    (hbeq _ (by omega)).bind fun _ => (hnops _ (by omega)).bind fun _ =>
    (completes_instruction "addi t0, t0, -1" (by decide)).bind fun _ => hbne pc (by omega)).weaken
    (by decide) (by decide) (by decide)

end CoralNpu
