/-
**Planted breakpoints and the breakpoints set.**

Between two commands of a debugger, the instruction memory should hold an `ebreak` where a
breakpoint is set and the program's own word everywhere else.  Setting, clearing and disassembling
keep this, and so does executing a program that leaves its code alone.  Stepping past a breakpoint
plants the `ebreak` again without asking whether a breakpoint is set there: it keeps this only where
one is.

Main definitions:

* `CoralNpu.InstructionMemory` — the word addresses of the code;
* `CoralNpu.CodeMatches` — the code, with `ebreak` in place of some of its words;
* `CoralNpu.CoralNpuTop.Planted` — the invariant;
* `CoralNpu.CoralNpuTop.Session` — commands done one after another;
* `CoralNpu.CoralNpuTop.Careful` — resuming steps past a breakpoint only where one is set.

Main results:

* `CoralNpu.CodeMatches.writeOriginal`, `CoralNpu.CodeMatches.writeBreakpoint` — one word taken away
  and planted;
* `CoralNpu.CoralNpuTop.plantedWhileKept_perform` — a careful command keeps the invariant;
* `CoralNpu.CoralNpuTop.loadWord_session` — **in every careful session the code matches the
  breakpoints**.
-/

import CoralNpu.CoralNpuTopStep

set_option relaxedAutoImplicit false
set_option autoImplicit false

namespace CoralNpu

open WordMemory
open CodeImage (Word)

/-! ### The code with breakpoints in it -/

/-- The word addresses of a program's code. -/
structure InstructionMemory where
  contains : Address → Prop
  aligned : ∀ {a}, contains a → a.toNat % 4 = 0

/-- Two word addresses are the same or a word apart. -/
theorem aligned_disjoint {a b : Address} (ha : a.toNat % 4 = 0) (hb : b.toNat % 4 = 0)
    (h : a ≠ b) : 4 ≤ (b - a).toNat ∧ (b - a).toNat + 4 ≤ 2 ^ 64 := by
  have hne : a.toNat ≠ b.toNat := fun heq => h (BitVec.eq_of_toNat_eq heq)
  have halt := a.isLt
  have hblt := b.isLt
  rw [BitVec.toNat_sub]
  omega

/-- A word stored at one word address is not seen at another. -/
theorem loadWord_storeWord_of_aligned (memory : Memory) (word : Word) {a b : Address}
    (ha : a.toNat % 4 = 0) (hb : b.toNat % 4 = 0) (h : a ≠ b) :
    loadWord (storeWord memory a word) b = loadWord memory b := by
  obtain ⟨hfar, hlast⟩ := aligned_disjoint ha hb h
  exact loadWord_storeWord_of_disjoint (by decide) memory word hfar hlast

/-- A memory is its words. -/
theorem memory_ext {memory memory' : Memory}
    (h : ∀ a : Address, a.toNat % 4 = 0 → loadWord memory a = loadWord memory' a) :
    memory = memory' := by
  funext b
  have hlt : b.toNat % 4 < 4 := Nat.mod_lt _ (by decide)
  have hk : (BitVec.ofNat 64 (b.toNat % 4)).toNat = b.toNat % 4 := toNat_offset (by decide) hlt
  have hbase : (b - BitVec.ofNat 64 (b.toNat % 4)).toNat % 4 = 0 := by
    rw [BitVec.toNat_sub_of_le (by rw [BitVec.le_def, hk]; exact Nat.mod_le _ _), hk]
    omega
  have hword := congrArg
    (fun word : Word => word.extractLsb' (8 * (BitVec.ofNat 64 (b.toNat % 4)).toNat) 8)
    (h _ hbase)
  rwa [extractLsb'_loadWord (by decide) _ _ (by omega), extractLsb'_loadWord (by decide) _ _
    (by omega), BitVec.sub_add_cancel] at hword

/-- The code is the program's, with `ebreak` at the planted addresses, and what is remembered is the
program's. -/
structure CodeMatches {κ : Type} (region : InstructionMemory) (program : Memory)
    (planted : Set Address) (c : ActionPointMemory κ) : Prop where
  planted_eq : ∀ a, region.contains a → a ∈ planted → loadWord c.memory a = ebreak32
  own_eq : ∀ a, region.contains a → a ∉ planted → loadWord c.memory a = loadWord program a
  remembered_eq : ∀ a word, region.contains a → c.remembered a = some word →
    word = loadWord program a

namespace CodeMatches

variable {κ : Type} {region : InstructionMemory} {program : Memory} {planted : Set Address}
  {c : ActionPointMemory κ} {b : Address} (invalidate : Address → κ → κ)

/-- **A word taken away.** -/
theorem writeOriginal (h : CodeMatches region program planted c)
    (hb : b.toNat % 4 = 0) (hremembered : (c.remembered b).isSome) :
    CodeMatches region program (planted \ {b}) (writeOriginalInstruction invalidate b c).2 := by
  obtain ⟨word, hword⟩ := Option.isSome_iff_exists.1 hremembered
  have hmemory : (writeOriginalInstruction invalidate b c).2.memory =
      storeWord c.memory b word := by rw [memory_writeOriginalInstruction, hword]
  constructor
  · rintro a ha ⟨hplanted, hne⟩
    rw [hmemory, loadWord_storeWord_of_aligned _ _ hb (region.aligned ha) (Ne.symm hne)]
    exact h.planted_eq a ha hplanted
  · intro a ha hplanted
    by_cases hab : a = b
    · subst hab
      rw [hmemory, loadWord_storeWord (by decide)]
      exact h.remembered_eq a word ha hword
    · rw [hmemory, loadWord_storeWord_of_aligned _ _ hb (region.aligned ha) (Ne.symm hab)]
      exact h.own_eq a ha fun hmem => hplanted ⟨hmem, hab⟩
  · intro a word ha hsome
    rw [remembered_writeOriginalInstruction] at hsome
    exact h.remembered_eq a word ha hsome

/-- **A word planted**: it is remembered, unless one is already. -/
theorem writeBreakpoint (h : CodeMatches region program planted c)
    (hb : b.toNat % 4 = 0) (hnew : b ∈ planted → (c.remembered b).isSome) :
    CodeMatches region program (insert b planted)
      (writeBreakpointInstruction invalidate b c).2 := by
  constructor
  · intro a ha hplanted
    rw [memory_writeBreakpointInstruction]
    by_cases hab : a = b
    · subst hab
      exact loadWord_storeWord (by decide) _ _ _
    · rw [loadWord_storeWord_of_aligned _ _ hb (region.aligned ha) (Ne.symm hab)]
      exact h.planted_eq a ha (Set.mem_of_mem_insert_of_ne hplanted hab)
  · intro a ha hplanted
    have hab : a ≠ b := fun heq => hplanted (heq ▸ Set.mem_insert b planted)
    rw [memory_writeBreakpointInstruction,
      loadWord_storeWord_of_aligned _ _ hb (region.aligned ha) (Ne.symm hab)]
    exact h.own_eq a ha fun hmem => hplanted (Set.mem_insert_of_mem b hmem)
  · intro a word ha hsome
    rw [remembered_writeBreakpointInstruction] at hsome
    by_cases hab : a = b
    · subst hab
      rw [Function.update_self, Option.some.injEq] at hsome
      cases hremembered : c.remembered a with
      | none =>
          have hfree : a ∉ planted := fun hmem => by
            have hsome' := hnew hmem
            rw [hremembered] at hsome'
            cases hsome'
          rw [← hsome, hremembered, Option.getD_none]
          exact h.own_eq a ha hfree
      | some first =>
          rw [← hsome, hremembered, Option.getD_some]
          exact h.remembered_eq a first ha hremembered
    · rw [Function.update_of_ne hab] at hsome
      exact h.remembered_eq a word ha hsome

/-- Nothing is forgotten. -/
theorem isSome_remembered_writeBreakpoint {a : Address} (h : (c.remembered a).isSome) :
    ((writeBreakpointInstruction invalidate b c).2.remembered a).isSome := by
  rw [remembered_writeBreakpointInstruction]
  by_cases hab : a = b
  · rw [hab, Function.update_self]
    rfl
  · rwa [Function.update_of_ne hab]

/-- A memory with the same code. -/
theorem congr (h : CodeMatches region program planted c) {c' : ActionPointMemory κ}
    (hmemory : ∀ a, region.contains a → loadWord c'.memory a = loadWord c.memory a)
    (hremembered : c'.remembered = c.remembered) : CodeMatches region program planted c' := by
  constructor
  · intro a ha hplanted
    rw [hmemory a ha]
    exact h.planted_eq a ha hplanted
  · intro a ha hplanted
    rw [hmemory a ha]
    exact h.own_eq a ha hplanted
  · intro a word ha hsome
    rw [hremembered] at hsome
    exact h.remembered_eq a word ha hsome

theorem with_client (h : CodeMatches region program planted c) (client : κ) :
    CodeMatches region program planted { c with client := client } :=
  h.congr (fun _ _ => rfl) rfl

/-- A word taken away is planted again. -/
theorem replant (h : CodeMatches region program (planted \ {b}) c) (hmem : b ∈ planted)
    (hb : b.toNat % 4 = 0) :
    CodeMatches region program planted (writeBreakpointInstruction invalidate b c).2 := by
  have hnew := h.writeBreakpoint invalidate hb fun hself => absurd rfl hself.2
  rwa [Set.insert_sdiff_singleton, Set.insert_eq_of_mem hmem] at hnew

/-- Several words taken away. -/
theorem foldl_writeOriginal (h : CodeMatches region program planted c) (l : List Address)
    (haligned : ∀ a ∈ l, a.toNat % 4 = 0) (hremembered : ∀ a ∈ l, (c.remembered a).isSome) :
    CodeMatches region program (planted \ {a | a ∈ l})
      (l.foldl (fun c a => (writeOriginalInstruction invalidate a c).2) c) := by
  induction l generalizing planted c with
  | nil => simpa using h
  | cons b l ih =>
      have hfirst := h.writeOriginal invalidate (haligned b List.mem_cons_self)
        (hremembered b List.mem_cons_self)
      have hrest := ih hfirst (fun a ha => haligned a (List.mem_cons_of_mem b ha)) fun a ha => by
        rw [remembered_writeOriginalInstruction]
        exact hremembered a (List.mem_cons_of_mem b ha)
      have hset : (planted \ {b}) \ {a | a ∈ l} = planted \ {a | a ∈ b :: l} := by
        ext a
        simp only [Set.mem_sdiff, Set.mem_singleton_iff, Set.mem_ofPred_eq, List.mem_cons, not_or,
          and_assoc]
      rwa [List.foldl_cons, ← hset]

end CodeMatches

namespace CoralNpuTop

variable {ρ : Type} {C : DecodeCache} {region : InstructionMemory} {program : Memory}

/-! ### The invariant -/

/-- The code matches the breakpoints, each of which is a word address with its word remembered. -/
structure Planted (region : InstructionMemory) (program : Memory) (s : CoralNpuTop ρ C) :
    Prop where
  code_matches : CodeMatches region program {a | a ∈ s.breakpoints} s.code
  remembered : ∀ a ∈ s.breakpoints, (s.code.remembered a).isSome
  aligned : ∀ a ∈ s.breakpoints, a.toNat % 4 = 0
  nodup : s.breakpoints.Nodup

/-- The instructions executed do not modify the code. -/
def KeepsCode (region : InstructionMemory) (s : CoralNpuTop ρ C) : Prop :=
  ∀ e ∈ s.executed, ∀ a, region.contains a →
    loadWord e.after.memory a = loadWord e.before.memory a

/-- The invariant, as long as the code is kept. -/
def PlantedWhileKept (region : InstructionMemory) (program : Memory) (s : CoralNpuTop ρ C) : Prop :=
  KeepsCode region s → Planted region program s

theorem Planted.with_code {s s' : CoralNpuTop ρ C} (h : s.Planted region program)
    (hcode : CodeMatches region program {a | a ∈ s.breakpoints} s'.code)
    (hremembered : ∀ a, (s.code.remembered a).isSome → (s'.code.remembered a).isSome)
    (hbreakpoints : s'.breakpoints = s.breakpoints) : s'.Planted region program := by
  constructor
  · rwa [hbreakpoints]
  · rw [hbreakpoints]
    exact fun a ha => hremembered a (h.remembered a ha)
  · rw [hbreakpoints]
    exact h.aligned
  · rw [hbreakpoints]
    exact h.nodup

theorem planted_start (registers : ρ) (memory : Memory) (pc : BitVec 32) :
    (start registers memory pc : CoralNpuTop ρ C).Planted region memory := by
  refine ⟨⟨fun a _ hmem => ?_, fun a _ _ => rfl, fun a word _ hsome => ?_⟩, ?_, ?_, List.nodup_nil⟩
  · cases hmem
  · cases hsome
  · intro a hmem
    cases hmem
  · intro a hmem
    cases hmem

/-! ### Executing -/

section Executing

variable (isa : InstructionSet ρ) (address : Address) {s : CoralNpuTop ρ C}

theorem keepsCode_of_executeAt (h : KeepsCode region (s.executeAt isa address)) :
    KeepsCode region s := by
  intro e he
  refine h e ?_
  rw [executed_executeAt]
  exact List.mem_append_left _ he

theorem remembered_executeAt :
    (s.executeAt isa address).code.remembered = s.code.remembered := by
  funext a
  rw [ActionPointMemory.remembered, ActionPointMemory.remembered, instructionMap_executeAt]

/-- The code, when an instruction keeps it. -/
theorem loadWord_executeAt (hkept : KeepsCode region (s.executeAt isa address)) {a : Address}
    (ha : region.contains a) :
    loadWord (s.executeAt isa address).code.memory a = loadWord s.code.memory a := by
  have hentry := hkept (s.entryAt isa address) (by rw [executed_executeAt]; simp) a ha
  rw [memory_executeAt, hentry, memory_before_entryAt]

theorem codeMatches_executeAt {planted : Set Address}
    (h : CodeMatches region program planted s.code)
    (hkept : KeepsCode region (s.executeAt isa address)) :
    CodeMatches region program planted (s.executeAt isa address).code :=
  h.congr (fun _ ha => loadWord_executeAt isa address hkept ha) (remembered_executeAt isa address)

/-- An instruction executed. -/
theorem plantedWhileKept_executeAt (h : PlantedWhileKept region program s) :
    PlantedWhileKept region program (s.executeAt isa address) := by
  intro hkept
  have hs := h (keepsCode_of_executeAt isa address hkept)
  refine hs.with_code ?_ (fun a ha => ?_) (breakpoints_executeAt isa address s)
  · exact codeMatches_executeAt isa address hs.code_matches hkept
  · rwa [remembered_executeAt]

/-- **A step past a breakpoint that is set.** -/
theorem plantedWhileKept_stepPastBreakpoint (h : PlantedWhileKept region program s)
    (hpc : s.pcAddress ∈ s.breakpoints) :
    PlantedWhileKept region program (s.stepPastBreakpoint isa) := by
  intro hkept
  have hs := h fun e he => hkept e (by
    rw [executed_stepPastBreakpoint]
    exact List.mem_append_left _ he)
  have haligned := hs.aligned s.pcAddress hpc
  have haway := hs.code_matches.writeOriginal C.invalidate haligned (hs.remembered s.pcAddress hpc)
  have hexecuted := codeMatches_executeAt isa s.pcAddress haway hkept
  refine hs.with_code ?_ (fun a ha => ?_) (breakpoints_stepPastBreakpoint isa s)
  · exact hexecuted.replant C.invalidate hpc haligned
  · refine CodeMatches.isSome_remembered_writeBreakpoint C.invalidate ?_
    rwa [remembered_executeAt, remembered_writeOriginalInstruction]

end Executing

/-- A loop. -/
theorem plantedWhileKept_iterate (isa : InstructionSet ρ) (n : ℕ) {l : Loop ρ C}
    (h : PlantedWhileKept region program l.top) :
    PlantedWhileKept region program (iterate (advance isa) n l).top :=
  iterate_invariant (P := fun l => PlantedWhileKept region program l.top)
    (fun l _ hl => plantedWhileKept_executeAt isa l.nextPc hl) n h

/-! ### Commands -/

/-- The pc operand and the flags do not matter. -/
theorem PlantedWhileKept.congr {s s' : CoralNpuTop ρ C} (h : PlantedWhileKept region program s)
    (hcode : s'.code = s.code) (hbreakpoints : s'.breakpoints = s.breakpoints)
    (hexecuted : s'.executed = s.executed) : PlantedWhileKept region program s' := by
  intro hkept
  have hs := h fun e he => hkept e (by rwa [hexecuted])
  refine hs.with_code ?_ (fun a ha => ?_) hbreakpoints
  · rw [hcode]
    exact hs.code_matches
  · rwa [hcode]

/-- Resuming steps past a breakpoint only where one is set, and breakpoints are set at word
addresses. -/
def Careful : TopCommand → CoralNpuTop ρ C → Prop
  | .setSwBreakpoint address, _ => address.toNat % 4 = 0
  | .step num, s => 0 < num → s.needToStepOver = true → s.pcAddress ∈ s.breakpoints
  | .run, s => s.needToStepOver = true → s.pcAddress ∈ s.breakpoints
  | _, _ => True

section Commands

variable (isa : InstructionSet ρ) (garbage : Address) {s : CoralNpuTop ρ C}

theorem plantedWhileKept_finishPc {l : Loop ρ C} (h : PlantedWhileKept region program l.top) :
    PlantedWhileKept region program (finishPc l) := by
  rw [finishPc]
  split
  · exact h.congr rfl rfl rfl
  · exact h.congr rfl rfl rfl

theorem plantedWhileKept_stepHalted (num : ℕ) (h : PlantedWhileKept region program s)
    (hcareful : s.needToStepOver = true → s.pcAddress ∈ s.breakpoints) :
    PlantedWhileKept region program (s.stepHalted isa garbage num).2 := by
  have hstart : PlantedWhileKept region program (stepStart isa garbage s).top := by
    simp only [stepStart]
    split
    · rename_i hneed
      exact plantedWhileKept_stepPastBreakpoint isa (h.congr rfl rfl rfl) (hcareful hneed)
    · exact h.congr rfl rfl rfl
  simp only [stepHalted, iterate_stepBody, stepFinish]
  have hloop := plantedWhileKept_finishPc
    (plantedWhileKept_iterate isa (num - (stepStart isa garbage s).count) hstart)
  split
  · exact hloop.congr rfl rfl rfl
  · exact hloop.congr rfl rfl rfl

theorem plantedWhileKept_run (fuel : ℕ) {s' : CoralNpuTop ρ C}
    (h : PlantedWhileKept region program s)
    (hcareful : s.needToStepOver = true → s.pcAddress ∈ s.breakpoints)
    (hrun : s.run isa garbage fuel = .ok (some s')) : PlantedWhileKept region program s' := by
  have hstart : PlantedWhileKept region program (runStart isa garbage s).top := by
    simp only [runStart]
    split
    · rename_i hneed
      have hclear : PlantedWhileKept region program
          ({ s with needToStepOver := false } : CoralNpuTop ρ C) := h.congr rfl rfl rfl
      exact (plantedWhileKept_stepPastBreakpoint isa hclear (hcareful hneed)).congr rfl rfl rfl
    · exact h.congr rfl rfl rfl
  have hloop := plantedWhileKept_finishPc (plantedWhileKept_iterate isa fuel hstart)
  rw [run] at hrun
  split at hrun
  · cases hrun
  · simp only [runLoop, iterate_runBody] at hrun
    split at hrun
    · cases hrun
      exact hloop.congr rfl rfl rfl
    · cases hrun

theorem plantedWhileKept_setSwBreakpoint {address : Address}
    (h : PlantedWhileKept region program s) (haligned : address.toNat % 4 = 0) :
    PlantedWhileKept region program (s.setSwBreakpoint address).2 := by
  rw [setSwBreakpoint]
  split
  · exact h
  · split
    · exact h
    · rename_i hnew
      intro hkept
      have hs := h hkept
      have hfree : address ∉ s.breakpoints := fun hmem => hnew (List.contains_iff_mem.2 hmem)
      have hset : {a | a ∈ address :: s.breakpoints} = insert address {a | a ∈ s.breakpoints} := by
        ext a
        simp
      constructor
      · show CodeMatches region program {a | a ∈ address :: s.breakpoints} _
        rw [hset]
        exact hs.code_matches.writeBreakpoint C.invalidate haligned fun hmem => absurd hmem hfree
      · intro a ha
        rcases List.mem_cons.1 ha with rfl | ha
        · show ((writeBreakpointInstruction C.invalidate a s.code).2.remembered a).isSome
          rw [remembered_writeBreakpointInstruction, Function.update_self]
          rfl
        · exact CodeMatches.isSome_remembered_writeBreakpoint C.invalidate (hs.remembered a ha)
      · intro a ha
        rcases List.mem_cons.1 ha with rfl | ha
        · exact haligned
        · exact hs.aligned a ha
      · exact List.nodup_cons.2 ⟨hfree, hs.nodup⟩

theorem plantedWhileKept_clearSwBreakpoint (address : Address)
    (h : PlantedWhileKept region program s) :
    PlantedWhileKept region program (s.clearSwBreakpoint address).2 := by
  rw [clearSwBreakpoint]
  split
  · exact h
  · split
    · rename_i hset
      intro hkept
      have hs := h hkept
      have hmem : address ∈ s.breakpoints := List.contains_iff_mem.1 hset
      have hset : {a | a ∈ s.breakpoints.erase address} = {a | a ∈ s.breakpoints} \ {address} := by
        ext a
        simp [hs.nodup.mem_erase_iff, and_comm]
      constructor
      · show CodeMatches region program {a | a ∈ s.breakpoints.erase address} _
        rw [hset]
        exact hs.code_matches.writeOriginal C.invalidate (hs.aligned address hmem)
          (hs.remembered address hmem)
      · intro a ha
        show ((writeOriginalInstruction C.invalidate address s.code).2.remembered a).isSome
        rw [remembered_writeOriginalInstruction]
        exact hs.remembered a (List.mem_of_mem_erase ha)
      · intro a ha
        exact hs.aligned a (List.mem_of_mem_erase ha)
      · exact hs.nodup.erase address
    · exact h

theorem plantedWhileKept_clearAllSwBreakpoints (h : PlantedWhileKept region program s) :
    PlantedWhileKept region program s.clearAllSwBreakpoints.2 := by
  rw [clearAllSwBreakpoints]
  split
  · exact h
  · intro hkept
    have hs := h hkept
    have hnone := hs.code_matches.foldl_writeOriginal C.invalidate s.breakpoints hs.aligned
      hs.remembered
    refine ⟨?_, by simp, by simp, List.nodup_nil⟩
    show CodeMatches region program {a | a ∈ []} _
    simpa using hnone

theorem plantedWhileKept_getDisassembly (address : Address) {s' : CoralNpuTop ρ C}
    {inst : DecodedInstruction} (h : PlantedWhileKept region program s)
    (hok : s.getDisassembly address = .ok (inst, s')) :
    PlantedWhileKept region program s' := by
  obtain ⟨client, rfl⟩ := getDisassembly_eq_ok hok
  intro hkept
  have hs := h hkept
  split
  · rename_i hactive
    have hmem : address ∈ s.breakpoints := List.contains_iff_mem.1 hactive
    have haligned := hs.aligned address hmem
    have haway := hs.code_matches.writeOriginal C.invalidate haligned
      (hs.remembered address hmem)
    refine hs.with_code ((haway.with_client client).replant C.invalidate hmem haligned)
      (fun a ha => ?_) rfl
    refine CodeMatches.isSome_remembered_writeBreakpoint C.invalidate ?_
    show ((writeOriginalInstruction C.invalidate address s.code).2.remembered a).isSome
    rwa [remembered_writeOriginalInstruction]
  · exact hs.with_code (hs.code_matches.with_client client) (fun _ ha => ha) rfl

/-- **A careful command keeps the invariant.** -/
theorem plantedWhileKept_perform (fuel : ℕ) (command : TopCommand) {s' : CoralNpuTop ρ C}
    (h : PlantedWhileKept region program s) (hcareful : Careful command s)
    (hperform : s.perform isa garbage fuel command = some s') :
    PlantedWhileKept region program s' := by
  cases command with
  | setSwBreakpoint address =>
      cases hperform
      exact plantedWhileKept_setSwBreakpoint h hcareful
  | clearSwBreakpoint address =>
      cases hperform
      exact plantedWhileKept_clearSwBreakpoint address h
  | clearAllSwBreakpoints =>
      cases hperform
      exact plantedWhileKept_clearAllSwBreakpoints h
  | getDisassembly address =>
      rw [perform] at hperform
      split at hperform
      · rename_i heq
        cases hperform
        exact plantedWhileKept_getDisassembly address h heq
      · cases hperform
        exact h
  | step num =>
      rw [perform, step] at hperform
      split at hperform
      · rename_i heq
        split at heq
        · cases heq
        · rename_i hnum
          split at heq
          · cases heq
          · cases heq
            cases hperform
            exact plantedWhileKept_stepHalted isa garbage num.toNat h
              (hcareful (Int.not_le.1 hnum))
      · cases hperform
        exact h
  | run =>
      rw [perform] at hperform
      split at hperform
      · rename_i heq
        rw [hperform] at heq
        exact plantedWhileKept_run isa garbage fuel h hcareful heq
      · cases hperform
        exact h
  | writePc value =>
      cases hperform
      rw [writePc]
      split
      · exact h
      · split
        · exact h.congr rfl rfl rfl
        · exact h.congr rfl rfl rfl

end Commands

/-! ### Sessions -/

/-- Commands done one after another, each in a state it is allowed in. -/
inductive Session (allowed : TopCommand → CoralNpuTop ρ C → Prop) (isa : InstructionSet ρ) :
    CoralNpuTop ρ C → CoralNpuTop ρ C → Prop where
  | refl (s : CoralNpuTop ρ C) : Session allowed isa s s
  | perform {s s' s'' : CoralNpuTop ρ C} (h : Session allowed isa s s') (command : TopCommand)
      (garbage : Address) (fuel : ℕ) (hallowed : allowed command s')
      (hperform : s'.perform isa garbage fuel command = some s'') : Session allowed isa s s''

theorem plantedWhileKept_session {isa : InstructionSet ρ} {s s' : CoralNpuTop ρ C}
    (h : PlantedWhileKept region program s) (hsession : Session Careful isa s s') :
    PlantedWhileKept region program s' := by
  induction hsession with
  | refl => exact h
  | perform _ command garbage fuel hallowed hperform ih =>
      exact plantedWhileKept_perform isa garbage fuel command ih hallowed hperform

/-- **In every careful session the code matches the breakpoints.** -/
theorem loadWord_session (region : InstructionMemory) (isa : InstructionSet ρ) (registers : ρ)
    (memory : Memory) (pc : BitVec 32) {s : CoralNpuTop ρ C}
    (hsession : Session Careful isa (start registers memory pc) s) (hkept : KeepsCode region s)
    {a : Address} (ha : region.contains a) :
    loadWord s.code.memory a = if a ∈ s.breakpoints then ebreak32 else loadWord memory a := by
  have hstart : PlantedWhileKept region memory (start registers memory pc : CoralNpuTop ρ C) :=
    fun _ => planted_start registers memory pc
  have hs := plantedWhileKept_session hstart hsession hkept
  split
  · rename_i hmem
    exact hs.code_matches.planted_eq a ha hmem
  · rename_i hmem
    exact hs.code_matches.own_eq a ha hmem

/-- The first word address alone. -/
def firstWord : InstructionMemory where
  contains a := a = 0
  aligned h := by rw [h]; rfl

/-- A breakpoint on a `nop` set, hit and stepped past. -/
theorem loadWord_session_breakpointOnNop :
    let s := (breakpointOnNop.stepHalted plainIsa 0 1).2
    loadWord s.code.memory 0 =
      if 0 ∈ s.breakpoints then ebreak32 else loadWord (fun _ : Address => 0#8) 0 := by
  have hset : Session Careful plainIsa (start () (fun _ => 0) 0)
      ((start () (fun _ => 0) 0 : CoralNpuTop Unit noCache).setSwBreakpoint 0).2 :=
    (Session.refl _).perform (.setSwBreakpoint 0) 0 0 rfl rfl
  have hrun := hset.perform .run 0 1 nofun (show _ = some breakpointOnNop from rfl)
  have hstep := hrun.perform (.step 1) 0 0 (fun _ _ => by decide) rfl
  have hkept : ∀ e ∈ (breakpointOnNop.stepHalted plainIsa 0 1).2.executed,
      loadWord e.after.memory 0 = loadWord e.before.memory 0 := by decide
  exact loadWord_session firstWord plainIsa () (fun _ => 0) 0 hstep
    (fun e he a ha => by rw [show a = 0 from ha]; exact hkept e he) rfl

/-- The breakpoint set, hit and cleared before the step. -/
def strayEbreak : CoralNpuTop Unit noCache :=
  ((breakpointOnNop.clearSwBreakpoint 0).2.stepHalted plainIsa 0 1).2

/-- The step plants an `ebreak` where no breakpoint is set. -/
theorem not_loadWord_session_strayEbreak :
    ¬ ∀ (region : InstructionMemory) (memory : Memory) (s : CoralNpuTop Unit noCache),
      Session (fun _ _ => True) plainIsa (start () memory 0) s → KeepsCode region s →
      ∀ a, region.contains a →
        loadWord s.code.memory a = if a ∈ s.breakpoints then ebreak32 else loadWord memory a := by
  intro h
  have hset : Session (fun _ _ => True) plainIsa (start () (fun _ => 0) 0)
      ((start () (fun _ => 0) 0 : CoralNpuTop Unit noCache).setSwBreakpoint 0).2 :=
    (Session.refl _).perform (.setSwBreakpoint 0) 0 0 trivial rfl
  have hrun := hset.perform .run 0 1 trivial (show _ = some breakpointOnNop from rfl)
  have hclear := hrun.perform (.clearSwBreakpoint 0) 0 0 trivial rfl
  have hstep := hclear.perform (.step 1) 0 0 trivial (show _ = some strayEbreak from rfl)
  have hkept : ∀ e ∈ strayEbreak.executed,
      loadWord e.after.memory 0 = loadWord e.before.memory 0 := by decide
  have hword := h firstWord (fun _ => 0) strayEbreak hstep
    (fun e he a ha => by rw [show a = 0 from ha]; exact hkept e he) 0 rfl
  exact absurd hword (by decide)

end CoralNpuTop

end CoralNpu
