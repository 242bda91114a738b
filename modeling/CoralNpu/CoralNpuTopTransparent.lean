/-
**Running with breakpoints and without.**

A breakpoint that is hit is seen by the program: its `ebreak` is executed and counted like any other
instruction, and resuming can lose a halt or the pc.  A breakpoint on a word that the program
neither executes nor touches is not seen.  Both runs then execute the same instructions on the same
registers, on memories that differ under the breakpoints only.

That an instruction does not touch some bytes is said of its effect: whatever these bytes hold, it
leaves them and does the same.

Main definitions:

* `CoralNpu.CoralNpuTop.Resumes` — the sessions of `Step` and `Run` until the program terminates;
* `CoralNpu.CoralNpuTop.Transparent` — every such session ends as the run without breakpoints;
* `CoralNpu.CoralNpuTop.Ignores`, `CoralNpu.CoralNpuTop.Untouched` — instructions that do not touch
  some bytes;
* `CoralNpu.CoralNpuTop.Shadows` — the simulation.

Main results:

* `CoralNpu.CoralNpuTop.Shadows.executeAt` — an instruction keeps the simulation;
* `CoralNpu.CoralNpuTop.transparent_of_untouched` — **breakpoints the program does not touch are
  transparent**.
-/

import CoralNpu.CoralNpuTopBreakpoint

set_option relaxedAutoImplicit false
set_option autoImplicit false

namespace CoralNpu

open WordMemory
open CodeImage (Word)

namespace CoralNpuTop

variable {ρ : Type} {C : DecodeCache}

/-! ### Transparency -/

/-- Breakpoints set one after another. -/
def setSwBreakpoints (breakpoints : List Address) (s : CoralNpuTop ρ C) : CoralNpuTop ρ C :=
  breakpoints.foldl (fun s address => (s.setSwBreakpoint address).2) s

/-- The program has terminated: the core is halted, and not by a breakpoint. -/
def Terminated (s : CoralNpuTop ρ C) : Prop :=
  s.halted = true ∧ s.haltReason ≠ .softwareBreakpoint

instance (s : CoralNpuTop ρ C) : Decidable s.Terminated := inferInstanceAs (Decidable (_ ∧ _))

/-- `Step` and `Run` until the program has terminated. -/
def Resumes : TopCommand → CoralNpuTop ρ C → Prop
  | .step _, s => ¬ s.Terminated
  | .run, s => ¬ s.Terminated
  | _, _ => False

/-- The program executes no `ebreak`. -/
def HasNoEbreak (s : CoralNpuTop ρ C) : Prop := ∀ e ∈ s.executed, e.instruction.word ≠ ebreak32

/-- The program does not modify the code it executes. -/
def KeepsOwnCode (s : CoralNpuTop ρ C) : Prop :=
  ∀ e ∈ s.executed, ∀ e' ∈ s.executed,
    loadWord e.after.memory e'.instruction.address =
      loadWord e.before.memory e'.instruction.address

/-- The same registers, memory and count of instructions, once the breakpoints are cleared. -/
structure SameOutcome (plain s : CoralNpuTop ρ C) : Prop where
  registers_eq : s.registers = plain.registers
  pc_eq : s.pc = plain.pc
  numInstructions_eq : s.numInstructions = plain.numInstructions
  memory_eq : s.clearAllSwBreakpoints.2.code.memory = plain.code.memory

/-- **The breakpoints are transparent**: every session can be resumed until the program terminates,
and then the outcome is that of the plain run. -/
structure Transparent (isa : InstructionSet ρ) (breakpoints : List Address)
    (s plain : CoralNpuTop ρ C) : Prop where
  terminates : ∀ s', Session Resumes isa (s.setSwBreakpoints breakpoints) s' →
    ∃ s'', Session Resumes isa s' s'' ∧ s''.Terminated
  same : ∀ s', Session Resumes isa (s.setSwBreakpoints breakpoints) s' → s'.Terminated →
    SameOutcome plain s'

/-! ### Instructions that do not touch some bytes -/

/-- The bytes under some breakpoints. -/
def underBreakpoints (breakpoints : List Address) : Set Address :=
  {a | ∃ b ∈ breakpoints, (a - b).toNat < 4}

/-- The halt an instruction requests, on the core it finds. -/
def requestAt (isa : InstructionSet ρ) (inst : DecodedInstruction) (breakpoints : List Address)
    (c : CoreState ρ) : Option HaltReason :=
  let (c, event) := isa.execute inst (stalled isa (isa.stalls inst c) c)
  eventRequest isa inst breakpoints c event

/-- An instruction ignores some bytes: whatever they hold, it leaves them and does the same. -/
structure Ignores (isa : InstructionSet ρ) (bytes : Set Address) (inst : DecodedInstruction)
    (c : CoreState ρ) : Prop where
  core_eq : ∀ memory, (∀ a, a ∉ bytes → memory a = c.memory a) → ∃ memory',
    coreAfter isa inst { c with memory := memory } =
      { coreAfter isa inst c with memory := memory' } ∧
    (∀ a ∈ bytes, memory' a = memory a) ∧
    ∀ a, a ∉ bytes → memory' a = (coreAfter isa inst c).memory a
  request_eq : ∀ memory, (∀ a, a ∉ bytes → memory a = c.memory a) → ∀ breakpoints,
    requestAt isa inst breakpoints { c with memory := memory } =
      requestAt isa inst breakpoints c

/-- An instruction executed is not fetched from some bytes and ignores them. -/
structure Untouched (isa : InstructionSet ρ) (bytes : Set Address) (e : Executed ρ) : Prop where
  fetch : ∀ k : Address, k.toNat < 4 → e.instruction.address + k ∉ bytes
  ignores : Ignores isa bytes e.instruction e.before

/-- An ignored byte is kept. -/
theorem Ignores.memory_eq {isa : InstructionSet ρ} {bytes : Set Address}
    {inst : DecodedInstruction} {c : CoreState ρ} (h : Ignores isa bytes inst c) {a : Address}
    (ha : a ∈ bytes) : (coreAfter isa inst c).memory a = c.memory a := by
  obtain ⟨memory', hcore, hin, -⟩ := h.core_eq c.memory fun _ _ => rfl
  have hmemory := congrArg CoreState.memory hcore
  rw [← hin a ha]
  exact congrFun hmemory a

/-- A breakpoint elsewhere does not matter to a request. -/
theorem eventRequest_of_not_mem {isa : InstructionSet ρ} {inst : DecodedInstruction}
    {breakpoints : List Address} (h : inst.address ∉ breakpoints) (c : CoreState ρ)
    (event : Option CoreEvent) :
    eventRequest isa inst breakpoints c event = eventRequest isa inst [] c event := by
  have hmem : breakpoints.contains inst.address = false := by
    rw [← Bool.not_eq_true, List.contains_iff_mem]
    exact h
  unfold eventRequest
  rw [hmem]
  rfl

theorem requestAt_of_not_mem (isa : InstructionSet ρ) {inst : DecodedInstruction}
    {breakpoints : List Address} (h : inst.address ∉ breakpoints) (c : CoreState ρ) :
    requestAt isa inst breakpoints c = requestAt isa inst [] c := eventRequest_of_not_mem h _ _

/-- Without breakpoints there are no halts by one. -/
theorem eventRequest_nil_ne (isa : InstructionSet ρ) (inst : DecodedInstruction)
    (c : CoreState ρ) (event : Option CoreEvent) :
    eventRequest isa inst [] c event ≠ some .softwareBreakpoint := by
  unfold eventRequest
  split
  · exact nofun
  · split
    · split <;> exact nofun
    · exact nofun
  · exact nofun
  · split <;> exact nofun

/-! ### An instruction executed in both runs -/

/-- What the instruction finds: the pc operand is behind it. -/
def fetched (isa : InstructionSet ρ) (inst : DecodedInstruction) (c : CoreState ρ) : CoreState ρ :=
  { c with pc := (inst.address + isa.size inst).setWidth 32 }

/-- What is recorded of an instruction, on the core. -/
theorem entryAt_eq (isa : InstructionSet ρ) (address : Address) (s : CoralNpuTop ρ C) :
    s.entryAt isa address =
      let inst := (s.getDecodedInstruction address).1
      let c := fetched isa inst s.core
      ⟨inst, c, { coreAfter isa inst c with
        numInstructions := (coreAfter isa inst c).numInstructions + 1 },
        requestAt isa inst s.breakpoints c⟩ := by
  rw [entryAt, ready, getDecodedInstruction]
  cases C.lookup s.code.client address <;> rfl

theorem client_executeAt (isa : InstructionSet ρ) (address : Address) (s : CoralNpuTop ρ C) :
    (s.executeAt isa address).code.client =
      (s.getDecodedInstruction address).2.code.client := by
  rw [executeAt_eq, ready, getDecodedInstruction]
  cases C.lookup s.code.client address <;> rfl

/-- The decode cache holds the program's own words. -/
def CachesOwn (code : Set Address) (program : Memory) (s : CoralNpuTop ρ C) : Prop :=
  ∀ a ∈ code, ∀ word, C.lookup s.code.client a = some word → word = loadWord program a

section Decode

variable {code : Set Address} {program : Memory} {s : CoralNpuTop ρ C} {address : Address}

/-- The program's own word is decoded. -/
theorem getDecodedInstruction_of_cachesOwn (h : CachesOwn code program s) (hcode : address ∈ code)
    (hword : loadWord s.code.memory address = loadWord program address) :
    (s.getDecodedInstruction address).1 = ⟨address, loadWord program address⟩ := by
  rw [getDecodedInstruction]
  cases hlookup : C.lookup s.code.client address with
  | none => simp only [hword]
  | some word => simp only [h address hcode word hlookup]

theorem cachesOwn_executeAt (isa : InstructionSet ρ) (h : CachesOwn code program s)
    (hword : loadWord s.code.memory address = loadWord program address) :
    CachesOwn code program (s.executeAt isa address) := by
  intro a ha word hlookup
  rw [client_executeAt, getDecodedInstruction] at hlookup
  cases hcached : C.lookup s.code.client address with
  | some _ =>
      rw [hcached] at hlookup
      exact h a ha word hlookup
  | none =>
      rw [hcached] at hlookup
      rcases C.lookup_insert hlookup with ⟨rfl, rfl⟩ | hold
      · exact hword
      · exact h a ha word hold

end Decode

/-- **The simulation**: `t` is a state of the plain run that started in `t₀`, and `s` one of the run
that started in `s₀`, with the breakpoints.  The memories differ under the breakpoints only, where
neither run changes anything. -/
structure Shadows (code : Set Address) (t₀ s₀ t s : CoralNpuTop ρ C) : Prop where
  core_eq : s.core = { t.core with memory := s.code.memory }
  halted_eq : s.halted = t.halted
  haltReason_eq : s.haltReason = t.haltReason
  haltReason_none : t.halted = false → t.haltReason = .none
  haltReason_ne : t.haltReason ≠ .softwareBreakpoint
  needToStepOver_eq : s.needToStepOver = false
  breakpoints_eq : s.breakpoints = s₀.breakpoints
  plain_breakpoints_eq : t.breakpoints = []
  instructionMap_eq : s.code.instructionMap = s₀.code.instructionMap
  outside_eq : ∀ a, a ∉ underBreakpoints s₀.breakpoints → s.code.memory a = t.code.memory a
  planted_eq : ∀ a ∈ underBreakpoints s₀.breakpoints, s.code.memory a = s₀.code.memory a
  own_eq : ∀ a ∈ underBreakpoints s₀.breakpoints, t.code.memory a = t₀.code.memory a
  code_eq : ∀ a ∈ code, loadWord t.code.memory a = loadWord t₀.code.memory a
  plain_cachesOwn : CachesOwn code t₀.code.memory t
  cachesOwn : CachesOwn code t₀.code.memory s

section Simulation

variable {code : Set Address} {t₀ s₀ t s : CoralNpuTop ρ C} (isa : InstructionSet ρ)
  {address : Address}

/-- Both runs decode the program's own word. -/
theorem Shadows.decoded (h : Shadows code t₀ s₀ t s) (hcode : address ∈ code)
    (hfetch : ∀ k : Address, k.toNat < 4 → address + k ∉ underBreakpoints s₀.breakpoints) :
    loadWord s.code.memory address = loadWord t₀.code.memory address ∧
      (t.getDecodedInstruction address).1 = ⟨address, loadWord t₀.code.memory address⟩ ∧
      (s.getDecodedInstruction address).1 = ⟨address, loadWord t₀.code.memory address⟩ := by
  have hsame : loadWord s.code.memory address = loadWord t.code.memory address :=
    loadWord_congr (by decide) fun k hk => h.outside_eq _ (hfetch k hk)
  have hown := h.code_eq address hcode
  exact ⟨hsame.trans hown, getDecodedInstruction_of_cachesOwn h.plain_cachesOwn hcode hown,
    getDecodedInstruction_of_cachesOwn h.cachesOwn hcode (hsame.trans hown)⟩

/-- Both runs record the same instruction, up to the memories. -/
theorem Shadows.entryAt_eq (h : Shadows code t₀ s₀ t s) (hcode : address ∈ code)
    (huntouched : Untouched isa (underBreakpoints s₀.breakpoints) (t.entryAt isa address)) :
    ∃ memory', s.entryAt isa address = { t.entryAt isa address with
      before := { (t.entryAt isa address).before with memory := s.code.memory }
      after := { (t.entryAt isa address).after with memory := memory' } } ∧
    (∀ a ∈ underBreakpoints s₀.breakpoints, memory' a = s.code.memory a) ∧
    ∀ a, a ∉ underBreakpoints s₀.breakpoints →
      memory' a = (t.entryAt isa address).after.memory a := by
  obtain ⟨hfetch, hignores⟩ := huntouched
  rw [address_entryAt] at hfetch
  obtain ⟨-, htdecoded, hsdecoded⟩ := h.decoded hcode hfetch
  have hfree : address ∉ s₀.breakpoints := by
    intro hmem
    refine hfetch 0#64 (by decide) ⟨address, hmem, ?_⟩
    rw [BitVec.add_zero, BitVec.sub_self]
    decide
  rw [CoralNpuTop.entryAt_eq isa address t, htdecoded] at hignores ⊢
  rw [CoralNpuTop.entryAt_eq isa address s, hsdecoded]
  have hcore : fetched isa ⟨address, loadWord t₀.code.memory address⟩ s.core =
      { fetched isa ⟨address, loadWord t₀.code.memory address⟩ t.core with
        memory := s.code.memory } := by
    rw [h.core_eq]
    rfl
  obtain ⟨memory', hafter, hin, hout⟩ := hignores.core_eq s.code.memory h.outside_eq
  refine ⟨memory', ?_, hin, hout⟩
  have hrequest := (hignores.request_eq s.code.memory h.outside_eq s.breakpoints).trans
    (requestAt_of_not_mem isa (by rwa [h.breakpoints_eq]) _)
  simp only [hcore, hafter, hrequest, h.plain_breakpoints_eq]

/-- **An instruction keeps the simulation.** -/
theorem Shadows.executeAt (h : Shadows code t₀ s₀ t s) (hgoes : t.halted = false)
    (hcode : address ∈ code)
    (huntouched : Untouched isa (underBreakpoints s₀.breakpoints) (t.entryAt isa address))
    (hkept : ∀ a ∈ code, loadWord (t.entryAt isa address).after.memory a =
      loadWord (t.entryAt isa address).before.memory a) :
    Shadows code t₀ s₀ (t.executeAt isa address) (s.executeAt isa address) := by
  obtain ⟨memory', hentry, hin, hout⟩ := h.entryAt_eq isa hcode huntouched
  have hrequest : (s.entryAt isa address).request = (t.entryAt isa address).request := by
    rw [hentry]
  have hafter : (s.executeAt isa address).code.memory = memory' := by
    rw [memory_executeAt, hentry]
  have hne : (t.entryAt isa address).request ≠ some .softwareBreakpoint := by
    rw [CoralNpuTop.entryAt_eq, h.plain_breakpoints_eq]
    exact eventRequest_nil_ne isa _ _ _
  obtain ⟨hfetch, hignores⟩ := huntouched
  rw [address_entryAt] at hfetch
  obtain ⟨hword, -, -⟩ := h.decoded hcode hfetch
  constructor
  · rw [core_executeAt, core_executeAt, hafter, hentry]
  · rw [halted_executeAt, halted_executeAt, hrequest, h.halted_eq]
  · rw [haltReason_executeAt, haltReason_executeAt, hrequest, h.haltReason_eq]
  · intro hnot
    rw [halted_executeAt, hgoes, Bool.false_or, Option.isSome_eq_false_iff,
      Option.isNone_iff_eq_none] at hnot
    rw [haltReason_executeAt, hnot, Option.getD_none, h.haltReason_none hgoes]
  · rw [haltReason_executeAt]
    cases hreason : (t.entryAt isa address).request with
    | none => exact h.haltReason_ne
    | some reason =>
        intro heq
        rw [hreason] at hne
        exact hne (congrArg some heq)
  · rw [needToStepOver_executeAt, hrequest, h.needToStepOver_eq, Bool.false_or]
    exact beq_eq_false_iff_ne.2 hne
  · rw [breakpoints_executeAt, h.breakpoints_eq]
  · rw [breakpoints_executeAt, h.plain_breakpoints_eq]
  · rw [instructionMap_executeAt, h.instructionMap_eq]
  · intro a ha
    rw [hafter, hout a ha, memory_executeAt]
  · intro a ha
    rw [hafter, hin a ha, h.planted_eq a ha]
  · intro a ha
    have hbefore := memory_before_entryAt isa address t
    have hignored := hignores.memory_eq ha
    rw [hbefore] at hignored
    rw [memory_executeAt, ← h.own_eq a ha, ← hignored, CoralNpuTop.entryAt_eq]
  · intro a ha
    rw [memory_executeAt, hkept a ha, memory_before_entryAt, h.code_eq a ha]
  · exact cachesOwn_executeAt isa h.plain_cachesOwn (h.code_eq address hcode)
  · exact cachesOwn_executeAt isa h.cachesOwn hword

end Simulation

/-! ### Setting the breakpoints -/

/-- The top with breakpoints set, and nothing else changed. -/
structure Prepared (t₀ s : CoralNpuTop ρ C) : Prop where
  same_eq : s = { t₀ with code := s.code, breakpoints := s.breakpoints }
  outside_eq : ∀ a, a ∉ underBreakpoints s.breakpoints → s.code.memory a = t₀.code.memory a
  lookup_eq : ∀ a, C.lookup s.code.client a = none
  mem_of_remembered : ∀ a, (s.code.remembered a).isSome → a ∈ s.breakpoints

theorem Prepared.setSwBreakpoint {t₀ s : CoralNpuTop ρ C} (h : Prepared t₀ s)
    (hhalted : t₀.runStatus = .halted) (address : Address) :
    Prepared t₀ (s.setSwBreakpoint address).2 := by
  have hstatus : s.runStatus = .halted := by
    rw [h.same_eq]
    exact hhalted
  rw [CoralNpuTop.setSwBreakpoint, if_neg (by simp [hstatus])]
  split
  · exact h
  · constructor
    · have hsame := h.same_eq
      exact congrArg (fun s' : CoralNpuTop ρ C => { s' with
        code := (writeBreakpointInstruction C.invalidate address s.code).2
        breakpoints := address :: s.breakpoints }) hsame
    · intro a ha
      have hwindow : ¬ (a - address).toNat < 4 := fun hlt =>
        ha ⟨address, List.mem_cons_self, hlt⟩
      have hrest : a ∉ underBreakpoints s.breakpoints := by
        rintro ⟨b, hb, hlt⟩
        exact ha ⟨b, List.mem_cons_of_mem address hb, hlt⟩
      simp only [memory_writeBreakpointInstruction]
      rw [storeWord, if_neg hwindow, h.outside_eq a hrest]
    · intro a
      simp only [client_writeBreakpointInstruction]
      cases hlookup : C.lookup (C.invalidate address s.code.client) a with
      | none => rfl
      | some word =>
          have hold := (C.lookup_invalidate hlookup).2
          rw [h.lookup_eq a] at hold
          cases hold
    · intro a ha
      simp only [remembered_writeBreakpointInstruction] at ha
      by_cases hab : a = address
      · rw [hab]
        exact List.mem_cons_self
      · rw [Function.update_of_ne hab] at ha
        exact List.mem_cons_of_mem address (h.mem_of_remembered a ha)

theorem Prepared.setSwBreakpoints {t₀ s : CoralNpuTop ρ C} (h : Prepared t₀ s)
    (hhalted : t₀.runStatus = .halted) (breakpoints : List Address) :
    Prepared t₀ (s.setSwBreakpoints breakpoints) := by
  induction breakpoints generalizing s with
  | nil => exact h
  | cons address breakpoints ih => exact ih (h.setSwBreakpoint hhalted address)

/-- A new top with breakpoints. -/
theorem prepared_start (registers : ρ) (memory : Memory) (pc : BitVec 32)
    (breakpoints : List Address) :
    Prepared (start registers memory pc : CoralNpuTop ρ C)
      ((start registers memory pc).setSwBreakpoints breakpoints) := by
  refine Prepared.setSwBreakpoints ⟨rfl, fun _ _ => rfl, fun a => C.lookup_empty a, ?_⟩ rfl _
  intro a ha
  cases ha

theorem mem_breakpoints_setSwBreakpoint {s : CoralNpuTop ρ C} (hhalted : s.runStatus = .halted)
    (address a : Address) : a ∈ (s.setSwBreakpoint address).2.breakpoints ↔
      a = address ∨ a ∈ s.breakpoints := by
  rw [setSwBreakpoint, if_neg (by simp [hhalted])]
  split
  · rename_i hset
    have hmem : address ∈ s.breakpoints := List.contains_iff_mem.1 hset
    constructor
    · exact Or.inr
    · rintro (rfl | h)
      · exact hmem
      · exact h
  · exact List.mem_cons

/-- The breakpoints set are those asked for. -/
theorem mem_breakpoints_setSwBreakpoints {s : CoralNpuTop ρ C} (hhalted : s.runStatus = .halted)
    (breakpoints : List Address) (a : Address) :
    a ∈ (s.setSwBreakpoints breakpoints).breakpoints ↔ a ∈ breakpoints ∨ a ∈ s.breakpoints := by
  induction breakpoints generalizing s with
  | nil => simp [setSwBreakpoints]
  | cons address breakpoints ih =>
      have hnext : (s.setSwBreakpoint address).2.runStatus = .halted := by
        rw [setSwBreakpoint, if_neg (by simp [hhalted])]
        split
        · exact hhalted
        · exact hhalted
      rw [setSwBreakpoints, List.foldl_cons, ← setSwBreakpoints, ih hnext,
        mem_breakpoints_setSwBreakpoint hhalted, List.mem_cons, or_left_comm, or_assoc]

/-- The invariant of the planted breakpoints. -/
theorem planted_setSwBreakpoints {region : InstructionMemory} {program : Memory}
    {s : CoralNpuTop ρ C} {breakpoints : List Address}
    (h : PlantedWhileKept region program s) (haligned : ∀ a ∈ breakpoints, a.toNat % 4 = 0) :
    PlantedWhileKept region program (s.setSwBreakpoints breakpoints) := by
  induction breakpoints generalizing s with
  | nil => exact h
  | cons address breakpoints ih =>
      have hnext := plantedWhileKept_setSwBreakpoint h (haligned address List.mem_cons_self)
      exact ih hnext fun a ha => haligned a (List.mem_cons_of_mem address ha)

/-! ### The loops -/

/-- An instruction of the plain run that the breakpoints do not disturb. -/
structure Quiet (isa : InstructionSet ρ) (code bytes : Set Address) (e : Executed ρ) : Prop where
  mem_code : e.instruction.address ∈ code
  untouched : Untouched isa bytes e
  keeps : ∀ a ∈ code, loadWord e.after.memory a = loadWord e.before.memory a

/-- The simulation between two iterations. -/
structure LoopShadows (code : Set Address) (t₀ s₀ : CoralNpuTop ρ C) (l l' : Loop ρ C) : Prop where
  shadows : Shadows code t₀ s₀ l.top l'.top
  nextPc_eq : l.nextPc = l.top.pcAddress
  nextPc_eq' : l'.nextPc = l'.top.pcAddress

theorem executed_subset_iterate (isa : InstructionSet ρ) (n : ℕ) (l : Loop ρ C) :
    l.top.executed ⊆ (iterate (advance isa) n l).top.executed := by
  refine iterate_invariant (P := fun l' => l.top.executed ⊆ l'.top.executed) ?_ n
    (List.Subset.refl _)
  intro l' _ hsubset
  rw [advance, executed_executeAt]
  exact List.subset_append_of_subset_left _ hsubset

/-- **Both loops go on in step.** -/
theorem LoopShadows.iterate (isa : InstructionSet ρ) {code : Set Address}
    {t₀ s₀ : CoralNpuTop ρ C} (n : ℕ) {l l' : Loop ρ C} (h : LoopShadows code t₀ s₀ l l')
    (hquiet : ∀ e ∈ (iterate (advance isa) n l).top.executed,
      Quiet isa code (underBreakpoints s₀.breakpoints) e) :
    LoopShadows code t₀ s₀ (iterate (advance isa) n l) (iterate (advance isa) n l') := by
  induction n generalizing l l' with
  | zero => exact h
  | succ n ih =>
      have hhalted := h.shadows.halted_eq
      cases hl : l.top.halted with
      | true => rwa [iterate_of_halted hl, iterate_of_halted (hhalted.trans hl)]
      | false =>
          rw [iterate_succ hl] at hquiet ⊢
          rw [iterate_succ (hhalted.trans hl)]
          have hpc : l'.nextPc = l.nextPc := by
            rw [h.nextPc_eq, h.nextPc_eq']
            exact congrArg (fun c => c.pc.setWidth 64) h.shadows.core_eq
          have hfirst := hquiet _ (executed_subset_iterate isa n (advance isa l)
            (show l.top.entryAt isa l.nextPc ∈ _ by rw [advance, executed_executeAt]; simp))
          have hnext := h.shadows.executeAt isa hl
            (by simpa using hfirst.mem_code) hfirst.untouched hfirst.keeps
          refine ih ⟨?_, rfl, rfl⟩ hquiet
          simp only [advance, hpc]
          exact hnext

/-- The plain run after some iterations. -/
theorem runLoop_add (isa : InstructionSet ρ) (garbage : Address) (m n : ℕ) (s : CoralNpuTop ρ C) :
    s.runLoop isa garbage (m + n) = iterate (advance isa) n (s.runLoop isa garbage m) := by
  rw [runLoop, runLoop, iterate_runBody, iterate_runBody, iterate_add]

/-- A run that has halted does not go on. -/
theorem runLoop_of_halted (isa : InstructionSet ρ) (garbage : Address) {m n : ℕ}
    {s : CoralNpuTop ρ C} (h : (s.runLoop isa garbage m).top.halted = true) (hle : m ≤ n) :
    s.runLoop isa garbage n = s.runLoop isa garbage m := by
  obtain ⟨k, rfl⟩ := Nat.exists_eq_add_of_le hle
  rw [runLoop_add, iterate_of_halted h]

/-- Nothing is executed that a run does not execute until it halts. -/
theorem executed_runLoop_subset (isa : InstructionSet ρ) (garbage : Address) {n : ℕ}
    {s : CoralNpuTop ρ C} (h : (s.runLoop isa garbage n).top.halted = true) (k : ℕ) :
    (s.runLoop isa garbage k).top.executed ⊆ (s.runLoop isa garbage n).top.executed := by
  rcases Nat.le_total k n with hle | hle
  · obtain ⟨j, rfl⟩ := Nat.exists_eq_add_of_le hle
    rw [runLoop_add]
    exact executed_subset_iterate isa j _
  · rw [runLoop_of_halted isa garbage h hle]
    exact List.Subset.refl _

theorem nextPc_runLoop (isa : InstructionSet ρ) (garbage : Address) (k : ℕ)
    (s : CoralNpuTop ρ C) :
    (s.runLoop isa garbage k).nextPc = (s.runLoop isa garbage k).top.pcAddress := by
  rw [runLoop, iterate_runBody]
  refine iterate_invariant (P := fun l => l.nextPc = l.top.pcAddress) ?_ k rfl
  intro l _ _
  rfl

/-- The simulation before the run. -/
theorem shadows_start (isa : InstructionSet ρ) (garbage : Address) (code : Set Address)
    (registers : ρ) (memory : Memory) (pc : BitVec 32) (breakpoints : List Address) :
    let t₀ : CoralNpuTop ρ C := start registers memory pc
    Shadows code t₀ (t₀.setSwBreakpoints breakpoints) (t₀.runLoop isa garbage 0).top
      (t₀.setSwBreakpoints breakpoints) := by
  intro t₀
  have h : Prepared t₀ (t₀.setSwBreakpoints breakpoints) :=
    prepared_start registers memory pc breakpoints
  generalize t₀.setSwBreakpoints breakpoints = s₀ at h
  have hsame := h.same_eq
  constructor
  · exact congrArg core hsame
  · rw [hsame]
    rfl
  · rw [hsame]
    rfl
  · exact fun _ => rfl
  · exact nofun
  · rw [hsame]
    rfl
  · rfl
  · rfl
  · rfl
  · exact h.outside_eq
  · exact fun _ _ => rfl
  · exact fun _ _ => rfl
  · exact fun _ _ => rfl
  · intro a _ word hlookup
    have hnone : C.lookup (t₀.runLoop isa garbage 0).top.code.client a = none := C.lookup_empty a
    rw [hnone] at hlookup
    cases hlookup
  · intro a _ word hlookup
    rw [h.lookup_eq a] at hlookup
    cases hlookup

/-! ### Sessions -/

section Sessions

variable {isa : InstructionSet ρ} {garbage : Address} {code : Set Address}
  {t₀ s₀ s : CoralNpuTop ρ C}

/-- Another status. -/
theorem Shadows.with_runStatus {t : CoralNpuTop ρ C} (h : Shadows code t₀ s₀ t s)
    (status : RunStatus) : Shadows code t₀ s₀ t { s with runStatus := status } :=
  ⟨h.core_eq, h.halted_eq, h.haltReason_eq, h.haltReason_none, h.haltReason_ne,
    h.needToStepOver_eq, h.breakpoints_eq, h.plain_breakpoints_eq, h.instructionMap_eq,
    h.outside_eq, h.planted_eq, h.own_eq, h.code_eq, h.plain_cachesOwn, h.cachesOwn⟩

/-- The loop of a resume. -/
def resumeLoop (status : RunStatus) (garbage : Address) (s : CoralNpuTop ρ C) : Loop ρ C :=
  ⟨{ s with runStatus := status, halted := false, needToStepOver := false }, garbage,
    s.pcAddress, 0⟩

/-- A resume goes on where the plain run is. -/
theorem Shadows.resumeLoop
    (hquiet : ∀ k, ∀ e ∈ (t₀.runLoop isa garbage k).top.executed,
      Quiet isa code (underBreakpoints s₀.breakpoints) e)
    {k : ℕ} (h : Shadows code t₀ s₀ (t₀.runLoop isa garbage k).top s) (hgoes : s.halted = false)
    (status : RunStatus) (garbage' : Address) (n : ℕ) :
    LoopShadows code t₀ s₀ (t₀.runLoop isa garbage (k + n))
      (CoralNpuTop.iterate (advance isa) n (s.resumeLoop status garbage')) := by
  have hsame : (s.resumeLoop status garbage').top = { s with runStatus := status } := by
    have hneed := h.needToStepOver_eq
    clear h
    obtain ⟨registers, pc, numInstructions, numCycles, counterOpcode, code, breakpoints, runStatus,
      haltReason, halted, needToStepOver, executed⟩ := s
    simp only at hgoes hneed
    rw [hgoes, hneed, CoralNpuTop.resumeLoop]
  have hstart : LoopShadows code t₀ s₀ (t₀.runLoop isa garbage k)
      (s.resumeLoop status garbage') := by
    refine ⟨?_, nextPc_runLoop isa garbage k t₀, rfl⟩
    rw [hsame]
    exact h.with_runStatus status
  have hall := hquiet (k + n)
  rw [runLoop_add] at hall ⊢
  exact hstart.iterate isa n hall

/-- Behind the loop the pc register is left alone. -/
theorem LoopShadows.finishPc_eq {l l' : Loop ρ C} (h : LoopShadows code t₀ s₀ l l') :
    finishPc l' = l'.top := by
  refine finishPc_of_ne h.nextPc_eq' ?_
  rw [h.shadows.haltReason_eq]
  exact h.shadows.haltReason_ne

/-- A session has come as far as the plain run after some iterations. -/
structure Follows (isa : InstructionSet ρ) (garbage : Address) (code : Set Address)
    (t₀ s₀ s : CoralNpuTop ρ C) : Prop where
  runStatus_eq : s.runStatus = .halted
  exists_shadows : ∃ k, Shadows code t₀ s₀ (t₀.runLoop isa garbage k).top s

/-- A core that has not terminated is not halted. -/
theorem Shadows.halted_of_not_terminated {t : CoralNpuTop ρ C} (h : Shadows code t₀ s₀ t s)
    (hgoes : ¬ s.Terminated) : s.halted = false := by
  rw [← Bool.not_eq_true]
  intro hhalted
  refine hgoes ⟨hhalted, ?_⟩
  rw [h.haltReason_eq]
  exact h.haltReason_ne

/-- A `Step`. -/
theorem Follows.stepHalted (hquiet : ∀ k, ∀ e ∈ (t₀.runLoop isa garbage k).top.executed,
      Quiet isa code (underBreakpoints s₀.breakpoints) e)
    (h : Follows isa garbage code t₀ s₀ s) (hgoes : ¬ s.Terminated) (garbage' : Address) (num : ℕ) :
    Follows isa garbage code t₀ s₀ (s.stepHalted isa garbage' num).2 := by
  obtain ⟨k, hk⟩ := h.exists_shadows
  have hstart : stepStart isa garbage' s = s.resumeLoop .singleStep garbage' := by
    simp only [stepStart, hk.needToStepOver_eq, Bool.false_eq_true, if_false,
      CoralNpuTop.resumeLoop]
    rfl
  have hloop := hk.resumeLoop hquiet (hk.halted_of_not_terminated hgoes) .singleStep garbage' num
  simp only [CoralNpuTop.stepHalted, hstart, iterate_stepBody]
  have hcount : num - (s.resumeLoop .singleStep garbage').count = num := Nat.sub_zero num
  rw [hcount]
  refine ⟨rfl, k + num, ?_⟩
  have hshadows := hloop.shadows.with_runStatus .halted
  cases hhalted : (CoralNpuTop.iterate (advance isa) num
      (s.resumeLoop .singleStep garbage')).top.halted with
  | true =>
      rw [stepFinish_of_halted hhalted, hloop.finishPc_eq]
      exact hshadows
  | false =>
      -- the reason set to none is none already
      have hnone := hloop.shadows.haltReason_none (hloop.shadows.halted_eq.symm.trans hhalted)
      rw [← hloop.shadows.haltReason_eq] at hnone
      rw [stepFinish_of_not_halted hhalted, hloop.finishPc_eq, ← hnone]
      exact hshadows

/-- A `Run` that ends. -/
theorem Follows.run (hquiet : ∀ k, ∀ e ∈ (t₀.runLoop isa garbage k).top.executed,
      Quiet isa code (underBreakpoints s₀.breakpoints) e)
    (h : Follows isa garbage code t₀ s₀ s) (hgoes : ¬ s.Terminated) (garbage' : Address)
    (fuel : ℕ) :
    ∃ l' k, Shadows code t₀ s₀ (t₀.runLoop isa garbage (k + fuel)).top l' ∧
      s.run isa garbage' fuel =
        .ok (if l'.halted then some { l' with runStatus := .halted } else none) := by
  obtain ⟨k, hk⟩ := h.exists_shadows
  have hstart : runStart isa garbage' s = s.resumeLoop .running garbage' := by
    simp only [runStart, hk.needToStepOver_eq, Bool.false_eq_true, if_false,
      CoralNpuTop.resumeLoop]
    rfl
  have hloop := hk.resumeLoop hquiet (hk.halted_of_not_terminated hgoes) .running garbage' fuel
  refine ⟨_, k, hloop.shadows, ?_⟩
  rw [CoralNpuTop.run, if_neg (by simp [h.runStatus_eq])]
  simp only [runLoop, hstart, iterate_runBody, hloop.finishPc_eq]

/-- **A command of a session.** -/
theorem Follows.perform (hquiet : ∀ k, ∀ e ∈ (t₀.runLoop isa garbage k).top.executed,
      Quiet isa code (underBreakpoints s₀.breakpoints) e)
    (h : Follows isa garbage code t₀ s₀ s) {command : TopCommand} (hgoes : Resumes command s)
    {garbage' : Address} {fuel : ℕ} {s' : CoralNpuTop ρ C}
    (hperform : s.perform isa garbage' fuel command = some s') :
    Follows isa garbage code t₀ s₀ s' := by
  cases command with
  | step num =>
      rw [CoralNpuTop.perform, step] at hperform
      split at hperform
      · rename_i heq
        split at heq
        · cases heq
        · split at heq
          · cases heq
          · cases heq
            cases hperform
            exact h.stepHalted hquiet hgoes garbage' num.toNat
      · cases hperform
        exact h
  | run =>
      obtain ⟨t, k, ht, hrun⟩ := h.run hquiet hgoes garbage' fuel
      simp only [CoralNpuTop.perform, hrun] at hperform
      split at hperform
      · cases hperform
        exact ⟨rfl, k + fuel, ht.with_runStatus .halted⟩
      · cases hperform
  | setSwBreakpoint address => exact hgoes.elim
  | clearSwBreakpoint address => exact hgoes.elim
  | clearAllSwBreakpoints => exact hgoes.elim
  | getDisassembly address => exact hgoes.elim
  | writePc value => exact hgoes.elim

theorem Follows.session (hquiet : ∀ k, ∀ e ∈ (t₀.runLoop isa garbage k).top.executed,
      Quiet isa code (underBreakpoints s₀.breakpoints) e)
    (h : Follows isa garbage code t₀ s₀ s) {s' : CoralNpuTop ρ C}
    (hsession : Session Resumes isa s s') : Follows isa garbage code t₀ s₀ s' := by
  induction hsession with
  | refl => exact h
  | perform _ command garbage' fuel hallowed hperform ih =>
      exact ih.perform hquiet hallowed hperform

end Sessions

/-! ### Clearing the breakpoints -/

/-- Every word address. -/
def allWords : InstructionMemory where
  contains a := a.toNat % 4 = 0
  aligned h := h

/-- A word without a breakpoint is not under one. -/
theorem not_mem_underBreakpoints {breakpoints : List Address} {a k : Address}
    (haligned : ∀ b ∈ breakpoints, b.toNat % 4 = 0) (ha : a.toNat % 4 = 0)
    (hfree : a ∉ breakpoints) (hk : k.toNat < 4) : a + k ∉ underBreakpoints breakpoints := by
  rintro ⟨b, hb, hlt⟩
  have hne : b ≠ a := fun heq => hfree (heq ▸ hb)
  obtain ⟨hfar, hlast⟩ := aligned_disjoint (haligned b hb) ha hne
  exact not_toNat_add_sub_lt hk hfar hlast hlt

theorem mem_underBreakpoints {breakpoints : List Address} {a k : Address} (ha : a ∈ breakpoints)
    (hk : k.toNat < 4) : a + k ∈ underBreakpoints breakpoints := by
  refine ⟨a, ha, ?_⟩
  rwa [BitVec.add_comm, BitVec.add_sub_cancel]

/-- **Clearing the breakpoints gives the memory of the plain run.** -/
theorem Shadows.memory_clearAll {code : Set Address} {t₀ s₀ t s : CoralNpuTop ρ C}
    (h : Shadows code t₀ s₀ t s) (hprepared : Prepared t₀ s₀)
    (hplanted : Planted allWords t₀.code.memory s₀) (hhalted : s.runStatus = .halted) :
    s.clearAllSwBreakpoints.2.code.memory = t.code.memory := by
  have hremembered : s.code.remembered = s₀.code.remembered := by
    funext a
    rw [ActionPointMemory.remembered, ActionPointMemory.remembered, h.instructionMap_eq]
  have hmatches : CodeMatches allWords t.code.memory {a | a ∈ s.breakpoints} s.code := by
    rw [h.breakpoints_eq]
    constructor
    · intro a ha hmem
      rw [← hplanted.code_matches.planted_eq a ha hmem]
      exact loadWord_congr (by decide) fun k hk => h.planted_eq _ (mem_underBreakpoints hmem hk)
    · intro a ha hfree
      exact loadWord_congr (by decide) fun k hk =>
        h.outside_eq _ (not_mem_underBreakpoints hplanted.aligned ha hfree hk)
    · intro a word ha hsome
      rw [hremembered] at hsome
      have hmem := hprepared.mem_of_remembered a (by rw [hsome]; rfl)
      rw [hplanted.code_matches.remembered_eq a word ha hsome]
      exact loadWord_congr (by decide) fun k hk =>
        (h.own_eq _ (mem_underBreakpoints hmem hk)).symm
  have hcleared := hmatches.foldl_writeOriginal C.invalidate s.breakpoints
    (by rw [h.breakpoints_eq]; exact hplanted.aligned)
    (by rw [h.breakpoints_eq, hremembered]; exact hplanted.remembered)
  rw [clearAllSwBreakpoints, if_neg (by simp [hhalted])]
  exact memory_ext fun a ha => hcleared.own_eq a ha fun hmem => hmem.2 hmem.1

/-! ### Transparency -/

/-- What a run that halts leaves. -/
theorem run_eq_some {isa : InstructionSet ρ} {garbage : Address} {fuel : ℕ}
    {s p : CoralNpuTop ρ C} (h : s.run isa garbage fuel = .ok (some p)) :
    (s.runLoop isa garbage fuel).top.halted = true ∧
      p = { finishPc (s.runLoop isa garbage fuel) with runStatus := .halted } := by
  rw [run] at h
  split at h
  · cases h
  · simp only at h
    split at h
    · rename_i hhalted
      cases h
      exact ⟨hhalted, rfl⟩
    · cases h

/-- A run that halts. -/
theorem run_of_halted (isa : InstructionSet ρ) (garbage : Address) (fuel : ℕ)
    {s : CoralNpuTop ρ C} (hstatus : s.runStatus = .halted)
    (h : (s.runLoop isa garbage fuel).top.halted = true) :
    s.run isa garbage fuel =
      .ok (some { finishPc (s.runLoop isa garbage fuel) with runStatus := .halted }) := by
  rw [run, if_neg (by simp [hstatus])]
  simp only [h, if_true]

/-- **Breakpoints on words that the program neither executes nor touches are transparent.** -/
theorem transparent_of_untouched (isa : InstructionSet ρ) (registers : ρ) (memory : Memory)
    (pc : BitVec 32) {breakpoints : List Address} {garbage : Address} {fuel : ℕ}
    {p : CoralNpuTop ρ C} (hrun : (start registers memory pc).run isa garbage fuel = .ok (some p))
    (hkept : KeepsOwnCode p) (haligned : ∀ a ∈ breakpoints, a.toNat % 4 = 0)
    (huntouched : ∀ e ∈ p.executed, Untouched isa (underBreakpoints breakpoints) e) :
    Transparent isa breakpoints (start registers memory pc) p := by
  obtain ⟨hhalted, rfl⟩ := run_eq_some hrun
  set t₀ : CoralNpuTop ρ C := start registers memory pc with ht₀
  set s₀ := t₀.setSwBreakpoints breakpoints with hs₀
  set code : Set Address :=
    {a | ∃ e ∈ (t₀.runLoop isa garbage fuel).top.executed, e.instruction.address = a} with hcode
  have hbytes : underBreakpoints s₀.breakpoints = underBreakpoints breakpoints := by
    ext a
    simp only [underBreakpoints, hs₀, mem_breakpoints_setSwBreakpoints (s := t₀) rfl]
    simp [ht₀, start]
  have hquiet : ∀ k, ∀ e ∈ (t₀.runLoop isa garbage k).top.executed,
      Quiet isa code (underBreakpoints s₀.breakpoints) e := by
    intro k e he
    have hmem := executed_runLoop_subset isa garbage hhalted k he
    have hexecuted : e ∈ (finishPc (t₀.runLoop isa garbage fuel)).executed := by
      rwa [executed_finishPc]
    refine ⟨⟨e, hmem, rfl⟩, ?_, ?_⟩
    · rw [hbytes]
      exact huntouched e hexecuted
    · rintro a ⟨e', he', rfl⟩
      refine hkept e hexecuted e' ?_
      show e' ∈ (finishPc (t₀.runLoop isa garbage fuel)).executed
      rwa [executed_finishPc]
  have hprepared : Prepared t₀ s₀ := prepared_start registers memory pc breakpoints
  have hplanted : Planted allWords t₀.code.memory s₀ := by
    refine planted_setSwBreakpoints (fun _ => planted_start registers memory pc) haligned ?_
    intro e he
    have hnone : s₀.executed = [] := by
      rw [hprepared.same_eq]
      rfl
    rw [hnone] at he
    cases he
  have hstart : Follows isa garbage code t₀ s₀ s₀ := by
    refine ⟨?_, 0, shadows_start isa garbage code registers memory pc breakpoints⟩
    rw [hprepared.same_eq]
    rfl
  constructor
  · intro s hsession
    have hs := hstart.session hquiet hsession
    by_cases hterminated : s.Terminated
    · exact ⟨s, Session.refl s, hterminated⟩
    · obtain ⟨t, k, ht, hrun'⟩ := hs.run hquiet hterminated 0 fuel
      have hend : (t₀.runLoop isa garbage (k + fuel)).top.halted = true := by
        rw [runLoop_of_halted isa garbage hhalted (Nat.le_add_left fuel k)]
        exact hhalted
      have hthalted : t.halted = true := ht.halted_eq.trans hend
      rw [if_pos hthalted] at hrun'
      refine ⟨{ t with runStatus := .halted }, ?_, hthalted, ?_⟩
      · exact (Session.refl s).perform .run 0 fuel hterminated (by
          rw [perform, hrun'])
      · show t.haltReason ≠ .softwareBreakpoint
        rw [ht.haltReason_eq]
        exact ht.haltReason_ne
  · intro s hsession hterminated
    obtain ⟨hstatus, k, hk⟩ := hstart.session hquiet hsession
    have hkhalted : (t₀.runLoop isa garbage k).top.halted = true :=
      hk.halted_eq.symm.trans hterminated.1
    have hsame : t₀.runLoop isa garbage k = t₀.runLoop isa garbage fuel := by
      rcases Nat.le_total k fuel with hle | hle
      · exact (runLoop_of_halted isa garbage hkhalted hle).symm
      · exact runLoop_of_halted isa garbage hhalted hle
    have hfinish : finishPc (t₀.runLoop isa garbage fuel) = (t₀.runLoop isa garbage fuel).top := by
      refine finishPc_of_ne (nextPc_runLoop isa garbage fuel t₀) ?_
      rw [← hsame]
      exact hk.haltReason_ne
    rw [hsame] at hk
    have hcore := hk.core_eq
    simp only [core, CoreState.mk.injEq] at hcore
    rw [hfinish]
    exact ⟨hcore.1, hcore.2.2.1, hcore.2.2.2.1, hk.memory_clearAll hprepared hplanted hstatus⟩

/-! ### A program with a breakpoint -/

/-- The plain instructions ignore the memory. -/
theorem ignores_plainIsa (bytes : Set Address) (inst : DecodedInstruction) (c : CoreState Unit) :
    Ignores plainIsa bytes inst c := by
  have hcore : ∀ c, coreAfter plainIsa inst c = { c with numCycles := c.numCycles + 1 } := by
    intro c
    simp only [coreAfter, plainIsa, stalled, eventCore, tick]
    split <;> rfl
  refine ⟨fun memory hmemory => ⟨memory, ?_, fun _ _ => rfl, ?_⟩, fun _ _ _ => rfl⟩
  · rw [hcore, hcore]
  · rw [hcore]
    exact hmemory

/-- A `nop` and an `mpause`. -/
def nopMpause : Memory := storeWord (fun _ => 0) 4 mpause

/-- The program run to its end. -/
def nopMpauseEnd : CoralNpuTop Unit noCache :=
  { finishPc ((start () nopMpause 0).runLoop plainIsa 0 2) with runStatus := .halted }

/-- A breakpoint behind the program. -/
theorem transparent_of_untouched_nopMpause :
    Transparent plainIsa [8] (start () nopMpause 0) nopMpauseEnd := by
  have haddress : ∀ e ∈ nopMpauseEnd.executed,
      e.instruction.address = 0 ∨ e.instruction.address = 4 := by decide
  have hkept : ∀ e ∈ nopMpauseEnd.executed, ∀ e' ∈ nopMpauseEnd.executed,
      loadWord e.after.memory e'.instruction.address =
        loadWord e.before.memory e'.instruction.address := by decide
  have hrun : (start () nopMpause 0).run plainIsa 0 2 = .ok (some nopMpauseEnd) :=
    run_of_halted plainIsa 0 2 rfl (by decide)
  refine transparent_of_untouched plainIsa () nopMpause 0 hrun hkept ?_
    fun e he => ⟨fun k hk => ?_, ignores_plainIsa _ _ _⟩
  · intro a ha
    rw [List.mem_singleton.1 ha]
    rfl
  rintro ⟨b, hb, hlt⟩
  rw [List.mem_singleton.1 hb] at hlt
  rcases haddress e he with h | h
  · rw [h] at hlt
    bv_omega
  · rw [h] at hlt
    bv_omega

/-- The program with a breakpoint on its first instruction, run until it is hit. -/
def nopMpauseHit : CoralNpuTop Unit noCache :=
  { finishPc (((start () nopMpause 0).setSwBreakpoints [0]).runLoop plainIsa 0 1) with
    runStatus := .halted }

/-- Resumed until the program terminates. -/
def nopMpauseResumed : CoralNpuTop Unit noCache :=
  { finishPc (nopMpauseHit.runLoop plainIsa 0 1) with runStatus := .halted }

/-- The `ebreak` is counted: three instructions instead of two. -/
theorem not_transparent_nopMpause :
    ¬ ∀ (memory : Memory) (breakpoints : List Address) (garbage : Address) (fuel : ℕ)
        (p : CoralNpuTop Unit noCache),
      (start () memory 0).run plainIsa garbage fuel = .ok (some p) → HasNoEbreak p →
      KeepsOwnCode p → Transparent plainIsa breakpoints (start () memory 0) p := by
  intro h
  have hnone : ∀ e ∈ nopMpauseEnd.executed, e.instruction.word ≠ ebreak32 := by decide
  have hkept : ∀ e ∈ nopMpauseEnd.executed, ∀ e' ∈ nopMpauseEnd.executed,
      loadWord e.after.memory e'.instruction.address =
        loadWord e.before.memory e'.instruction.address := by decide
  have hrun : (start () nopMpause 0).run plainIsa 0 2 = .ok (some nopMpauseEnd) :=
    run_of_halted plainIsa 0 2 rfl (by decide)
  have htransparent := h nopMpause [0] 0 2 nopMpauseEnd hrun hnone hkept
  have hhit : ((start () nopMpause 0).setSwBreakpoints [0]).run plainIsa 0 1 =
      .ok (some nopMpauseHit) := run_of_halted plainIsa 0 1 rfl (by decide)
  have hresumed : nopMpauseHit.run plainIsa 0 1 = .ok (some nopMpauseResumed) :=
    run_of_halted plainIsa 0 1 rfl (by decide)
  have hfirst : Session Resumes plainIsa ((start () nopMpause 0).setSwBreakpoints [0])
      nopMpauseHit :=
    (Session.refl _).perform .run 0 1 (show ¬ Terminated _ by decide) (by rw [perform, hhit])
  have hsecond := hfirst.perform .run 0 1 (show ¬ Terminated _ by decide)
    (show _ = some nopMpauseResumed by rw [perform, hresumed])
  have hcount := (htransparent.same nopMpauseResumed hsecond (by decide)).numInstructions_eq
  exact absurd hcount (by decide)

end CoralNpuTop

end CoralNpu
