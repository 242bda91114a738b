/-
**The instruction stream generator: the engine.**

The engine writes assembly text into a buffer of fixed size.  Every emitter prints at the end of the
text with `SNPrintF`, which stops at the end of the buffer but returns the length of the whole text,
and then advances the length; most emitters check in between that the text fitted, some do not.  A
failed check aborts the process.  Beside the text the engine keeps a random generator, a tracker of
the vector configuration, a watchdog, and what goes into the finished test sequence.

An emitter is a program over the engine that may abort.  Three fields of the state belong to the
proofs only and no emitter reads them: the items emitted, each with the tracker at that moment, the
appends made without a check, and the end of the bytes written so far.  Texts are shorter than
`2 ^ 31` characters, so that the `int` an `SNPrintF` returns is the length.  What lies behind the
buffer in memory is left out: bytes there read as NUL.

Main definitions:

* `CoralNpu.IsgEngine` — the engine, and `CoralNpu.EngineM`, its programs;
* `CoralNpu.emitInstruction`, `CoralNpu.emitInstructionFormat`, `CoralNpu.emitVsetvli`,
  `CoralNpu.emitVsetivli` — the emitters of single lines;
* `CoralNpu.currentPc`, `CoralNpu.build` — the address after the text, and the finished sequence;
* `CoralNpu.emitPreamble` — the code in front of every test;
* `CoralNpu.reset` — a new start on the same engine.
-/

import CoralNpu.AsciiText
import CoralNpu.Prng
import CoralNpu.PartialState

set_option relaxedAutoImplicit false
set_option autoImplicit false

namespace CoralNpu

open AsciiText

/-! ### The state -/

/-- `VectorSew`. -/
inductive VectorSew where
  | e8 | e16 | e32 | e64
  deriving DecidableEq, Repr

/-- `VectorLmul`. -/
inductive VectorLmul where
  | mf8 | mf4 | mf2 | m1 | m2 | m4 | m8
  deriving DecidableEq, Repr

/-- `ToString(VectorSew)`. -/
def VectorSew.toText : VectorSew → Text
  | e8 => "e8".toList
  | e16 => "e16".toList
  | e32 => "e32".toList
  | e64 => "e64".toList

/-- `ToString(VectorLmul)`. -/
def VectorLmul.toText : VectorLmul → Text
  | mf8 => "mf8".toList
  | mf4 => "mf4".toList
  | mf2 => "mf2".toList
  | m1 => "m1".toList
  | m2 => "m2".toList
  | m4 => "m4".toList
  | m8 => "m8".toList

/-- `VectorStateTracker`, with the defaults of the source. -/
structure VectorStateTracker where
  vl : BitVec 32 := 0
  sew : VectorSew := .e8
  lmul : VectorLmul := .m1
  configured : Bool := false
  tailAgnostic : Bool := true
  maskAgnostic : Bool := true
  deriving DecidableEq, Repr

/-- `IsgWatchdog`. -/
structure IsgWatchdog where
  maxIterations : ℕ
  currentIterations : ℕ
  deriving DecidableEq, Repr

/-- `IsgWatchdog::Tick`, `none` when the limit is exceeded. -/
def IsgWatchdog.tick (watchdog : IsgWatchdog) : Option IsgWatchdog :=
  let currentIterations := watchdog.currentIterations + 1
  if currentIterations > watchdog.maxIterations then none
  else some { watchdog with currentIterations := currentIterations }

/-- `IsgWatchdog::Reset`. -/
def IsgWatchdog.reset (watchdog : IsgWatchdog) : IsgWatchdog :=
  { watchdog with currentIterations := 0 }

/-- A trap the test is expected to end with. -/
structure TrapEvent where
  mcause : BitVec 64
  mepc : BitVec 64
  mtval : BitVec 64
  deriving DecidableEq, Repr

/-- What the proofs remember of an emission: an item with the tracker at that moment, or a reset of
the tracker. -/
inductive EngineEvent where
  | item (text : Text) (tracker : VectorStateTracker)
  | trackerReset

/-- What only the proofs look at. -/
structure EmissionTrace where
  events : List EngineEvent := []
  /-- position and length of every append made without a check -/
  uncheckedAppends : List (ℕ × ℕ) := []
  /-- the end of the bytes written so far -/
  writtenEnd : ℕ := 0

/-- The engine. -/
structure IsgEngine (G : Prng) where
  seed : BitVec 64
  prng : G.State
  fixedAssemblyBuffer : ℕ → Char
  assemblyLength : ℕ
  vectorState : VectorStateTracker
  strictSandboxing : Bool
  watchdog : IsgWatchdog
  assertionCount : ℕ
  hazardTags : List Text
  expectedTrap : Option TrapEvent
  trace : EmissionTrace

/-- A program over the engine; `none` is an abort. -/
abbrev EngineM (G : Prng) := StateT (IsgEngine G) Option

def kReservedDtcmBytes : ℕ := 512
def kAssemblyBufferSize : ℕ := 131072
def kDefaultRwRegionStart : ℕ := 0x10000
def kDefaultRwRegionLength : ℕ := 0x8000
def kDefaultRwRegion2Start : ℕ := 0x20000000
def kDefaultRwRegion2Length : ℕ := 0x400000

variable {G : Prng}

/-- The constructor.  The bytes of the buffer are not initialised. -/
def IsgEngine.create (G : Prng) (seed : BitVec 64) (uninitialised : ℕ → Char) : IsgEngine G where
  seed := seed
  prng := G.seed seed
  fixedAssemblyBuffer := uninitialised
  assemblyLength := 0
  vectorState := {}
  strictSandboxing := true
  watchdog := ⟨8000, 0⟩
  assertionCount := 0
  hazardTags := []
  expectedTrap := none
  trace := {}

/-! ### Printing into the buffer -/

/-- A byte of the buffer. -/
def IsgEngine.charAt (e : IsgEngine G) (i : ℕ) : Char :=
  if i < kAssemblyBufferSize then e.fixedAssemblyBuffer i else '\x00'

/-- The text in the buffer. -/
def IsgEngine.text (e : IsgEngine G) : Text := (List.range e.assemblyLength).map e.charAt

/-- The bytes `stored` written at `position`. -/
def writeAt (buffer : ℕ → Char) (position : ℕ) (stored : Text) (i : ℕ) : Char :=
  if position ≤ i ∧ i < position + stored.length then stored.getD (i - position) '\x00'
  else buffer i

/-- The bytes `SNPrintF` stores at `position`: the text as far as it fits, and a NUL.  Past the end
of the buffer the remaining size wraps around and everything is stored. -/
def storedBytes (position : ℕ) (text : Text) : Text :=
  if position = kAssemblyBufferSize then []
  else if position < kAssemblyBufferSize then
    text.take (kAssemblyBufferSize - position - 1) ++ ['\x00']
  else text ++ ['\x00']

/-- `SNPrintF` at the end of the text; the length stays. -/
def IsgEngine.snprintf (e : IsgEngine G) (text : Text) : IsgEngine G :=
  let stored := storedBytes e.assemblyLength text
  { e with
    fixedAssemblyBuffer := writeAt e.fixedAssemblyBuffer e.assemblyLength stored
    trace := { e.trace with
      writtenEnd := max e.trace.writtenEnd (e.assemblyLength + stored.length) } }

/-- `CHECK`. -/
def check (p : Prop) [Decidable p] : EngineM G Unit := if p then pure () else failure

/-- `SNPrintF` at the end of the text. -/
def print (text : Text) : EngineM G Unit := modify fun e => e.snprintf text

/-- `CHECK_LT(assembly_length_ + written, kAssemblyBufferSize)`. -/
def checkRoom (written : ℕ) : EngineM G Unit := do
  let e ← get
  check (e.assemblyLength + written < kAssemblyBufferSize)

/-- `assembly_length_ += written`. -/
def advance (written : ℕ) : EngineM G Unit :=
  modify fun e => { e with assemblyLength := e.assemblyLength + written }

/-- The proofs remember an item. -/
def noteItem (item : Text) : EngineM G Unit :=
  modify fun e => { e with trace := { e.trace with
    events := e.trace.events ++ [.item item e.vectorState] } }

/-- The proofs remember an append made without a check. -/
def noteUnchecked (written : ℕ) : EngineM G Unit :=
  modify fun e => { e with trace := { e.trace with
    uncheckedAppends := e.trace.uncheckedAppends ++ [(e.assemblyLength, written)] } }

/-- An item printed with the check: the pattern of most emitters. -/
def appendChecked (item : Text) : EngineM G Unit := do
  print item
  checkRoom item.length
  advance item.length
  noteItem item

/-- An item printed without the check. -/
def appendUnchecked (item : Text) : EngineM G Unit := do
  noteUnchecked item.length
  print item
  advance item.length
  noteItem item

/-! ### Random numbers, watchdog and tracker -/

/-- `prng_()`. -/
def draw : EngineM G (BitVec 64) := do
  let e ← get
  let (value, prng) := G.next e.prng
  set { e with prng := prng }
  pure value

/-- `CHECK_OK(watchdog_.Tick())`. -/
def tick : EngineM G Unit := do
  let e ← get
  match e.watchdog.tick with
  | some watchdog => set { e with watchdog := watchdog }
  | none => failure

/-- `vector_state()`. -/
def vectorState : EngineM G VectorStateTracker := do return (← get).vectorState

/-- `strict_sandboxing()`. -/
def strictSandboxing : EngineM G Bool := do return (← get).strictSandboxing

/-- `set_strict_sandboxing`. -/
def setStrictSandboxing (strict : Bool) : EngineM G Unit :=
  modify fun e => { e with strictSandboxing := strict }

/-- The value the tracker uses for a vector length it does not know. -/
def unknownVl : BitVec 32 := 0xffffffff

def setVectorState (vectorState : VectorStateTracker) : EngineM G Unit :=
  modify fun e => { e with vectorState := vectorState }

/-- `vector_state_.vl = vl`. -/
def setVl (vl : BitVec 32) : EngineM G Unit :=
  modify fun e => { e with vectorState := { e.vectorState with vl := vl } }

/-- What a `vsetvli zero, zero` line does to the tracker. -/
def setVlUnknown : EngineM G Unit :=
  modify fun e => { e with vectorState :=
    { e.vectorState with configured := true, vl := unknownVl } }

/-! ### Emitting single lines -/

def tailText (tailAgnostic : Bool) : Text := if tailAgnostic then "ta".toList else "tu".toList
def maskText (maskAgnostic : Bool) : Text := if maskAgnostic then "ma".toList else "mu".toList

/-- The line of a `vsetvli`. -/
def vsetvliLine (rd rs1 : Text) (sew : VectorSew) (lmul : VectorLmul)
    (tailAgnostic maskAgnostic : Bool) : Text :=
  "vsetvli ".toList ++ cString rd ++ ", ".toList ++ cString rs1 ++ ", ".toList ++ sew.toText ++
    ", ".toList ++ lmul.toText ++ ", ".toList ++ tailText tailAgnostic ++ ", ".toList ++
    maskText maskAgnostic ++ "\n".toList

/-- `EmitVsetvli`. -/
def emitVsetvli (rd rs1 : Text) (sew : VectorSew) (lmul : VectorLmul)
    (tailAgnostic maskAgnostic : Bool) : EngineM G Unit := do
  setVectorState ⟨unknownVl, sew, lmul, true, tailAgnostic, maskAgnostic⟩
  appendChecked (vsetvliLine rd rs1 sew lmul tailAgnostic maskAgnostic)

/-- The line of a `vsetivli`. -/
def vsetivliLine (rd : Text) (uimm : BitVec 32) (sew : VectorSew) (lmul : VectorLmul)
    (tailAgnostic maskAgnostic : Bool) : Text :=
  "vsetivli ".toList ++ cString rd ++ ", ".toList ++ decimal uimm.toNat ++ ", ".toList ++
    sew.toText ++ ", ".toList ++ lmul.toText ++ ", ".toList ++ tailText tailAgnostic ++
    ", ".toList ++ maskText maskAgnostic ++ "\n".toList

/-- `EmitVsetivli`. -/
def emitVsetivli (rd : Text) (uimm : BitVec 32) (sew : VectorSew) (lmul : VectorLmul)
    (tailAgnostic maskAgnostic : Bool) : EngineM G Unit := do
  setVectorState ⟨uimm, sew, lmul, true, tailAgnostic, maskAgnostic⟩
  appendChecked (vsetivliLine rd uimm sew lmul tailAgnostic maskAgnostic)

/-- The line starts with `vset`. -/
def isVset (trimmed : Text) : Bool := "vset".toList.isPrefixOf trimmed

/-- The line starts like a `vsetvli` that keeps the vector length. -/
def keepsVl (trimmed : Text) : Bool :=
  "vsetvli zero, zero".toList.isPrefixOf trimmed || "vsetvli zero,zero".toList.isPrefixOf trimmed

/-- The line starts like a vector instruction. -/
def isVector (trimmed : Text) : Bool := trimmed.head? == some 'v'

/-- The tracker has no vector length to run a vector instruction with. -/
def needsSetUp (vectorState : VectorStateTracker) : Bool :=
  !vectorState.configured || vectorState.vl == 0

/-- The part of `EmitInstructionFormat` that decides what stands before the instruction, with the
lines it puts in front of a vector instruction when no vector length is set up.  The instruction has
been printed, the length not advanced yet; after the set-up lines it is printed once more. -/
def placeInstruction (setUp : EngineM G Unit) (inst : Text) : EngineM G Unit := do
  -- the instruction fitted, so the buffer holds the whole of `inst` here
  let trimmed := strip inst
  if isVset trimmed then
    (if keepsVl trimmed then setVlUnknown else failure)
    advance inst.length
  else if isVector trimmed then
    let vectorState ← vectorState
    if needsSetUp vectorState then
      setUp
      noteUnchecked inst.length
      print inst
      advance inst.length
    else
      advance inst.length
  else
    advance inst.length

/-- The newline after a formatted instruction. -/
def endLine (inst : Text) : EngineM G Unit := do
  noteUnchecked 1
  print "\n".toList
  advance 1
  noteItem (inst ++ "\n".toList)

/-- The body of `EmitInstructionFormat`, over the set-up lines. -/
def emitInstructionFormatBody (setUp : EngineM G Unit) (inst : Text) : EngineM G Unit := do
  tick
  print inst
  checkRoom inst.length
  placeInstruction setUp inst
  endLine inst

/-- `EmitLi`, over the emitter of its lines. -/
def emitLiBody (emit : Text → EngineM G Unit) (reg : Text) (val : BitVec 32) : EngineM G Unit := do
  let upper := (val + 0x800) >>> 12
  let lower := (val - upper <<< 12).toInt
  emit ("lui ".toList ++ reg ++ ", 0x".toList ++ hex upper.toNat)
  if lower ≠ 0 ∨ upper = 0 then
    emit ("addi ".toList ++ reg ++ ", ".toList ++ reg ++ ", ".toList ++ signed lower)

/-- `EmitLi`.  Its lines are not vector instructions, so they never need the set-up lines; the body
of `EmitInstructionFormat` is used here without them. -/
def emitLi (reg : Text) (val : BitVec 32) : EngineM G Unit :=
  emitLiBody (emitInstructionFormatBody failure) reg val

/-- `EmitSafePointerInit`. -/
def emitSafePointerInit (regs : List Text) : EngineM G Unit :=
  regs.forM fun reg => do
    let value ← draw
    let val := BitVec.ofNat 32 (kReservedDtcmBytes + value.toNat % (0x1000 - kReservedDtcmBytes))
    emitLi reg (BitVec.ofNat 32 kDefaultRwRegionStart + val)

/-- The lines that set up a vector length: the tracked configuration with a random length.  The two
callers differ in whether the first line is checked. -/
def vectorSetUp (append : Text → EngineM G Unit) : EngineM G Unit := do
  let value ← draw
  let vlVal := value.toNat % 32 + 1
  append ("addi t3, zero, ".toList ++ decimal vlVal ++ "\n".toList)
  let vectorState ← vectorState
  emitVsetvli "t2".toList "t3".toList vectorState.sew vectorState.lmul true true
  setVl (BitVec.ofNat 32 vlVal)
  emitSafePointerInit ["t2".toList, "t3".toList]

/-- `EmitInstructionFormat`, on the formatted text. -/
def emitInstructionFormat (inst : Text) : EngineM G Unit :=
  emitInstructionFormatBody (vectorSetUp appendUnchecked) inst

/-- `EmitInstruction`. -/
def emitInstruction (inst : Text) : EngineM G Unit := do
  tick
  let trimmed := strip inst
  if isVset trimmed then
    if keepsVl trimmed then
      setVlUnknown
      appendChecked (cString inst ++ "\n".toList)
    else
      -- only a warning: nothing is emitted
      pure ()
  else
    let vectorState ← vectorState
    (if isVector trimmed && needsSetUp vectorState then vectorSetUp appendChecked else pure ())
    appendChecked (cString inst ++ "\n".toList)

/-- `EmitMpause`. -/
def emitMpause : EngineM G Unit := appendChecked ".word 0x08000073\n".toList

/-- `EmitIllegalInstruction`. -/
def emitIllegalInstruction : EngineM G Unit := appendChecked ".word 0x00000000\n".toList

/-- `EmitEbreak`. -/
def emitEbreak : EngineM G Unit := emitInstruction "ebreak".toList

/-- `EmitCoverpoint`. -/
def emitCoverpoint (name : Text) : EngineM G Unit :=
  appendChecked ("# COVERPOINT: ".toList ++ cString name ++ "\n".toList)

/-! ### Layout and the finished sequence -/

/-- The address after a line, given the address before it. -/
def pcAfterLine (pc : ℕ) (subline : Text) : ℕ :=
  let trimmed := strip subline
  if trimmed = [] ∨ trimmed.head? = some '#' ∨ trimmed.head? = some ';' then pc
  else if trimmed.getLast? = some ':' then pc
  else if trimmed.head? = some '.' then
    if ".word".toList.isPrefixOf trimmed then pc + 4 else pc
  else pc + 4

/-- The address after a text. -/
def pcAfter (text : Text) : ℕ := (lines text).foldl pcAfterLine 0

/-- `CurrentPc`. -/
def currentPc : EngineM G ℕ := do return pcAfter (← get).text

/-- `TestSequence`, with the fields the engine sets. -/
structure TestSequence where
  assemblyText : Text
  prngSeed : BitVec 64
  trapEvent : Option TrapEvent
  expectedTerminalState : Text
  assertionCount : ℕ
  hazardTags : List Text
  deriving DecidableEq, Repr

/-- The address of the final `mpause`. -/
def mpauseAddress : ℕ := 8188

/-- The text `Build` makes of the text in the buffer. -/
def finalText (text : Text) : Text :=
  let pc := pcAfter text
  text ++ "_mutable_end:\n; END MUTABLE\n; BEGIN PROTECTED\n".toList ++
    -- `while (pc < 8188)` in steps of four
    (List.replicate ((mpauseAddress - pc + 3) / 4) "addi x0, x0, 0\n".toList).flatten ++
    ".word 0x08000073\n; END PROTECTED\n".toList

/-- `Build`. -/
def build (e : IsgEngine G) : Option TestSequence :=
  if pcAfter e.text ≤ mpauseAddress then
    some {
      assemblyText := finalText e.text
      prngSeed := e.seed
      trapEvent := e.expectedTrap
      expectedTerminalState := "mpause".toList
      assertionCount := e.assertionCount
      hazardTags := e.hazardTags }
  else none

/-- `AddHazardTag`. -/
def addHazardTag (tag : Text) : EngineM G Unit :=
  modify fun e => { e with hazardTags := e.hazardTags ++ [tag] }

/-- `SetExpectedTrap`. -/
def setExpectedTrap (mcause mepc mtval : BitVec 64) : EngineM G Unit :=
  modify fun e => { e with expectedTrap := some ⟨mcause, mepc, mtval⟩ }

/-- `SetSeed`. -/
def setSeed (seed : BitVec 64) : EngineM G Unit :=
  modify fun e => { e with seed := seed, prng := G.seed seed }

/-- `Reset`. -/
def IsgEngine.reset (e : IsgEngine G) : IsgEngine G :=
  { e with
    assemblyLength := 0
    vectorState := {}
    hazardTags := []
    assertionCount := 0
    prng := G.seed e.seed
    watchdog := e.watchdog.reset
    trace := { e.trace with events := [] } }

/-- `Reset`, as a program. -/
def reset : EngineM G Unit := modify IsgEngine.reset

end CoralNpu
