/-
**The layout of the generated program.**

The generator computes branch targets from a scan of the text it has emitted so far, while the
assembler computes addresses from the whole program.  This module assembles the finished text, one
word for each instruction line or `.word` line, and compares: the program has exactly the size of
the instruction memory, the labels around the mutable code stand where the scan said, and the
printed targets are the addresses of the instructions they are meant to reach.  The preamble jumps
over its trap handler to a fixed address, so its targets are right where it comes first.

Main definitions:

* `CoralNpu.assemble` — the words of a text;
* `CoralNpu.LabelAt`, `CoralNpu.BranchesTo` — where a label stands, and where a branch goes;
* `CoralNpu.Lays` — the words a program adds to the text;
* `CoralNpu.PreambleTargets`, `CoralNpu.ControlHazardTargets` — the printed targets are right.

Main results:

* `CoralNpu.pcAfter_eq` — the scan counts the words;
* `CoralNpu.lays_emitPreamble`, `CoralNpu.lays_generateControlHazard` — the words of a preamble and
  of a control hazard;
* `CoralNpu.preambleTargets`, `CoralNpu.controlHazardTargets` — **the targets among these words**.
-/

import Mathlib.Data.List.TakeWhile
import CoralNpu.IsgReset

set_option relaxedAutoImplicit false
set_option autoImplicit false

namespace CoralNpu

open AsciiText PartialState

variable {G : Prng}

/-! ### Assembling -/

/-- The line takes a word: an instruction or a `.word`, but no comment, label or other directive. -/
def occupiesWord (trimmed : Text) : Bool :=
  match trimmed with
  | [] => false
  | c :: _ =>
      if c = '#' ∨ c = ';' then false
      else if trimmed.getLast? = some ':' then false
      else if c = '.' then ".word".toList.isPrefixOf trimmed
      else true

/-- The words of some lines. -/
def wordsOfLines (lines : List Text) : List Text := (lines.map strip).filter occupiesWord

/-- The words of a text; word `k` stands at address `4 * k`. -/
def assemble (text : Text) : List Text := wordsOfLines (lines text)

/-- The label stands in the text at the address. -/
def LabelAt (text label : Text) (address : ℕ) : Prop :=
  ∃ before after, lines text = before ++ (label ++ [':']) :: after ∧
    address = 4 * (wordsOfLines before).length

/-- The last operand of word `source` is the address of word `target`. -/
def BranchesTo (words : List Text) (source target : ℕ) : Prop :=
  ∃ line operand, words[source]? = some line ∧ (tokens line).getLast? = some operand ∧
    parseInt operand = some ((4 * target : ℕ) : ℤ)

theorem wordsOfLines_append (ls ls' : List Text) :
    wordsOfLines (ls ++ ls') = wordsOfLines ls ++ wordsOfLines ls' := by
  rw [wordsOfLines, List.map_append, List.filter_append]
  rfl

theorem pcAfterLine_eq (pc : ℕ) (subline : Text) :
    pcAfterLine pc subline = pc + if occupiesWord (strip subline) then 4 else 0 := by
  rw [pcAfterLine]
  cases h : strip subline with
  | nil => simp [occupiesWord]
  | cons c rest =>
      by_cases hmark : c = '#' ∨ c = ';'
      · simp [occupiesWord, hmark]
      by_cases hlabel : (c :: rest).getLast? = some ':'
      · simp [occupiesWord, hmark, hlabel]
      by_cases hdot : c = '.'
      · subst hdot
        simp only [occupiesWord]
        cases ".word".toList.isPrefixOf ('.' :: rest) <;> simp [hlabel]
      · simp [occupiesWord, hmark, hlabel, hdot]

/-- **The scan counts the words.** -/
theorem pcAfter_eq (text : Text) : pcAfter text = 4 * (assemble text).length := by
  have hfold : ∀ (ls : List Text) (pc : ℕ),
      ls.foldl pcAfterLine pc = pc + 4 * (wordsOfLines ls).length := by
    intro ls
    induction ls with
    | nil => intro pc; rfl
    | cons line ls ih =>
        intro pc
        have hcons : wordsOfLines (line :: ls) = wordsOfLines [line] ++ wordsOfLines ls :=
          wordsOfLines_append [line] ls
        rw [List.foldl_cons, ih, pcAfterLine_eq, hcons, List.length_append]
        cases h : occupiesWord (strip line) with
        | false => simp [wordsOfLines, h]
        | true =>
            simp only [wordsOfLines, List.map_cons, List.map_nil, List.filter_cons, h, if_true,
              List.filter_nil, List.length_singleton]
            omega
  rw [pcAfter, hfold, Nat.zero_add]
  rfl

/-- Items that end with a newline are split and assembled one by one. -/
theorem lines_flatten_append {items : List Text}
    (h : ∀ item ∈ items, item.getLast? = some '\n') (text : Text) :
    lines (items.flatten ++ text) = items.flatMap lines ++ lines text := by
  induction items with
  | nil => rfl
  | cons item items ih =>
      rw [List.forall_mem_cons] at h
      obtain ⟨line, rfl⟩ := List.getLast?_eq_some_iff.1 h.1
      have hline : lines (line ++ ['\n']) = lines line := by
        rw [lines_append line []]
        simp [lines]
      rw [List.flatten_cons, List.append_assoc, List.append_assoc, List.singleton_append,
        lines_append, ih h.2, List.flatMap_cons, hline, List.append_assoc]

theorem lines_flatten {items : List Text} (h : ∀ item ∈ items, item.getLast? = some '\n') :
    lines items.flatten = items.flatMap lines := by
  have hnil := lines_flatten_append h []
  rwa [List.append_nil, show lines [] = [] from rfl, List.append_nil] at hnil

/-! ### The words of an engine -/

/-- The words the engine has emitted. -/
def IsgEngine.words (e : IsgEngine G) : List Text :=
  wordsOfLines ((itemsOf e.trace.events).flatMap lines)

theorem assemble_text {e : IsgEngine G} (h : BufferIntact e) : assemble e.text = e.words := by
  rw [assemble, h.text_eq, lines_flatten h.terminated]
  rfl

theorem pcAfter_text {e : IsgEngine G} (h : BufferIntact e) :
    pcAfter e.text = 4 * e.words.length := by
  rw [pcAfter_eq, assemble_text h]

/-- Events are only added. -/
def eventsStep (G : Prng) : StepRelation (IsgEngine G) where
  rel e e' := ∃ added, e'.trace.events = e.trace.events ++ added
  refl e := ⟨[], (List.append_nil _).symm⟩
  trans := by
    rintro e e' e'' ⟨added, h⟩ ⟨added', h'⟩
    exact ⟨added ++ added', by rw [h', h, List.append_assoc]⟩

theorem EnginePrimitive.eventsStep {α : Type} {m : EngineM G α} (h : EnginePrimitive α m) :
    Relates (eventsStep G) m := by
  intro e a e' hrun
  cases h with
  | tick =>
      obtain ⟨watchdog, -, rfl⟩ := run_tick_eq_some hrun
      exact ⟨[], (List.append_nil _).symm⟩
  | checkRoom written =>
      obtain ⟨-, rfl⟩ := run_checkRoom_eq_some hrun
      exact ⟨[], (List.append_nil _).symm⟩
  | noteItem item => cases hrun; exact ⟨_, rfl⟩
  | resetTracker => cases hrun; exact ⟨_, rfl⟩
  | _ => cases hrun; exact ⟨[], (List.append_nil _).symm⟩

theorem Emission.eventsStep {α : Type} {m : EngineM G α} (h : Emission m) :
    Relates (eventsStep G) m :=
  h.primitive.relates fun _ _ hpart => hpart.eventsStep

theorem words_of_eventsStep {e e' : IsgEngine G} (h : (eventsStep G).rel e e') :
    ∃ added, e'.words = e.words ++ added := by
  obtain ⟨added, h⟩ := h
  refine ⟨wordsOfLines ((itemsOf added).flatMap lines), ?_⟩
  rw [IsgEngine.words, h, itemsOf_append, List.flatMap_append, wordsOfLines_append]
  rfl

/-! ### Programs that add given words -/

/-- An instruction on a line of its own, that is no vector instruction. -/
structure PlainLine (line : Text) : Prop where
  cString_eq : cString line = line
  strip_eq : strip line = line
  not_isVector : isVector line = false
  newline : '\n' ∉ line
  occupies : occupiesWord line = true

instance (line : Text) : Decidable (PlainLine line) :=
  decidable_of_iff (cString line = line ∧ strip line = line ∧ isVector line = false ∧
      '\n' ∉ line ∧ occupiesWord line = true)
    ⟨fun ⟨h₁, h₂, h₃, h₄, h₅⟩ => ⟨h₁, h₂, h₃, h₄, h₅⟩,
      fun ⟨h₁, h₂, h₃, h₄, h₅⟩ => ⟨h₁, h₂, h₃, h₄, h₅⟩⟩

theorem PlainLine.ne_nil {line : Text} (h : PlainLine line) : line ≠ [] := by
  rintro rfl
  exact absurd h.occupies (by decide)

theorem PlainLine.words {line : Text} (h : PlainLine line) :
    wordsOfLines (lines (line ++ "\n".toList)) = [line] := by
  have hlines : lines (line ++ "\n".toList) = [line] := by
    rw [show "\n".toList = '\n' :: [] from rfl, lines_append, lines_of_not_mem h.newline h.ne_nil]
    rfl
  rw [hlines, wordsOfLines, List.map_singleton, h.strip_eq]
  simp [h.occupies]

/-- The program adds exactly these words. -/
def AddsWords (m : EngineM G Unit) (words : List Text) : Prop :=
  ∀ e u e', m.run e = some (u, e') → e'.words = e.words ++ words

/-- The words of the text behind an emission, in a buffer with room. -/
theorem assemble_of_words {α : Type} {m : EngineM G α} (hm : Emission m) {e e' : IsgEngine G}
    {a : α} (hrun : m.run e = some (a, e')) (hroom : HasRoom e) (hfit : UncheckedFit e')
    {words : List Text} (hwords : e'.words = e.words ++ words) :
    assemble e'.text = assemble e.text ++ words := by
  have hintact : BufferIntact e' := ((hm.relates_bufferStep e a e' hrun).2 hfit hroom).2
  rw [assemble_text hintact, assemble_text hroom.2, hwords]

namespace AddsWords

theorem bind {m k : EngineM G Unit} {words words' : List Text} (hm : AddsWords m words)
    (hk : AddsWords k words') : AddsWords (m >>= fun _ => k) (words ++ words') := by
  intro e u e' hrun
  obtain ⟨v, e₁, hfirst, hsecond⟩ := run_bind_eq_some.1 hrun
  rw [hk _ _ _ hsecond, hm _ _ _ hfirst, List.append_assoc]

theorem forM {xs : List String} {f : String → EngineM G Unit} {g : String → List Text}
    (h : ∀ x ∈ xs, AddsWords (f x) (g x)) : AddsWords (xs.forM f) (xs.flatMap g) := by
  induction xs with
  | nil =>
      intro e u e' hrun
      cases hrun
      exact (List.append_nil _).symm
  | cons x xs ih =>
      rw [List.forall_mem_cons] at h
      exact bind h.1 (ih h.2)

end AddsWords

/-- A step that notes one item and otherwise leaves the events alone. -/
theorem words_of_item {e e' : IsgEngine G} {item : Text} {tracker : VectorStateTracker}
    (h : e'.trace.events = e.trace.events ++ [.item item tracker]) :
    e'.words = e.words ++ wordsOfLines (lines item) := by
  rw [IsgEngine.words, h, itemsOf_append, List.flatMap_append, wordsOfLines_append]
  simp [IsgEngine.words]

/-- What a line leaves that is no vector instruction. -/
theorem run_emitInstructionFormatBody_eq_some {line : Text} (h : PlainLine line)
    {setUp : EngineM G Unit} {u : Unit} {e e' : IsgEngine G}
    (hrun : (emitInstructionFormatBody setUp line).run e = some (u, e')) :
    e'.words = e.words ++ [line] ∧ e'.strictSandboxing = e.strictSandboxing := by
  obtain ⟨_, e₁, htick, hrun⟩ := run_bind_eq_some.1 hrun
  obtain ⟨watchdog, -, rfl⟩ := run_tick_eq_some htick
  obtain ⟨_, e₂, hprint, hrun⟩ := run_bind_eq_some.1 hrun
  cases hprint
  obtain ⟨_, e₃, hcheck, hrun⟩ := run_bind_eq_some.1 hrun
  obtain ⟨-, rfl⟩ := run_checkRoom_eq_some hcheck
  rw [placeInstruction_of_not_isVector (by rw [h.strip_eq]; exact h.not_isVector)] at hrun
  cases hrun
  rw [← h.words]
  exact ⟨words_of_item rfl, rfl⟩

theorem addsWords_emitInstructionFormatBody {line : Text} (h : PlainLine line)
    {setUp : EngineM G Unit} : AddsWords (emitInstructionFormatBody setUp line) [line] :=
  fun _ _ _ hrun => (run_emitInstructionFormatBody_eq_some h hrun).1

theorem addsWords_emitInstructionFormat {line : Text} (h : PlainLine line) :
    AddsWords (emitInstructionFormat line : EngineM G Unit) [line] :=
  addsWords_emitInstructionFormatBody h

theorem addsWords_emitInstruction {line : Text} (h : PlainLine line) :
    AddsWords (emitInstruction line : EngineM G Unit) [line] := by
  intro e u e' hrun
  obtain ⟨_, e₁, htick, hrun⟩ := run_bind_eq_some.1 hrun
  obtain ⟨watchdog, -, rfl⟩ := run_tick_eq_some htick
  simp only [h.strip_eq, isVset_of_isVector h.not_isVector, h.not_isVector, Bool.false_and,
    Bool.false_eq_true, if_false, h.cString_eq] at hrun
  obtain ⟨_, e₂, hstate, hrun⟩ := run_bind_eq_some.1 hrun
  cases hstate
  obtain ⟨_, e₃, hpure, hrun⟩ := run_bind_eq_some.1 hrun
  cases hpure
  obtain ⟨-, rfl⟩ := run_appendChecked_eq_some hrun
  rw [← h.words]
  exact words_of_item rfl

theorem addsWords_emitInstructions {insts : List String}
    (h : ∀ inst ∈ insts, PlainLine inst.toList) :
    AddsWords (emitInstructions insts : EngineM G Unit) (insts.map String.toList) := by
  rw [List.map_eq_flatMap]
  exact .forM fun inst hinst => addsWords_emitInstruction (h inst hinst)

/-- A text appended by the preamble, all of whose lines are comments, directives or labels. -/
theorem addsWords_appendUnchecked {item : Text} (h : wordsOfLines (lines item) = []) :
    AddsWords (appendUnchecked item : EngineM G Unit) [] := by
  intro e u e' hrun
  rw [run_appendUnchecked_eq_some hrun, words_of_item (e := e) rfl, h]

/-! ### Lines that end with a number -/

/-- A word without a colon. -/
structure IsOperand (word : Text) : Prop where
  isWord : IsWord word
  colon : ':' ∉ word
  nul : '\x00' ∉ word

theorem isOperand_toDigits {base : ℕ} (hlo : 1 < base) (hhi : base ≤ 16) (n : ℕ) :
    IsOperand (Nat.toDigits base n) := by
  have hdigit : ∀ c ∈ Nat.toDigits base n, c ≠ ':' ∧ c ≠ '\x00' := by
    intro c hc
    obtain ⟨d, hd, rfl⟩ := exists_digitChar_of_mem_toDigits hlo n hc
    have : ∀ d < 16, d.digitChar ≠ ':' ∧ d.digitChar ≠ '\x00' := by decide
    exact this d (by omega)
  exact ⟨isWord_toDigits hlo hhi n, fun h => (hdigit _ h).1 rfl, fun h => (hdigit _ h).2 rfl⟩

theorem isOperand_hex (n : ℕ) : IsOperand (hex n) := isOperand_toDigits (by decide) (by decide) n

theorem isOperand_decimal (n : ℕ) : IsOperand (decimal n) :=
  isOperand_toDigits (by decide) (by decide) n

theorem isOperand_prefixed (n : ℕ) : IsOperand ('0' :: 'x' :: hex n) := by
  obtain ⟨hword, hcolon, hnul⟩ := isOperand_hex n
  exact ⟨isWord_cons (by decide) (isWord_cons (by decide) hword), by simpa using hcolon,
    by simpa using hnul⟩

theorem isOperand_hexAlt (n : ℕ) : IsOperand (hexAlt n) := by
  rw [hexAlt]
  split
  · exact ⟨by decide, by decide, by decide⟩
  · exact isOperand_prefixed n

/-- A text whose ends are not white space is stripped already. -/
theorem strip_of_ends {c d : Char} {text : Text} (hc : isSpace c = false) (hd : isSpace d = false)
    (hlast : (c :: text).getLast? = some d) : strip (c :: text) = c :: text := by
  obtain ⟨front, hfront⟩ := List.getLast?_eq_some_iff.1 hlast
  have hleft : stripLeft (c :: text) = c :: text := List.dropWhile_cons_of_neg (by simp [hc])
  rw [strip, hleft, hfront, List.reverse_append, List.reverse_singleton, List.singleton_append,
    stripLeft, List.dropWhile_cons_of_neg (by simp [hd]), List.reverse_cons, List.reverse_reverse]

/-- A line by its first and its last character. -/
theorem plainLine_of_ends {c d : Char} {rest : Text}
    (hc : c ≠ '#' ∧ c ≠ ';' ∧ c ≠ '.' ∧ c ≠ 'v' ∧ isSpace c = false)
    (hlast : (c :: rest).getLast? = some d) (hd : isSpace d = false ∧ d ≠ ':')
    (hnewline : '\n' ∉ c :: rest) (hnul : '\x00' ∉ c :: rest) : PlainLine (c :: rest) := by
  obtain ⟨hhash, hsemi, hdot, hv, hspace⟩ := hc
  refine ⟨?_, strip_of_ends hspace hd.1 hlast, by simpa [isVector] using hv, hnewline, ?_⟩
  · refine List.takeWhile_eq_self_iff.2 fun x hx => ?_
    simp only [bne_iff_ne]
    rintro rfl
    exact hnul hx
  · simp [occupiesWord, hlast, hhash, hsemi, hdot, hd.2]

/-- A fixed text followed by an operand is a plain line. -/
theorem plainLine_append {c : Char} {front word : Text}
    (hc : c ≠ '#' ∧ c ≠ ';' ∧ c ≠ '.' ∧ c ≠ 'v' ∧ isSpace c = false)
    (hfront : '\n' ∉ c :: front ∧ '\x00' ∉ c :: front) (hword : IsOperand word) :
    PlainLine (c :: front ++ word) := by
  obtain ⟨⟨hne, hsep⟩, hcolon, hnul⟩ := hword
  obtain ⟨d, hlast⟩ : ∃ d, word.getLast? = some d :=
    ⟨word.getLast hne, List.getLast?_eq_some_getLast hne⟩
  have hdmem : d ∈ word := List.mem_of_getLast? hlast
  have hd : isSpace d = false ∧ d ≠ ':' :=
    ⟨IsWord.isSpace_eq ⟨hne, hsep⟩ d hdmem, fun h => hcolon (h ▸ hdmem)⟩
  have hline : (c :: front ++ word).getLast? = some d := by
    rw [List.getLast?_append, hlast]
    rfl
  have hnewline : '\n' ∉ word := fun hmem => absurd (hsep _ hmem) (by decide)
  rw [List.cons_append] at hline ⊢
  refine plainLine_of_ends hc hline hd ?_ ?_
  · rw [← List.cons_append, List.mem_append]
    exact fun hmem => hmem.elim hfront.1 hnewline
  · rw [← List.cons_append, List.mem_append]
    exact fun hmem => hmem.elim hfront.2 hnul

/-- The last word of a line. -/
theorem getLast?_tokens {front word : Text} (hword : IsWord word) :
    (tokens (front ++ ' ' :: word)).getLast? = some word := by
  rw [tokens_append _ _ (by decide), tokens_of_isWord hword, List.getLast?_append]
  rfl

/-- A branch line printed with a target. -/
theorem branchesTo_of_line (front operand : Text) {words : List Text} {source target : ℕ}
    (hline : words[source]? = some (front ++ ' ' :: operand)) (hoperand : IsWord operand)
    (hparse : parseInt operand = some ((4 * target : ℕ) : ℤ)) : BranchesTo words source target :=
  ⟨_, operand, hline, getLast?_tokens hoperand, hparse⟩

/-! ### Pieces of known layout -/

/-- The layout of a program: started with an intact buffer, it adds words as `P` says, of the number
of words before, the result, and the words added. -/
structure Lays {α : Type} (m : EngineM G α) (P : ℕ → α → List Text → Prop) : Prop where
  keeps : Relates (bufferStep G) m
  adds : ∀ e a e', HasRoom e → UncheckedFit e' → m.run e = some (a, e') →
    ∃ words, e'.words = e.words ++ words ∧ P e.words.length a words

namespace Lays

variable {α β : Type} {m : EngineM G α} {f : α → EngineM G β} {P : ℕ → α → List Text → Prop}
  {Q : α → ℕ → β → List Text → Prop}

/-- The words of two programs in a row. -/
theorem bind (hm : Lays m P) (hf : ∀ a, Lays (f a) (Q a)) :
    Lays (m >>= f) fun n b words => ∃ a front back, words = front ++ back ∧ P n a front ∧
      Q a (n + front.length) b back := by
  refine ⟨hm.keeps.bind fun a => (hf a).keeps, fun e b e' hroom hfit hrun => ?_⟩
  obtain ⟨a, e₁, hfirst, hsecond⟩ := run_bind_eq_some.1 hrun
  obtain ⟨hgrow, -⟩ := (hf a).keeps _ _ _ hsecond
  have hroom₁ : HasRoom e₁ := (hm.keeps _ _ _ hfirst).2 (hgrow.fit hfit) hroom
  obtain ⟨front, hfront, hP⟩ := hm.adds _ _ _ hroom (hgrow.fit hfit) hfirst
  obtain ⟨back, hback, hQ⟩ := (hf a).adds _ _ _ hroom₁ hfit hsecond
  rw [hfront, List.length_append] at hQ
  exact ⟨front ++ back, by rw [hback, hfront, List.append_assoc], a, front, back, rfl, hP, hQ⟩

theorem weaken {P' : ℕ → α → List Text → Prop} (h : Lays m P)
    (hP : ∀ n a words, P n a words → P' n a words) : Lays m P' := by
  refine ⟨h.keeps, fun e a e' hroom hfit hrun => ?_⟩
  obtain ⟨words, hwords, hadds⟩ := h.adds _ _ _ hroom hfit hrun
  exact ⟨words, hwords, hP _ _ _ hadds⟩

/-- An emission adds words. -/
theorem emission (h : Emission m) : Lays m fun _ _ _ => True := by
  refine ⟨h.relates_bufferStep, fun e a e' _ _ hrun => ?_⟩
  obtain ⟨words, hwords⟩ := words_of_eventsStep (h.eventsStep _ _ _ hrun)
  exact ⟨words, hwords, trivial⟩

theorem of_addsWords {m : EngineM G Unit} {words : List Text} (h : Emission m)
    (hm : AddsWords m words) : Lays m fun _ _ words' => words' = words :=
  ⟨h.relates_bufferStep, fun _ _ _ _ _ hrun => ⟨words, hm _ _ _ hrun, rfl⟩⟩

/-- The scan gives the address of the next word. -/
theorem currentPc : Lays (currentPc : EngineM G ℕ) fun n pc words => pc = 4 * n ∧ words = [] := by
  refine ⟨EnginePart.currentPc.relates_bufferStep, fun e pc e' hroom _ hrun => ?_⟩
  cases hrun
  exact ⟨[], (List.append_nil _).symm, pcAfter_text hroom.2, rfl⟩

theorem draw : Lays (draw : EngineM G _) fun _ _ words => words = [] := by
  refine ⟨relates_draw, fun e value e' _ _ hrun => ?_⟩
  cases hrun
  exact ⟨[], (List.append_nil _).symm, rfl⟩

end Lays

/-- The words of the trap handler, after `n` words. -/
def trapHandlerWords (n : ℕ) : List Text :=
  trapHandlerEntry.map String.toList ++
    ("beq t1, t2, ".toList ++ hexAlt (4 * (n + 16) + 20)) ::
    (trapHandlerReturn.map String.toList ++
      ("jal zero, ".toList ++ hexAlt (4 * (n + 20) + 8)) :: trapHandlerRestore.map String.toList)

/-- The words of the loop that fills the data memory, at word `loop`. -/
def fillLoopWords (loop : ℕ) : List Text :=
  fillLoop.map String.toList ++ ["bne t2, zero, 0x".toList ++ hex (4 * loop)]

/-- The words of a control hazard, after `n` words. -/
def controlHazardWords (n dist : ℕ) : List Text :=
  "addi t0, zero, 2".toList :: "addi t1, zero, 0".toList ::
    ("beq t0, t1, 0x".toList ++ hex (4 * (n + 2) + dist * 4 + 12)) ::
    (List.replicate dist "addi x0, x0, 0".toList ++
      ["addi t0, t0, -1".toList, "bne t0, t1, 0x".toList ++ hex (4 * (n + 2))])

theorem lays_emitInstructions (insts : List String)
    (h : ∀ inst ∈ insts, PlainLine inst.toList) :
    Lays (emitInstructions insts : EngineM G Unit)
      fun _ _ words => words = insts.map String.toList :=
  .of_addsWords (.emitInstructions _) (addsWords_emitInstructions h)

theorem lays_emitInstructionFormat {line : Text} (h : PlainLine line) :
    Lays (emitInstructionFormat line : EngineM G Unit) fun _ _ words => words = [line] :=
  .of_addsWords (.emitInstructionFormat _) (addsWords_emitInstructionFormat h)

theorem lays_emitTrapHandler :
    Lays (emitTrapHandler : EngineM G Unit) fun n _ words => words = trapHandlerWords n := by
  have hbeq : ∀ pc, PlainLine ("beq t1, t2, ".toList ++ hexAlt pc) :=
    fun pc => plainLine_append (by decide) (by decide) (isOperand_hexAlt pc)
  have hjal : ∀ pc, PlainLine ("jal zero, ".toList ++ hexAlt pc) :=
    fun pc => plainLine_append (by decide) (by decide) (isOperand_hexAlt pc)
  refine Lays.weaken (.bind (lays_emitInstructions _ (by decide)) fun _ =>
    .bind .currentPc fun _ => .bind (lays_emitInstructionFormat (hbeq _)) fun _ =>
    .bind (lays_emitInstructions _ (by decide)) fun _ => .bind .currentPc fun _ =>
    .bind (lays_emitInstructionFormat (hjal _)) fun _ => lays_emitInstructions _ (by decide)) ?_
  rintro n _ words ⟨_, _, _, rfl, rfl, ebreakPc, _, _, rfl, ⟨rfl, rfl⟩, _, _, _, rfl, rfl,
    _, _, _, rfl, rfl, restorePc, _, _, rfl, ⟨rfl, rfl⟩, _, _, _, rfl, rfl, rfl⟩
  rfl

/-- The loop stands right after the words that set it up. -/
theorem lays_emitFillLoop :
    Lays (emitFillLoop : EngineM G Unit) fun n _ words =>
      ∃ front, words = front ++ fillLoopWords (n + front.length) := by
  have hbne : ∀ pc, PlainLine ("bne t2, zero, 0x".toList ++ hex pc) :=
    fun pc => plainLine_append (by decide) (by decide) (isOperand_hex pc)
  have hlabel : AddsWords (appendUnchecked "1:\n".toList : EngineM G Unit) [] :=
    addsWords_appendUnchecked (by decide)
  refine Lays.weaken (.bind (.emission (.emitLi _ _)) fun _ => .bind .draw fun _ =>
    .bind (.emission (.emitLi _ _)) fun _ => .bind (.emission (.emitLi _ _)) fun _ =>
    .bind .currentPc fun _ =>
    .bind (.of_addsWords (.part (.appendUnchecked "1:".toList)) hlabel) fun _ =>
    .bind (lays_emitInstructions _ (by decide)) fun _ => lays_emitInstructionFormat (hbne _)) ?_
  rintro n _ words ⟨_, li₀, _, rfl, -, _, _, _, rfl, rfl, _, li₁, _, rfl, -, _, li₂, _, rfl, -,
    loopPc, _, _, rfl, ⟨rfl, rfl⟩, _, _, _, rfl, rfl, _, _, _, rfl, rfl, rfl⟩
  refine ⟨li₀ ++ li₁ ++ li₂, ?_⟩
  simp [fillLoopWords, Nat.add_assoc]

/-- The preamble: trap handler, trap vector, the loop that fills the memory, and the registers. -/
theorem lays_emitPreamble :
    Lays (emitPreamble : EngineM G Unit) fun n _ words => ∃ front back, words =
      trapHandlerWords n ++ "addi t0, zero, 4".toList :: "csrw mtvec, t0".toList ::
        (front ++ (fillLoopWords (n + 30 + front.length) ++ back)) := by
  have hhead : AddsWords (appendUnchecked preambleHead : EngineM G Unit) [] :=
    addsWords_appendUnchecked (by decide)
  have hsetup : Lays (setupTrapHandler 4 : EngineM G Unit) fun _ _ words =>
      words = ["addi t0, zero, 4".toList, "csrw mtvec, t0".toList] :=
    .of_addsWords (.setupTrapHandler _)
      (.bind (addsWords_emitInstructionFormat (by decide)) (addsWords_emitInstruction (by decide)))
  refine Lays.weaken (.bind (.of_addsWords (.part (.appendUnchecked
      "; BEGIN PROTECTED\n.text\n.global _start\n_start:".toList)) hhead) fun _ =>
    .bind lays_emitTrapHandler fun _ => .bind hsetup fun _ => .bind lays_emitFillLoop fun _ =>
    .bind (.emission .emitRegisterInit) fun _ => .bind (.emission .emitVectorInit) fun _ =>
    .emission (.part (.appendUnchecked
      "; END PROTECTED\n; BEGIN MUTABLE\n_mutable_start:".toList))) ?_
  rintro n _ words ⟨_, _, _, rfl, rfl, _, _, _, rfl, rfl, _, _, _, rfl, rfl, _, _, _, rfl,
    ⟨front, rfl⟩, _, registers, _, rfl, -, _, vectors, close, rfl, -, -⟩
  refine ⟨front, registers ++ (vectors ++ close), ?_⟩
  have hlength : (trapHandlerWords n).length = 28 := rfl
  simp [hlength, Nat.add_assoc]

theorem lays_generateControlHazard :
    Lays (generateControlHazard : EngineM G Unit) fun n _ words =>
      ∃ dist, 1 ≤ dist ∧ dist ≤ 4 ∧ words = controlHazardWords n dist := by
  have hbeq : ∀ pc, PlainLine ("beq t0, t1, 0x".toList ++ hex pc) :=
    fun pc => plainLine_append (by decide) (by decide) (isOperand_hex pc)
  have hbne : ∀ pc, PlainLine ("bne t0, t1, 0x".toList ++ hex pc) :=
    fun pc => plainLine_append (by decide) (by decide) (isOperand_hex pc)
  have hnop : PlainLine "addi x0, x0, 0".toList := by decide
  refine Lays.weaken (.bind .draw fun value => .bind (lays_emitInstructions _ (by decide)) fun _ =>
    .bind .currentPc fun _ => .bind (lays_emitInstructionFormat (hbeq _)) fun _ =>
    .bind (lays_emitInstructions (List.replicate (value.toNat % 4 + 1) "addi x0, x0, 0")
      fun inst hinst => List.eq_of_mem_replicate hinst ▸ hnop) fun _ =>
    .bind (.of_addsWords (.emitInstruction _) (addsWords_emitInstruction (by decide))) fun _ =>
    lays_emitInstructionFormat (hbne _)) ?_
  rintro n _ words ⟨value, _, _, rfl, rfl, _, _, _, rfl, rfl, pc, _, _, rfl, ⟨rfl, rfl⟩,
    _, _, _, rfl, rfl, _, _, _, rfl, rfl, _, _, _, rfl, rfl, rfl⟩
  refine ⟨value.toNat % 4 + 1, by omega, by omega, ?_⟩
  rw [List.map_replicate]
  rfl

/-! ### Targets -/

/-- The targets of a preamble whose first word is word `first`. -/
structure PreambleTargets (words : List Text) (first : ℕ) : Prop where
  /-- the jump over the trap handler -/
  overHandler : BranchesTo words first (first + 28)
  handlerEnd : words[first + 27]? = some "mret".toList
  afterHandler : words[first + 28]? = some "addi t0, zero, 4".toList
  /-- a breakpoint goes to the `ebreak` -/
  toEbreak : BranchesTo words (first + 16) (first + 21)
  ebreak : words[first + 21]? = some "ebreak".toList
  /-- anything else goes past it -/
  toRestore : BranchesTo words (first + 20) (first + 22)
  restore : words[first + 22]? = some "lw t1, 20(t0)".toList
  /-- the loop goes back to its first instruction -/
  toLoop : ∃ loop, first + 30 ≤ loop ∧ BranchesTo words (loop + 9) loop ∧
    words[loop]? = some "sw t1, 0(t0)".toList ∧
    words[loop + 8]? = some "addi t2, t2, -1".toList

/-- The targets of a control hazard whose first word is word `first`: the first branch goes past the
second one, and the second one back to the first. -/
def ControlHazardTargets (words : List Text) (first : ℕ) : Prop :=
  ∃ dist, 1 ≤ dist ∧ dist ≤ 4 ∧ BranchesTo words (first + 2) (first + dist + 5) ∧
    BranchesTo words (first + dist + 4) (first + 2)

/-- A word of a piece in the middle of the program. -/
theorem getElem?_middle {α : Type} (before words after : List α) {k : ℕ} {word : α}
    (h : words[k]? = some word) : (before ++ (words ++ after))[before.length + k]? = some word := by
  obtain ⟨hk, -⟩ := List.getElem?_eq_some_iff.1 h
  rw [List.getElem?_append_right (Nat.le_add_right _ _), Nat.add_sub_cancel_left,
    List.getElem?_append_left hk, h]

/-- The branches inside the trap handler. -/
theorem branchesTo_trapHandler (before after : List Text) :
    BranchesTo (before ++ (trapHandlerWords before.length ++ after)) (before.length + 16)
        (before.length + 21) ∧
      BranchesTo (before ++ (trapHandlerWords before.length ++ after)) (before.length + 20)
        (before.length + 22) := by
  constructor
  · refine branchesTo_of_line "beq t1, t2,".toList (hexAlt (4 * (before.length + 16) + 20))
      (getElem?_middle _ _ _ (k := 16) rfl) (isWord_hexAlt _) ?_
    rw [parseInt_hexAlt, Option.some.injEq]
    omega
  · refine branchesTo_of_line "jal zero,".toList (hexAlt (4 * (before.length + 20) + 8))
      (getElem?_middle _ _ _ (k := 20) rfl) (isWord_hexAlt _) ?_
    rw [parseInt_hexAlt, Option.some.injEq]
    omega

/-- The branch at the end of the loop. -/
theorem branchesTo_fillLoop (before after : List Text) :
    BranchesTo (before ++ (fillLoopWords before.length ++ after)) (before.length + 9)
      before.length := by
  refine branchesTo_of_line "bne t2, zero,".toList ('0' :: 'x' :: hex (4 * before.length))
    (getElem?_middle _ _ _ (k := 9) rfl)
    (isWord_cons (by decide) (isWord_cons (by decide) (isWord_hex _))) ?_
  rw [parseInt_hex]

/-- **The targets of a preamble that comes first.** -/
theorem preambleTargets {preamble front back : List Text}
    (hpreamble : preamble = trapHandlerWords 0 ++ "addi t0, zero, 4".toList ::
      "csrw mtvec, t0".toList :: (front ++ (fillLoopWords (0 + 30 + front.length) ++ back)))
    (after : List Text) : PreambleTargets (preamble ++ after) 0 := by
  generalize hback : back ++ after = rest
  generalize hwords : preamble ++ after = words
  have h : words = trapHandlerWords 0 ++ "addi t0, zero, 4".toList :: "csrw mtvec, t0".toList ::
      (front ++ (fillLoopWords (0 + 30 + front.length) ++ rest)) := by
    simp [← hwords, hpreamble, ← hback]
  obtain ⟨hebreak, hrestore⟩ := branchesTo_trapHandler [] ("addi t0, zero, 4".toList ::
    "csrw mtvec, t0".toList :: (front ++ (fillLoopWords (0 + 30 + front.length) ++ rest)))
  have hloop :
      words = (trapHandlerWords 0 ++ ["addi t0, zero, 4".toList, "csrw mtvec, t0".toList] ++
      front) ++ (fillLoopWords (0 + 30 + front.length) ++ rest) := by simp [h]
  have hlength : (trapHandlerWords 0 ++ ["addi t0, zero, 4".toList, "csrw mtvec, t0".toList] ++
      front).length = 0 + 30 + front.length := by
    have hhandler : (trapHandlerWords 0).length = 28 := rfl
    simp only [List.length_append, hhandler, List.length_cons, List.length_nil]
  refine ⟨⟨_, "0x70".toList, by rw [h]; rfl, by decide, by decide⟩, by rw [h]; rfl, by rw [h]; rfl,
    h ▸ hebreak, by rw [h]; rfl, h ▸ hrestore, by rw [h]; rfl, 0 + 30 + front.length, by omega, ?_⟩
  rw [hloop]
  generalize hbefore : trapHandlerWords 0 ++ ["addi t0, zero, 4".toList,
    "csrw mtvec, t0".toList] ++ front = before at hlength ⊢
  rw [← hlength]
  exact ⟨branchesTo_fillLoop _ _, getElem?_middle _ _ _ (k := 0) rfl,
    getElem?_middle _ _ _ (k := 8) rfl⟩

/-- **The targets of a control hazard**, wherever it stands. -/
theorem controlHazardTargets (before after : List Text) {dist : ℕ} (hlo : 1 ≤ dist)
    (hhi : dist ≤ 4) :
    ControlHazardTargets (before ++ (controlHazardWords before.length dist ++ after))
      before.length := by
  refine ⟨dist, hlo, hhi, ?_, ?_⟩
  · refine branchesTo_of_line "beq t0, t1,".toList
      ('0' :: 'x' :: hex (4 * (before.length + 2) + dist * 4 + 12))
      (getElem?_middle _ _ _ (k := 2) rfl)
      (isWord_cons (by decide) (isWord_cons (by decide) (isWord_hex _))) ?_
    rw [parseInt_hex, Option.some.injEq]
    omega
  · have hline : (controlHazardWords before.length dist)[dist + 4]? =
        some ("bne t0, t1, 0x".toList ++ hex (4 * (before.length + 2))) := by
      rw [controlHazardWords, List.getElem?_cons_succ, List.getElem?_cons_succ,
        List.getElem?_cons_succ, List.getElem?_append_right (by simp), List.length_replicate,
        Nat.add_sub_cancel_left]
      rfl
    rw [Nat.add_assoc]
    refine branchesTo_of_line "bne t0, t1,".toList ('0' :: 'x' :: hex (4 * (before.length + 2)))
      (getElem?_middle _ _ _ hline)
      (isWord_cons (by decide) (isWord_cons (by decide) (isWord_hex _))) ?_
    rw [parseInt_hex]

end CoralNpu
