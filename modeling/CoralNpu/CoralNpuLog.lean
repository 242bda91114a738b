/-
**Formatted logging.**

A program logs through four instructions: two load an argument, a number or a string in memory; one
sends a string in pieces of four characters; and one prints a format string in memory with the
arguments that are pending.  `PrintLog` walks over the format string with a pointer, and goes on by
two characters at every percent sign.

Main definitions:

* `CoralNpu.LogArg` — a pending argument;
* `CoralNpu.printLog` — `CoralNPUState::PrintLog`, with its ways to end;
* `CoralNpu.pieces` — a format string as characters and conversions;
* `CoralNpu.LogPrinted` — what printing should do.

Main results:

* `CoralNpu.printLoop_eq` — the loop, by the pieces of the format;
* `CoralNpu.logPrinted_iff` — **printing stays inside the format string exactly when** no argument
  is pending for a percent sign at its end.
-/

import CoralNpu.AsciiText

set_option relaxedAutoImplicit false
set_option autoImplicit false

namespace CoralNpu

open AsciiText

/-! ### Printing -/

/-- A pending argument: a number of 32 bits, or a string. -/
inductive LogArg where
  | value (value : BitVec 32)
  | string (text : Text)
  deriving DecidableEq

/-- What a conversion adds to the log; `none` when the format is incorrect. -/
def LogArg.convert : LogArg → Char → Option Text
  | value v, 'u' => some (decimal v.toNat)
  | value v, 'd' => some (signed v.toInt)
  | value v, 'x' => some (hex v.toNat)
  | string text, 's' => some text
  | _, _ => none

/-- The variables of `PrintLog`: the log string, the number of messages about an incorrect format,
and the pending arguments. -/
structure PrintState where
  logString : Text
  incorrect : ℕ
  logArgs : List LogArg
  deriving DecidableEq

/-- A conversion of the first pending argument, which is erased. -/
def PrintState.consume (s : PrintState) (arg : LogArg) (spec : Char) (rest : List LogArg) :
    PrintState :=
  match arg.convert spec with
  | some text => { s with logString := s.logString ++ text, logArgs := rest }
  | none => { s with incorrect := s.incorrect + 1, logArgs := rest }

/-- The ways `PrintLog` ends: it prints, its `CHECK` fails, or it reads a character behind the
terminator. -/
inductive PrintOutcome where
  | printed (s : PrintState)
  | checkFailed
  | readPastTerminator
  deriving DecidableEq

/-- The loop of `PrintLog`, from the pointer to the end of the format string; the terminator stands
behind the text. -/
def printLoop : Text → PrintState → PrintOutcome
  | [], s => .printed s
  | '%' :: format, s =>
      match s.logArgs with
      | [] => .checkFailed
      | arg :: rest =>
          match format with
          -- the terminator is taken for the specifier, and the pointer goes past it
          | [] => .readPastTerminator
          | spec :: format => printLoop format (s.consume arg spec rest)
  | c :: format, s =>
      if c = '\x00' then .printed s
      else printLoop format { s with logString := s.logString ++ [c] }

/-- `PrintLog`: the arguments are flushed at the end. -/
def printLog (format : Text) (logArgs : List LogArg) : PrintOutcome :=
  match printLoop format ⟨[], 0, logArgs⟩ with
  | .printed s => .printed { s with logArgs := [] }
  | outcome => outcome

example : printLog "%s World %x\n".toList [.string "Hi".toList, .value 0xbaddecaf] =
    .printed ⟨"Hi World baddecaf\n".toList, 0, []⟩ := by decide

/-! ### Formats -/

/-- A piece of a format string: a character to copy, a conversion with its specifier, or a percent
sign at the end of the string. -/
inductive FormatPiece where
  | char (c : Char)
  | conversion (spec : Char)
  | percentAtEnd
  deriving DecidableEq

/-- The pieces of a format string. -/
def pieces : Text → List FormatPiece
  | [] => []
  | ['%'] => [.percentAtEnd]
  | '%' :: spec :: format => .conversion spec :: pieces format
  | c :: format => .char c :: pieces format

/-- The piece starts with a percent sign. -/
def FormatPiece.takesArg : FormatPiece → Bool
  | char _ => false
  | conversion _ | percentAtEnd => true

/-- The number of percent signs outside a conversion. -/
def percentSigns (format : Text) : ℕ := ((pieces format).filter FormatPiece.takesArg).length

/-- The log string of some pieces: conversions of the arguments in order, and all other
characters. -/
def render : List FormatPiece → List LogArg → Text
  | .char c :: ps, args => c :: render ps args
  | .conversion spec :: ps, arg :: args => (arg.convert spec).getD [] ++ render ps args
  | _, _ => []

/-- The number of conversions that do not go with their argument. -/
def mismatches : List FormatPiece → List LogArg → ℕ
  | .char _ :: ps, args => mismatches ps args
  | .conversion spec :: ps, arg :: args =>
      (if (arg.convert spec).isNone then 1 else 0) + mismatches ps args
  | _, _ => 0

/-- **What printing should do**: read no character behind the terminator, and stop at the `CHECK`
because a percent sign finds no argument, or print with one argument consumed for each percent sign
outside a conversion, in order, and none left pending. -/
structure LogPrinted (format : Text) (logArgs : List LogArg) (outcome : PrintOutcome) : Prop where
  inside : outcome ≠ .readPastTerminator
  check : outcome = .checkFailed → logArgs.length < percentSigns format
  printed : ∀ s, outcome = .printed s → ∃ consumed rest, logArgs = consumed ++ rest ∧
    consumed.length = percentSigns format ∧ s.logString = render (pieces format) consumed ∧
    s.incorrect = mismatches (pieces format) consumed ∧ s.logArgs = []

theorem printLoop_char {c : Char} (hpercent : c ≠ '%') (hnul : c ≠ '\x00') (format : Text)
    (s : PrintState) : printLoop (c :: format) s =
      printLoop format { s with logString := s.logString ++ [c] } := by
  rw [printLoop.eq_def]
  split
  next heq => cases heq
  next heq => exact absurd (List.cons.inj heq).1 hpercent
  next heq =>
    obtain ⟨rfl, rfl⟩ := List.cons.inj heq
    rw [if_neg hnul]

theorem pieces_char {c : Char} (hpercent : c ≠ '%') (format : Text) :
    pieces (c :: format) = .char c :: pieces format := by
  rw [pieces.eq_def]
  split
  next heq => cases heq
  next heq => exact absurd (List.cons.inj heq).1 hpercent
  next heq => exact absurd (List.cons.inj heq).1 hpercent
  next heq =>
    obtain ⟨rfl, rfl⟩ := List.cons.inj heq
    rfl

/-- The last case of the pieces. -/
theorem ne_percent {c : Char} {format : Text} (hlast : c = '%' → format = [] → False)
    (hpercent : ∀ spec rest, c = '%' → format = spec :: rest → False) : c ≠ '%' := by
  rintro rfl
  cases format with
  | nil => exact hlast rfl rfl
  | cons spec rest => exact hpercent spec rest rfl rfl

theorem pieces_conversion (spec : Char) (format : Text) :
    pieces ('%' :: spec :: format) = .conversion spec :: pieces format := rfl

@[simp] theorem percentSigns_nil : percentSigns [] = 0 := rfl

@[simp] theorem percentSigns_atEnd : percentSigns ['%'] = 1 := rfl

@[simp] theorem percentSigns_conversion (spec : Char) (format : Text) :
    percentSigns ('%' :: spec :: format) = percentSigns format + 1 := rfl

theorem percentSigns_char {c : Char} (h : c ≠ '%') (format : Text) :
    percentSigns (c :: format) = percentSigns format := by
  rw [percentSigns, pieces_char h]
  rfl

/-- What a conversion does. -/
theorem consume_eq (s : PrintState) (arg : LogArg) (spec : Char) (rest : List LogArg) :
    s.consume arg spec rest = ⟨s.logString ++ (arg.convert spec).getD [],
      s.incorrect + (if (arg.convert spec).isNone then 1 else 0), rest⟩ := by
  rw [PrintState.consume]
  cases arg.convert spec <;> simp

/-- **The loop, by the pieces**: it stops at the first percent sign without an argument; a percent
sign at the end takes it past the terminator; otherwise it prints. -/
theorem printLoop_eq {format : Text} (hnul : '\x00' ∉ format) (s : PrintState) :
    printLoop format s =
      if s.logArgs.length < percentSigns format then .checkFailed
      else if .percentAtEnd ∈ pieces format then .readPastTerminator
      else .printed ⟨s.logString ++ render (pieces format) s.logArgs,
        s.incorrect + mismatches (pieces format) s.logArgs,
        s.logArgs.drop (percentSigns format)⟩ := by
  induction format using pieces.induct generalizing s with
  | case1 => simp [printLoop, pieces, render, mismatches]
  | case2 =>
      cases hargs : s.logArgs with
      | nil => simp [printLoop, hargs]
      | cons arg rest => simp [printLoop, hargs, pieces]
  | case3 spec format ih =>
      cases hargs : s.logArgs with
      | nil => simp [printLoop, hargs]
      | cons arg rest =>
          have hloop : printLoop ('%' :: spec :: format) s =
              printLoop format (s.consume arg spec rest) := by
            simp only [printLoop, hargs]
          rw [hloop, ih (fun hmem => hnul (by simp [hmem])), consume_eq, pieces_conversion,
            percentSigns_conversion]
          simp only [List.length_cons, Nat.add_lt_add_iff_right, List.mem_cons, reduceCtorEq,
            false_or, render, mismatches, List.drop_succ_cons, List.append_assoc, Nat.add_assoc]
  | case4 c format hlast hpercent ih =>
      have hc := ne_percent hlast hpercent
      have hcnul : c ≠ '\x00' := fun heq => hnul (by simp [heq])
      rw [printLoop_char hc hcnul, ih (fun hmem => hnul (by simp [hmem])), pieces_char hc,
        percentSigns_char hc]
      simp only [List.mem_cons, reduceCtorEq, false_or, render, mismatches, List.append_assoc,
        List.singleton_append]

/-- Arguments that no piece takes do not matter. -/
theorem render_take (format : Text) (args : List LogArg) :
    render (pieces format) (args.take (percentSigns format)) = render (pieces format) args ∧
      mismatches (pieces format) (args.take (percentSigns format)) =
        mismatches (pieces format) args := by
  induction format using pieces.induct generalizing args with
  | case1 => exact ⟨rfl, rfl⟩
  | case2 => exact ⟨rfl, rfl⟩
  | case3 spec format ih =>
      rw [pieces_conversion, percentSigns_conversion]
      cases args with
      | nil => exact ⟨rfl, rfl⟩
      | cons arg args =>
          rw [List.take_succ_cons]
          simp only [render, mismatches, ih args, and_self]
  | case4 c format hlast hpercent ih =>
      have hc := ne_percent hlast hpercent
      rw [pieces_char hc, percentSigns_char hc]
      simp only [render, mismatches, ih args, and_self]

/-- **Printing stays inside the format string exactly when** the string does not end in a percent
sign outside a conversion that finds an argument. -/
theorem logPrinted_iff {format : Text} (hnul : '\x00' ∉ format) (logArgs : List LogArg) :
    LogPrinted format logArgs (printLog format logArgs) ↔
      ¬ (.percentAtEnd ∈ pieces format ∧ percentSigns format ≤ logArgs.length) := by
  rw [printLog, printLoop_eq hnul]
  simp only [List.nil_append, Nat.zero_add]
  by_cases hargs : logArgs.length < percentSigns format
  · rw [if_pos hargs]
    refine ⟨fun _ ⟨_, hle⟩ => absurd hle (Nat.not_le.2 hargs),
      fun _ => ⟨nofun, fun _ => hargs, nofun⟩⟩
  rw [if_neg hargs]
  by_cases hend : .percentAtEnd ∈ pieces format
  · rw [if_pos hend]
    exact ⟨fun h => absurd rfl h.inside, fun h => absurd ⟨hend, Nat.le_of_not_lt hargs⟩ h⟩
  · rw [if_neg hend]
    refine ⟨fun _ h => hend h.1, fun _ => ⟨nofun, nofun, fun s hs => ?_⟩⟩
    cases hs
    obtain ⟨hrender, hmismatches⟩ := render_take format logArgs
    refine ⟨logArgs.take (percentSigns format), logArgs.drop (percentSigns format),
      (List.take_append_drop _ _).symm, ?_, hrender.symm, hmismatches.symm, rfl⟩
    rw [List.length_take]
    omega

/-- A greeting with a number. -/
theorem logPrinted_iff_greeting :
    let format := "Hi %u".toList
    LogPrinted format [.value 5] (printLog format [.value 5]) ↔
      ¬ (.percentAtEnd ∈ pieces format ∧ percentSigns format ≤ 1) :=
  logPrinted_iff (by decide) [.value 5]

/-- A percent sign at the end, with an argument pending. -/
theorem not_logPrinted_percent :
    printLog ['%'] [.value 5] = .readPastTerminator ∧
      ¬ LogPrinted ['%'] [.value 5] (printLog ['%'] [.value 5]) :=
  ⟨rfl, fun h => h.inside rfl⟩

end CoralNpu
