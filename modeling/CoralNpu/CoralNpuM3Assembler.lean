/-
**The assembler of the M3.**

The assembler takes a line of assembly text, rewrites it step by step to the spelling of the
instruction set, and leaves it to the slot matcher, which the build generates from the description
of the instruction set.  The `vset` instructions name the parts of `vtype`; the assembler computes
the number of `vtype` and puts it in their place.

Main definitions:

* `CoralNpu.Isa32M3.stripLabel`, `CoralNpu.Isa32M3.replaceSeg`, `CoralNpu.Isa32M3.mapCsr`,
  `CoralNpu.Isa32M3.normalizeCommas`, `CoralNpu.Isa32M3.normalizeOptionalArguments` — the steps;
* `CoralNpu.Isa32M3.rewriteVsetvli`, `CoralNpu.Isa32M3.rewriteVsetivli` — the steps for the `vset`
  instructions;
* `CoralNpu.Isa32M3.encodeWord`, `CoralNpu.Isa32M3.encode` — a line of text.
-/

import CoralNpu.CoralNpuM3BinEncoder
import CoralNpu.TextRewrite
import Mathlib.Data.List.DropRight

set_option relaxedAutoImplicit false
set_option autoImplicit false

namespace CoralNpu.Isa32M3

open AsciiText TextRewrite

/-! ### Labels and aliases -/

/-- White space of a regular expression. -/
def isReSpace (c : Char) : Bool := c == ' ' || c == '\t' || c == '\n' || c == '\x0c' || c == '\r'

/-- A text without the white space in front of it. -/
def skipSpaces (text : Text) : Text := text.dropWhile isReSpace

/-- The text is in the other one. -/
def contains (part text : Text) : Bool := decide (part <:+: text)

/-- `^(\S+)\s*:` — the label, and what is behind it. -/
def stripLabel (text : Text) : Option Text × Text :=
  let run := text.takeWhile fun c => !isReSpace c
  match skipSpaces (text.drop run.length) with
  | ':' :: rest => if run ≠ [] then (some run, rest) else (none, text)
  | _ =>
    -- a colon in the run of characters itself
    let upTo := run.rdropWhile (· ≠ ':')
    if 2 ≤ upTo.length then (some upTo.dropLast, text.drop upTo.length) else (none, text)

/-- `X0Dest` is the register zero. -/
def replaceAlias (text : Text) : Text := replaceAll "X0Dest".toList "zero".toList text

/-! ### Segment loads and stores -/

/-- `v(l|s)(u|o|s)?(x)?seg`. -/
def segStems : List Text :=
  ["vl", "vs"].flatMap fun front =>
    ["u", "o", "s", ""].flatMap fun kind => ["x", ""].map fun index =>
    (front ++ kind ++ index ++ "seg").toList

/-- The length of a match of `v(l|s)(u|o|s)?(x)?seg([2-8])` in front. -/
def matchSeg (text : Text) : Option ℕ :=
  (segStems.find? fun stem => startsWith stem text && (text.drop stem.length).head?.any fun c =>
    '2' ≤ c && c ≤ '8').map fun stem => stem.length + 1

/-- The first match without the white space behind it. -/
def replaceSeg : Text → Text
  | [] => []
  | c :: rest =>
    match matchSeg (c :: rest) with
    | some n => (c :: rest).take n ++ skipSpaces ((c :: rest).drop n)
    | none => c :: replaceSeg rest

/-! ### Vector configurations -/

/-- `\s*([^,]+)`, or with at least so many spaces, of a text without commas. -/
def captureText (least : ℕ) (part : Text) : Option Text :=
  let spaces := part.takeWhile isReSpace
  match skipSpaces part with
  -- the last space is a match for `[^,]+`
  | [] => if least < spaces.length then spaces.getLast?.map ([·]) else none
  | rest => if least ≤ spaces.length then some rest else none

/-- `\s*x([...]+)` for a letter and some characters. -/
def captureField (letter : Char) (allowed : Char → Bool) (part : Text) : Option Text :=
  match skipSpaces part with
  | c :: rest => if c = letter ∧ rest ≠ [] ∧ rest.all allowed then some rest else none
  | [] => none

/-- `\s*x([au])` for a letter. -/
def captureFlag (letter : Char) (part : Text) : Option Bool :=
  match skipSpaces part with
  | [c, 'a'] => if c = letter then some true else none
  | [c, 'u'] => if c = letter then some false else none
  | _ => none

/-- What `kVsetvliRe` and `kVsetivliRe` capture. -/
structure VsetMatch where
  rd : Text
  second : Text
  sew : Text
  m : Text
  ta : Bool
  ma : Bool

/-- `kVsetvliRe` and `kVsetivliRe`. -/
def matchVset (mnemonic text : Text) : Option VsetMatch :=
  match text.splitOn ',' with
  | [first, second, sew, m, ta, ma] =>
    if startsWith mnemonic first then do
      return ⟨← captureText 1 (first.drop mnemonic.length), ← captureText 0 second,
        ← captureField 'e' Char.isDigit sew, ← captureField 'm' (fun c => c.isDigit || c == 'f') m,
        ← captureFlag 't' ta, ← captureFlag 'm' ma⟩
    else none
  | _ => none

/-- The code of an element width. -/
def sewBits (sew : Text) : ℕ :=
  if sew = "8".toList then 0 else if sew = "16".toList then 1 else if sew = "32".toList then 2
  else if sew = "64".toList then 3 else 0

/-- The code of a multiplier. -/
def lmulBits (m : Text) : ℕ :=
  if m = "1".toList then 0 else if m = "2".toList then 1 else if m = "4".toList then 2
  else if m = "8".toList then 3 else if m = "f8".toList then 5 else if m = "f4".toList then 6
  else if m = "f2".toList then 7 else 0

/-- The number of `vtype`. -/
def VsetMatch.zimm (captured : VsetMatch) : ℕ :=
  captured.ma.toNat <<< 7 ||| captured.ta.toNat <<< 6 ||| sewBits captured.sew <<< 3 |||
    lmulBits captured.m

/-- The rewriting of an instruction that names the parts of `vtype`; the operands in front are as
`operands` says. -/
def rewriteVset (mnemonic : Text) (operands : VsetMatch → Text) (assembly : Text) : Text :=
  if startsWith mnemonic assembly && contains ", e".toList assembly then
    match matchVset mnemonic assembly with
    | some captured =>
      mnemonic ++ " ".toList ++ operands captured ++ ", ".toList ++ decimal captured.zimm
    | none => assembly
  else assembly

/-- The rewriting of `vsetvli`. -/
def rewriteVsetvli : Text → Text :=
  rewriteVset "vsetvli".toList fun captured => captured.rd ++ ", ".toList ++ captured.second

/-- The rewriting of `vsetivli`. -/
def rewriteVsetivli : Text → Text := rewriteVset "vsetivli".toList fun captured => captured.second

/-! ### Control and status registers -/

/-- The instructions that have a shorter form. -/
def csrOps : List Text :=
  ["csrrw", "csrrs", "csrrc", "csrrwi", "csrrsi", "csrrci"].map String.toList

/-- `\s+(zero|x0)\s*,\s*(.*)` — what is behind the register zero. -/
def behindZero (text : Text) : Option Text := do
  let operand := skipSpaces text
  let rest ← if startsWith "zero".toList operand then some (operand.drop 4)
    else if startsWith "x0".toList operand then some (operand.drop 2) else none
  match skipSpaces rest with
  | ',' :: tail => if '\n' ∈ skipSpaces tail then none else some (skipSpaces tail)
  | _ => none

/-- The shorter form of an instruction that does not keep the old value. -/
def mapCsr (assembly : Text) : Text :=
  match csrOps.find? fun op =>
    startsWith op assembly && (assembly.drop op.length).head?.any isReSpace with
  | some op =>
    let short := op.take 3 ++ op.drop 4
    match behindZero (assembly.drop op.length) with
    | some rest => (short ++ " ".toList ++ rest).take 255
    | none =>
      if startsWith (op ++ " ".toList) assembly then short ++ assembly.drop op.length else assembly
  | none => assembly

/-! ### Commas -/

/-- Exactly one space behind every comma. -/
def normalizeCommas (assembly : Text) : Text :=
  match assembly.splitOn ',' with
  | first :: parts => joinCommas (first :: parts.map fun part => ' ' :: skipSpaces part)
  | [] => []

/-- Without the commas and spaces at the end. -/
def stripTrailing (assembly : Text) : Text := assembly.rdropWhile fun c => c == ' ' || c == ','

/-- An instruction of the custom vector extension. -/
def isKelvinCustom (assembly : Text) : Bool :=
  [".b.", ".h.", ".uw.", ".d.", ".s."].any (fun part => contains part.toList assembly) ||
    contains ".w.".toList assembly && !startsWith "vfw".toList assembly

/-- `NormalizeOptionalArguments`. -/
def normalizeOptionalArguments (assembly : Text) : Text :=
  if isKelvinCustom assembly || 254 ≤ assembly.length then assembly
  else if assembly.getLast?.any (fun c => c != ',' && c != ' ') &&
      !startsWith "csr".toList assembly && !startsWith "vset".toList assembly &&
      !startsWith "vmv".toList assembly && !startsWith "vfmv".toList assembly &&
        startsWith "v".toList assembly then
    let trimmed := strip assembly
    let commaCount := assembly.count ','
    let isMasked := (endsWith "v0".toList trimmed || endsWith "v0.t".toList trimmed) &&
      (3 ≤ commaCount || 2 ≤ commaCount &&
        (startsWith "vl".toList assembly || startsWith "vs".toList assembly))
    if isMasked then assembly else assembly ++ ", ".toList
  else assembly

/-! ### Lines -/

/-- `CoralnpuM3SlotMatcher::Encode`: the value of an instruction, and its size in bits. -/
abbrev SlotMatcher := BitVec 64 → Text → Except Text (BitVec 64 × ℕ)

/-- The text of an instruction as it is matched. -/
def normalize (text : Text) : Text :=
  let assembly := replaceAlias (strip text)
  let assembly :=
    if startsWith "vl".toList assembly || startsWith "vs".toList assembly then replaceSeg assembly
    else assembly
  stripTrailing (normalizeCommas (mapCsr (rewriteVsetivli (rewriteVsetvli assembly))))

/-- The value and the size of an instruction; `addSymbol` is the callback for a label. -/
def encodeWord (matcher : SlotMatcher) (addSymbol : Text → BitVec 64 → Except Text Unit)
    (address : BitVec 64) (text : Text) : Except Text (BitVec 64 × ℕ) := do
  let (label, text) := stripLabel text
  if let some label := label then addSymbol label address
  let assembly := normalize text
  match matcher address assembly with
  | .ok result => return result
  | .error message =>
    let normalized := normalizeOptionalArguments assembly
    if normalized ≠ assembly then matcher address normalized else .error message

/-- `CoralNPUM3Assembler::Encode`: the bytes of an instruction. -/
def encode (matcher : SlotMatcher) (addSymbol : Text → BitVec 64 → Except Text Unit)
    (address : BitVec 64) (text : Text) : Except Text (List (BitVec 8)) := do
  let (value, size) ← encodeWord matcher addSymbol address text
  return (List.range (min (size / 8) 8)).map fun i => value.extractLsb' (8 * i) 8

end CoralNpu.Isa32M3
