/-
**Vector configurations in assembly text.**

A `vset` line names an element width and a multiplier, and it sets the vector length or keeps it.
This module reads such lines and follows the vector length along a text.  What a `vset` line does to
the vector length depends on the machine that runs it: on the register the line names, and on the
largest vector length of the configuration, which is zero when the machine does not support it.

Main definitions:

* `CoralNpu.vsetOf` — the configuration a line names;
* `CoralNpu.VectorMachine` — what a run of the text depends on;
* `CoralNpu.lastVset`, `CoralNpu.VectorMachine.vlAfter` — the last `vset` line of a text, and the
  vector length set by the last line that sets it.

Main results:

* `CoralNpu.vsetOf_vsetvliLine`, `CoralNpu.vsetOf_vsetivliLine` — the printed lines are read back;
* `CoralNpu.VectorMachine.vlAfter_concat` — one line more.
-/

import Mathlib.Data.List.TakeWhile
import CoralNpu.IsgEngine

set_option relaxedAutoImplicit false
set_option autoImplicit false

namespace CoralNpu

open AsciiText

/-! ### Lines -/

/-- Where a `vset` line takes the vector length from. -/
inductive AvlSource where
  | keep
  | maximal
  | register (reg : Text)
  | immediate (n : ℕ)
  deriving DecidableEq

/-- A `vset` line. -/
structure VsetLine where
  avl : AvlSource
  sew : VectorSew
  lmul : VectorLmul
  deriving DecidableEq

/-- The element width with a name. -/
def sewOfText (text : Text) : Option VectorSew :=
  [VectorSew.e8, .e16, .e32, .e64].find? fun sew => sew.toText == text

/-- The multiplier with a name. -/
def lmulOfText (text : Text) : Option VectorLmul :=
  [VectorLmul.mf8, .mf4, .mf2, .m1, .m2, .m4, .m8].find? fun lmul => lmul.toText == text

/-- The register that is always zero. -/
def isZeroRegister (reg : Text) : Bool := reg == "zero".toList || reg == "x0".toList

/-- The source of the vector length in a `vsetvli rd, rs1`. -/
def avlOfRegisters (rd rs1 : Text) : AvlSource :=
  if isZeroRegister rs1 then if isZeroRegister rd then .keep else .maximal else .register rs1

/-- The source of the vector length in a line with this mnemonic. -/
def avlSourceOf (mnemonic rd source : Text) : Option AvlSource :=
  if mnemonic = "vsetvli".toList then some (avlOfRegisters rd source)
  else if mnemonic = "vsetivli".toList then (parseNat source).map AvlSource.immediate
  else none

/-- The configuration a line names, if it is a `vset` line with a configuration. -/
def vsetOf (line : Text) : Option VsetLine :=
  if isVset (strip line) then
    match tokens line with
    | mnemonic :: rd :: source :: sew :: lmul :: _ => do
        let avl ← avlSourceOf mnemonic rd source
        let sew ← sewOfText sew
        let lmul ← lmulOfText lmul
        return ⟨avl, sew, lmul⟩
    | _ => none
  else none

theorem sewOfText_toText (sew : VectorSew) : sewOfText sew.toText = some sew := by
  cases sew <;> decide

theorem lmulOfText_toText (lmul : VectorLmul) : lmulOfText lmul.toText = some lmul := by
  cases lmul <;> decide

theorem isWord_sewText (sew : VectorSew) : IsWord sew.toText := by
  cases sew <;> decide

theorem isWord_lmulText (lmul : VectorLmul) : IsWord lmul.toText := by
  cases lmul <;> decide

theorem vsetOf_of_not_isVset {line : Text} (h : isVset (strip line) = false) :
    vsetOf line = none := by
  rw [vsetOf, h]
  rfl

/-- A word and the comma after it. -/
theorem tokens_word_comma {word : Text} (h : IsWord word) (text : Text) :
    tokens (word ++ ", ".toList ++ text) = word :: tokens text := by
  rw [List.append_assoc, show ", ".toList ++ text = ',' :: ' ' :: text from rfl,
    tokens_word_append h (by decide), tokens_cons (by decide)]

/-- A line with two operands. -/
theorem tokens_two {mnemonic a b : Text} (hmnemonic : IsWord mnemonic) (ha : IsWord a)
    (hb : IsWord b) : tokens (mnemonic ++ ' ' :: (a ++ ", ".toList ++ b)) = [mnemonic, a, b] := by
  rw [tokens_word_append hmnemonic (by decide), tokens_word_comma ha, tokens_of_isWord hb]

/-- A line with three operands. -/
theorem tokens_three {mnemonic a b c : Text} (hmnemonic : IsWord mnemonic) (ha : IsWord a)
    (hb : IsWord b) (hc : IsWord c) :
    tokens (mnemonic ++ ' ' :: (a ++ ", ".toList ++ (b ++ ", ".toList ++ c))) =
      [mnemonic, a, b, c] := by
  rw [tokens_word_append hmnemonic (by decide), tokens_word_comma ha, tokens_word_comma hb,
    tokens_of_isWord hc]

/-- The words of a printed `lui`. -/
theorem tokens_lui {reg : Text} (h : IsWord reg) (n : ℕ) :
    tokens ("lui ".toList ++ reg ++ ", 0x".toList ++ hex n) =
      ["lui".toList, reg, '0' :: 'x' :: hex n] := by
  have hline : "lui ".toList ++ reg ++ ", 0x".toList ++ hex n =
      "lui".toList ++ ' ' :: (reg ++ ", ".toList ++ '0' :: 'x' :: hex n) := by simp
  rw [hline, tokens_two (by decide) h
    (isWord_cons (by decide) (isWord_cons (by decide) (isWord_hex n)))]

/-- The words of a printed `addi`. -/
theorem tokens_addi {rd rs imm : Text} (hrd : IsWord rd) (hrs : IsWord rs) (himm : IsWord imm) :
    tokens ("addi ".toList ++ rd ++ ", ".toList ++ rs ++ ", ".toList ++ imm) =
      ["addi".toList, rd, rs, imm] := by
  have hline : "addi ".toList ++ rd ++ ", ".toList ++ rs ++ ", ".toList ++ imm =
      "addi".toList ++ ' ' :: (rd ++ ", ".toList ++ (rs ++ ", ".toList ++ imm)) := by simp
  rw [hline, tokens_three (by decide) hrd hrs himm]

/-- A text that starts with a `vset` mnemonic is a `vset` line. -/
theorem isVset_strip {mnemonic : Text} (hword : IsWord mnemonic) (hvset : isVset mnemonic = true)
    (text : Text) : isVset (strip (mnemonic ++ text)) = true := by
  obtain ⟨rest, hrest⟩ := exists_strip_append hword.1 hword.isSpace_eq text
  have hstarts : "vset".toList <+: mnemonic := List.isPrefixOf_iff_prefix.1 hvset
  rw [hrest, isVset]
  exact List.isPrefixOf_iff_prefix.2 (hstarts.trans (List.prefix_append _ _))

/-- A register operand: a word without a NUL. -/
def IsOperandWord (word : Text) : Prop := IsWord word ∧ '\x00' ∉ word

instance (word : Text) : Decidable (IsOperandWord word) := inferInstanceAs (Decidable (_ ∧ _))

theorem cString_of_not_mem {text : Text} (h : '\x00' ∉ text) : cString text = text := by
  refine List.takeWhile_eq_self_iff.2 fun c hc => ?_
  simpa using fun heq : c = '\x00' => h (heq ▸ hc)

/-- The text of a `vset` line without its newline. -/
def vsetText (mnemonic rd source : Text) (sew : VectorSew) (lmul : VectorLmul)
    (tailAgnostic maskAgnostic : Bool) : Text :=
  mnemonic ++ ' ' :: (rd ++ ", ".toList ++ (source ++ ", ".toList ++ (sew.toText ++ ", ".toList ++
    (lmul.toText ++ ", ".toList ++ (tailText tailAgnostic ++ ", ".toList ++
      maskText maskAgnostic)))))

theorem isVset_vsetText {mnemonic : Text} (hword : IsWord mnemonic) (hvset : isVset mnemonic = true)
    (rd source : Text) (sew : VectorSew) (lmul : VectorLmul) (ta ma : Bool) :
    isVset (strip (vsetText mnemonic rd source sew lmul ta ma)) = true :=
  isVset_strip hword hvset _

/-- What `vsetOf` reads in such a text. -/
theorem vsetOf_vsetText {mnemonic rd source : Text} {avl : AvlSource} (hmnemonic : IsWord mnemonic)
    (hvset : isVset mnemonic = true) (hrd : IsWord rd) (hsource : IsWord source)
    (havl : avlSourceOf mnemonic rd source = some avl) (sew : VectorSew) (lmul : VectorLmul)
    (ta ma : Bool) : vsetOf (vsetText mnemonic rd source sew lmul ta ma) =
      some ⟨avl, sew, lmul⟩ := by
  rw [vsetText, vsetOf, if_pos (isVset_strip hmnemonic hvset _),
    tokens_word_append hmnemonic (by decide), tokens_word_comma hrd, tokens_word_comma hsource,
    tokens_word_comma (isWord_sewText sew), tokens_word_comma (isWord_lmulText lmul)]
  simp only [havl, sewOfText_toText, lmulOfText_toText, Option.bind_eq_bind, Option.bind_some,
    Option.pure_def]

theorem vsetvliLine_eq {rd rs1 : Text} (hrd : '\x00' ∉ rd) (hrs1 : '\x00' ∉ rs1) (sew : VectorSew)
    (lmul : VectorLmul) (ta ma : Bool) :
    vsetvliLine rd rs1 sew lmul ta ma =
      vsetText "vsetvli".toList rd rs1 sew lmul ta ma ++ "\n".toList := by
  have hname : "vsetvli ".toList = "vsetvli".toList ++ [' '] := by simp
  unfold vsetvliLine vsetText
  simp only [cString_of_not_mem hrd, cString_of_not_mem hrs1, hname, List.append_assoc,
    List.cons_append, List.nil_append]

theorem vsetivliLine_eq {rd : Text} (hrd : '\x00' ∉ rd) (uimm : BitVec 32) (sew : VectorSew)
    (lmul : VectorLmul) (ta ma : Bool) :
    vsetivliLine rd uimm sew lmul ta ma =
      vsetText "vsetivli".toList rd (decimal uimm.toNat) sew lmul ta ma ++ "\n".toList := by
  have hname : "vsetivli ".toList = "vsetivli".toList ++ [' '] := by simp
  unfold vsetivliLine vsetText
  simp only [cString_of_not_mem hrd, hname, List.append_assoc, List.cons_append, List.nil_append]

/-- The printed `vsetvli` line is read back. -/
theorem vsetOf_vsetvli {rd rs1 : Text} (hrd : IsWord rd) (hrs1 : IsWord rs1) (sew : VectorSew)
    (lmul : VectorLmul) (ta ma : Bool) :
    vsetOf (vsetText "vsetvli".toList rd rs1 sew lmul ta ma) =
      some ⟨avlOfRegisters rd rs1, sew, lmul⟩ := by
  have havl : avlSourceOf "vsetvli".toList rd rs1 = some (avlOfRegisters rd rs1) := if_pos rfl
  exact vsetOf_vsetText (by decide) (by decide) hrd hrs1 havl sew lmul ta ma

/-- The printed `vsetivli` line is read back. -/
theorem vsetOf_vsetivli {rd : Text} (hrd : IsWord rd) (uimm : BitVec 32) (sew : VectorSew)
    (lmul : VectorLmul) (ta ma : Bool) :
    vsetOf (vsetText "vsetivli".toList rd (decimal uimm.toNat) sew lmul ta ma) =
      some ⟨.immediate uimm.toNat, sew, lmul⟩ := by
  have havl : avlSourceOf "vsetivli".toList rd (decimal uimm.toNat) =
      some (.immediate uimm.toNat) := by
    rw [avlSourceOf, parseNat_decimal, if_neg (by decide), if_pos rfl]
    rfl
  exact vsetOf_vsetText (by decide) (by decide) hrd (isWord_decimal _) havl sew lmul ta ma

theorem newline_not_mem_vsetText {mnemonic rd source : Text} (hmnemonic : '\n' ∉ mnemonic)
    (hrd : IsWord rd) (hsource : IsWord source) (sew : VectorSew) (lmul : VectorLmul)
    (ta ma : Bool) : '\n' ∉ vsetText mnemonic rd source sew lmul ta ma := by
  have hword : ∀ {word : Text}, IsWord word → '\n' ∉ word :=
    fun h hmem => absurd (h.2 _ hmem) (by decide)
  have htail : '\n' ∉ tailText ta ∧ '\n' ∉ maskText ma := by
    cases ta <;> cases ma <;> decide
  simp [vsetText, hmnemonic, hword hrd, hword hsource, hword (isWord_sewText sew),
    hword (isWord_lmulText lmul), htail]

/-! ### The machine and the vector length -/

/-- What a run of a text depends on: the registers after a text, and the largest vector length of
each configuration, zero where the configuration is not supported.  `lui` and `addi` do what they do
on every machine, and elements of eight bits are supported. -/
structure VectorMachine where
  registers : List Text → Text → BitVec 32
  vlmax : VectorSew → VectorLmul → ℕ
  lui : ∀ (before : List Text) (line rd imm : Text) (n : ℤ),
    tokens line = ["lui".toList, rd, imm] → parseInt imm = some n → isZeroRegister rd = false →
      registers (before ++ [line]) rd = BitVec.ofInt 32 n <<< 12
  addi : ∀ (before : List Text) (line rd rs imm : Text) (n : ℤ),
    tokens line = ["addi".toList, rd, rs, imm] → parseInt imm = some n →
      isZeroRegister rd = false → registers (before ++ [line]) rd =
        (if isZeroRegister rs then 0 else registers before rs) + BitVec.ofInt 32 n
  vlmax_e8_m1 : vlmax .e8 .m1 ≠ 0
  vlmax_e8_m8 : vlmax .e8 .m8 ≠ 0

/-- The last `vset` line. -/
def lastVset (lines : List Text) : Option Text :=
  lines.reverse.find? fun line => isVset (strip line)

@[simp] theorem lastVset_concat (lines : List Text) (line : Text) :
    lastVset (lines ++ [line]) = if isVset (strip line) then some line else lastVset lines := by
  rw [lastVset, List.reverse_append, List.reverse_singleton, List.singleton_append, List.find?_cons]
  split <;> rename_i h <;> simp [h, lastVset]

namespace VectorMachine

variable (m : VectorMachine)

/-- The vector length a line sets when it runs after the lines `before`; `none` when it keeps the
vector length. -/
def setsVl (before : List Text) (line : Text) : Option ℕ :=
  match vsetOf line with
  | none => none
  | some vset =>
      let vlmax := m.vlmax vset.sew vset.lmul
      if vlmax = 0 then some 0
      else
        match vset.avl with
        | .keep => none
        | .maximal => some vlmax
        | .register reg => some (min (m.registers before reg).toNat vlmax)
        | .immediate n => some (min n vlmax)

/-- The vector length set by the last line that sets it, for lines in reverse order. -/
def vlAfterReversed : List Text → Option ℕ
  | [] => none
  | line :: earlier => (m.setsVl earlier.reverse line).or (vlAfterReversed earlier)

/-- The vector length set by the last line that sets it. -/
def vlAfter (lines : List Text) : Option ℕ := m.vlAfterReversed lines.reverse

@[simp] theorem vlAfter_concat (lines : List Text) (line : Text) :
    m.vlAfter (lines ++ [line]) = (m.setsVl lines line).or (m.vlAfter lines) := by
  rw [vlAfter, List.reverse_append, List.reverse_singleton, List.singleton_append, vlAfterReversed,
    List.reverse_reverse]
  rfl

theorem setsVl_of_not_isVset {line : Text} (h : isVset (strip line) = false) (before : List Text) :
    m.setsVl before line = none := by
  rw [setsVl, vsetOf_of_not_isVset h]

theorem setsVl_of_vsetOf {line : Text} {vset : VsetLine} (h : vsetOf line = some vset)
    (hvlmax : m.vlmax vset.sew vset.lmul ≠ 0) (before : List Text) :
    m.setsVl before line =
      match vset.avl with
      | .keep => none
      | .maximal => some (m.vlmax vset.sew vset.lmul)
      | .register reg => some (min (m.registers before reg).toNat (m.vlmax vset.sew vset.lmul))
      | .immediate n => some (min n (m.vlmax vset.sew vset.lmul)) := by
  rw [setsVl, h]
  exact if_neg hvlmax

end VectorMachine

end CoralNpu
