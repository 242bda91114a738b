/-
**What the `vset` instructions of the assembler mean.**

A text `vsetvli rd, rs1, eSEW, mLMUL, ta, ma` names every field of its word, and so does a
`vsetivli` with an immediate.  The assembler computes the number of `vtype` and leaves the rest to
the slot matcher, which matches the formats of the instruction set.

Main definitions:

* `CoralNpu.Isa32M3.VsetTemplates` — what the slot matcher does with the two instructions;
* `CoralNpu.Isa32M3.VsetSource` — the texts;
* `CoralNpu.Isa32M3.VsetFields.Named` — a word with the fields that are named;
* `CoralNpu.Isa32M3.VsetFields.Faithful` — the texts that the assembler understands.

Main results:

* `CoralNpu.Isa32M3.VsetFields.word_eq_some_iff`, `CoralNpu.Isa32M3.VsetFields.fieldOf_word` — the
  word of a text;
* `CoralNpu.Isa32M3.vset_named_iff` — **the fields are those that are named, exactly when** the text
  is understood.
-/

import CoralNpu.CoralNpuM3VsetText
import CoralNpu.CoralNpuM3Registers
import CoralNpu.Lanes

set_option relaxedAutoImplicit false
set_option autoImplicit false

namespace CoralNpu.Isa32M3

open AsciiText TextRewrite

/-! ### The slot matcher -/

/-- The forms of `vsetvli`: with `rs1`, without, and without `rd` too. -/
inductive VsetvliForm where
  | xn | nz | zz
  deriving DecidableEq

namespace VsetvliForm

def opcode : VsetvliForm → OpcodeEnum
  | xn => .vsetvliXn
  | nz => .vsetvliNz
  | zz => .vsetvliZz

/-- The format has `zero` in these places. -/
def Matches : VsetvliForm → Text → Text → Prop
  | xn, _, _ => True
  | nz, _, rs1 => rs1 = "zero".toList
  | zz, rd, rs1 => rd = "zero".toList ∧ rs1 = "zero".toList

instance (form : VsetvliForm) (rd rs1 : Text) : Decidable (form.Matches rd rs1) :=
  match form with
  | xn => inferInstanceAs (Decidable True)
  | nz => inferInstanceAs (Decidable (_ = _))
  | zz => inferInstanceAs (Decidable (_ ∧ _))

/-- The word of a form. -/
def encoding (form : VsetvliForm) (address : BitVec 64) (rd rs1 imm : Text) :
    Except Text (BitVec 64) := do
  let rs1 ← getSrcOpEncoding address rs1 form.opcode .rs1
  let imm ← getSrcOpEncoding address imm form.opcode .zimm11
  let rd ← getDestOpEncoding rd form.opcode .rd
  return 0x7057 ||| rs1 ||| imm ||| rd

end VsetvliForm

/-- The word of a `vsetvli`: that of a form that matches and encodes. -/
def vsetvliWord (address : BitVec 64) (rd rs1 imm : Text) : Option (BitVec 64) :=
  [VsetvliForm.xn, .nz, .zz].findSome? fun form =>
    if form.Matches rd rs1 then (form.encoding address rd rs1 imm).toOption else none

/-- The word of a `vsetivli`, whose format has no `rd`. -/
def vsetivliWord (address : BitVec 64) (uimm imm : Text) : Option (BitVec 64) :=
  Except.toOption do
    let uimm ← getSrcOpEncoding address uimm .other .uimm5
    let imm ← getSrcOpEncoding address imm .other .zimm10
    let rd ← getDestOpEncoding [] .other .rd
    return 0xC0007057 ||| uimm ||| imm ||| rd

/-- **What the slot matcher does** with the formats of the instruction set: `vsetvli %rd, %rs1,
%zimm11`, also with `zero`, and `vsetivli %uimm5, %zimm10`.  No format of these instructions has
more operands. -/
structure VsetTemplates (matcher : SlotMatcher) : Prop where
  vsetvli : ∀ (address : BitVec 64) (rd rs1 imm : Text),
    IsOperand rd → IsOperand rs1 → IsOperand imm →
    (matcher address (joinCommas ["vsetvli ".toList ++ rd, ' ' :: rs1, ' ' :: imm])).toOption =
      (vsetvliWord address rd rs1 imm).map (·, 32)
  vsetivli : ∀ (address : BitVec 64) (uimm imm : Text), IsOperand uimm → IsOperand imm →
    (matcher address (joinCommas ["vsetivli ".toList ++ uimm, ' ' :: imm])).toOption =
      (vsetivliWord address uimm imm).map (·, 32)
  operands : ∀ (address : BitVec 64) (first : Text) (parts : List Text),
    startsWith "vset".toList first = true →
    3 ≤ parts.length → (∀ part ∈ first :: parts, ',' ∉ part) →
    (matcher address (joinCommas (first :: parts.map (' ' :: ·)))).toOption = none

namespace VsetFields

/-! ### Meaning -/

/-- The codes of the element widths and multipliers of the vector extension. -/
def sewCodes : List (Text × ℕ) :=
  [("8".toList, 0), ("16".toList, 1), ("32".toList, 2), ("64".toList, 3)]

def lmulCodes : List (Text × ℕ) :=
  [("1".toList, 0), ("2".toList, 1), ("4".toList, 2), ("8".toList, 3), ("f8".toList, 5),
    ("f4".toList, 6), ("f2".toList, 7)]

/-- The number that a text names: in hexadecimal behind `0x`, else in decimal. -/
def immediateOf (text : Text) : Option ℤ :=
  if hasHexPrefix text then (digitsValue 16 (text.drop 2)).map (↑) else simpleAtoi 64 text

/-- The field of a word. -/
def fieldOf (low width : ℕ) (word : BitVec 64) : ℕ :=
  ((BitLayout.field low width).extract word).toNat

/-- The word in these bytes, the least significant first. -/
def wordOfBytes (bytes : List (BitVec 8)) : BitVec 64 := Lanes.ofLanes 64 8 fun i => bytes.getD i 0

/-- An integer register with a number. -/
def NamesRegister (text : Text) (n : ℕ) : Prop :=
  ∃ value, (text, value) ∈ RegisterClass.integer.names ∧ value.toNat = n

/-- **The fields of the word are those that are named**, `rd` and `rs1` or the immediate, and the
parts of `vtype`. -/
structure Named (s : VsetFields) (word : BitVec 64) : Prop where
  rd : NamesRegister s.rd (fieldOf 7 5 word)
  second : if s.immediate then immediateOf s.second = some (fieldOf 15 5 word : ℤ)
    else NamesRegister s.second (fieldOf 15 5 word)
  sew : (s.sew, fieldOf 23 3 word) ∈ sewCodes
  lmul : (s.lmul, fieldOf 20 3 word) ∈ lmulCodes
  ta : fieldOf 26 1 word = s.ta.toNat
  ma : fieldOf 27 1 word = s.ma.toNat

/-- The values of the operands in front, if they are accepted: registers for one of the forms, or an
immediate, for which there is no `rd`. -/
def Operands (s : VsetFields) (rd second : BitVec 64) : Prop :=
  if s.immediate then rd = 0 ∧ parseReg s.second .uimm5 = .ok second
  else parseReg s.rd .none = .ok rd ∧ parseReg s.second .rs1 = .ok second ∧
    (second ≠ 0 ∨ s.second = "zero".toList ∧ (rd ≠ 0 ∨ s.rd = "zero".toList))

/-- **The assembler understands the text**: it is not rewritten, or its operands are not accepted,
or the element width and the multiplier exist, and the operands are the registers that they name;
the `rd` of an immediate form is zero, and the immediate has five bits. -/
def Faithful (s : VsetFields) : Prop :=
  s.Rewritten → (∃ rd second, s.Operands rd second) →
  (∃ n, (s.sew, n) ∈ sewCodes) ∧ (∃ n, (s.lmul, n) ∈ lmulCodes) ∧
    if s.immediate then NamesRegister s.rd 0 ∧ ∃ n : ℕ, n < 32 ∧ immediateOf s.second = some (n : ℤ)
    else (∃ n, NamesRegister s.rd n) ∧ ∃ n, NamesRegister s.second n

end VsetFields

/-- **A text of one of the two forms.** -/
structure VsetSource extends VsetFields where
  proper : toVsetFields.Proper
  /-- it has no label in front -/
  noLabel : rd.head? ≠ some ':'

namespace VsetFields

variable {s : VsetFields}

/-! ### The word -/

section Encode

variable {matcher : SlotMatcher} (addSymbol : Text → BitVec 64 → Except Text Unit)
    (address : BitVec 64)

/-- Optional arguments are those of other instructions. -/
theorem normalizeOptionalArguments_vset {text : Text} (h : startsWith "vset".toList text = true) :
    normalizeOptionalArguments text = text := by
  simp only [normalizeOptionalArguments, h, Bool.not_true, Bool.and_false, Bool.false_and,
    Bool.false_eq_true, if_false, ite_self]

/-- **The word is that of the text that is matched.** -/
theorem encodeWord_text (h : s.Proper) (hlabel : s.rd.head? ≠ some ':')
    (hstarts : startsWith "vset".toList (normalize s.text) = true) :
    (encodeWord matcher addSymbol address s.text).toOption =
      (matcher address (normalize s.text)).toOption := by
  rw [encodeWord, stripLabel_text h hlabel]
  cases hresult : matcher address (normalize s.text) with
  | ok result =>
      simp only [hresult]
      rfl
  | error message =>
      simp only [hresult, normalizeOptionalArguments_vset hstarts, ne_eq,
        not_true_eq_false, if_false]

/-- A text that is not rewritten is rejected. -/
theorem encodeWord_of_not_rewritten (hmatcher : VsetTemplates matcher) (h : s.Proper)
    (hlabel : s.rd.head? ≠ some ':') (hrewritten : ¬ s.aliased.Rewritten) :
    (encodeWord matcher addSymbol address s.text).toOption = none := by
  obtain ⟨first, parts, hnormal, hfirst, hlength, hcomma⟩ := normalize_of_not_rewritten h hrewritten
  have hstarts : startsWith "vset".toList (normalize s.text) = true := by
    obtain ⟨rest, rfl⟩ := List.isPrefixOf_iff_prefix.1 hfirst
    obtain ⟨part, rest', rfl⟩ := List.exists_cons_of_length_pos (show 0 < parts.length by omega)
    rw [hnormal, List.map_cons, joinCommas_cons_cons, List.append_assoc]
    rfl
  rw [encodeWord_text addSymbol address h hlabel hstarts, hnormal]
  exact hmatcher.operands address first parts hfirst hlength hcomma

/-- The word of a text that is rewritten. -/
def word (s : VsetFields) (address : BitVec 64) : Option (BitVec 64) :=
  if s.immediate then vsetivliWord address s.second (decimal s.captured.zimm)
  else vsetvliWord address s.rd s.second (decimal s.captured.zimm)

theorem encodeWord_of_rewritten (hmatcher : VsetTemplates matcher) (h : s.Proper)
    (hlabel : s.rd.head? ≠ some ':') (hrewritten : s.aliased.Rewritten) :
    (encodeWord matcher addSymbol address s.text).toOption =
      (s.aliased.word address).map (·, 32) := by
  have hnormal := normalize_of_rewritten h hrewritten
  have hstarts : startsWith "vset".toList (normalize s.text) = true := by
    rw [hnormal, rewritten, front]
    cases s.aliased.immediate <;> rfl
  rw [encodeWord_text addSymbol address h hlabel hstarts, hnormal, rewritten, front, word]
  have hproper := h.aliased
  generalize s.aliased = t at hproper
  cases t.immediate with
  | false => exact hmatcher.vsetvli address _ _ _ hproper.rd hproper.second (isOperand_decimal _)
  | true => exact hmatcher.vsetivli address _ _ hproper.second (isOperand_decimal _)

end Encode

/-! ### Numbers -/

/-- The characters of a number. -/
theorem characters_of_immediateOf {text : Text} {z : ℤ} (h : immediateOf text = some z) {c : Char}
    (hc : c ∈ text) : isSpace c = true ∨ c = '-' ∨ c = '+' ∨ c = 'x' ∨ c = 'X' ∨ IsDigit c := by
  rw [immediateOf] at h
  split at h
  next hleading =>
    obtain ⟨n, hn, -⟩ := Option.map_eq_some_iff.1 h
    have hdigits := (isDigit_of_digitsValue hn).2
    have hfront : ∃ x rest, text = '0' :: x :: rest ∧ (x = 'x' ∨ x = 'X') := by
      rw [hasHexPrefix, Bool.or_eq_true] at hleading
      rcases hleading with hx | hx
      · obtain ⟨rest, rfl⟩ := List.isPrefixOf_iff_prefix.1 hx
        exact ⟨'x', rest, rfl, .inl rfl⟩
      · obtain ⟨rest, rfl⟩ := List.isPrefixOf_iff_prefix.1 hx
        exact ⟨'X', rest, rfl, .inr rfl⟩
    obtain ⟨x, rest, rfl, hx⟩ := hfront
    have hzero : IsDigit '0' := rfl
    rw [List.mem_cons, List.mem_cons] at hc
    rcases hc with rfl | rfl | hrest
    · exact .inr (.inr (.inr (.inr (.inr hzero))))
    · exact .inr (.inr (.inr (hx.imp_right .inl)))
    · exact .inr (.inr (.inr (.inr (.inr (hdigits c hrest)))))
  next =>
    rcases characters_of_simpleAtoi h hc with hspace | hminus | hplus | hdigit
    · exact .inl hspace
    · exact .inr (.inl hminus)
    · exact .inr (.inr (.inl hplus))
    · exact .inr (.inr (.inr (.inr (.inr hdigit))))

theorem immediateOf_of_tables : ∀ e ∈ fenceSets ++ keywords ++ kRegs, immediateOf e.1 = none := by
  decide +kernel

/-- **Numbers are read**, for every operand. -/
theorem parseReg_of_immediateOf {text : Text} (h : IsOperand text) {z : ℤ}
    (hz : immediateOf text = some z) (hbound : z < 2 ^ 63) {srcOp : SourceOpEnum}
    (hhex : isHexOperand srcOp = false) : parseReg text srcOp = .ok (BitVec.ofInt 64 z) := by
  have hnot (c : Char) (hc : isSpace c = false ∧ c ≠ '-' ∧ c ≠ '+' ∧ c ≠ 'x' ∧ c ≠ 'X' ∧
      digitValue c.toLower = none) : c ∉ text := by
    obtain ⟨hspace, hminus, hplus, hx, hX, hdigit⟩ := hc
    intro hmem
    rcases characters_of_immediateOf hz hmem with hs | hs | hs | hs | hs | hs
    · exact absurd hs (by simp [hspace])
    · exact hminus hs
    · exact hplus hs
    · exact hx hs
    · exact hX hs
    · exact hs.ne hdigit rfl
  have hstrip : strip text = text := strip_of_isSpace_eq h.not_space
  have hoperand : operandText text = text := by
    rw [operandText, hstrip]
    split
    next => exact absurd (List.mem_cons_self ..) h.not_comma
    next => rfl
  have hparens : withoutParens srcOp text = text := by
    rw [withoutParens, List.idxOf?_eq_none_iff.2 (hnot '(' (by decide))]
  have hnumber : numberText text = text := by
    have hcomment : ∀ c ∈ text, decide (c ≠ '<') = true := by
      intro c hc
      exact decide_eq_true fun heq => hnot '<' (by decide) (heq ▸ hc)
    rw [numberText, List.takeWhile_eq_self_iff.2 hcomment, hstrip]
  have htable (table : NameTable) (hsub : ∀ e ∈ table, e ∈ fenceSets ++ keywords ++ kRegs) :
      table.lookup text = none := by
    cases hlookup : table.lookup text with
    | none => rfl
    | some n =>
        have hnone := immediateOf_of_tables _ (hsub _ (mem_of_lookup_eq_some hlookup))
        exact absurd (hz.symm.trans hnone) (by simp)
  have ht : endsWith ".t".toList text = false := by
    rw [endsWith, ← Bool.not_eq_true, List.isSuffixOf_iff_suffix]
    exact fun hsuffix => hnot 't' (by decide) (hsuffix.subset (by decide))
  have hcounter : dynamicCsr text = none := by
    have hm : ∀ family ∈ counterFamilies, 'm' ∈ family.1.toList := by decide
    refine Option.eq_none_iff_forall_ne_some.2 fun n hn => hnot 'm' (by decide) ?_
    cases dynamicCsr_eq_some_iff.1 hn with
    | low hfamily _ _ _ => exact List.mem_append_left _ (hm _ hfamily)
    | high hfamily _ _ _ => exact List.mem_append_left _ (hm _ hfamily)
  have hfence : fenceSets.lookup text = none := htable _ fun e he => by simp [he]
  have hkeyword : keywords.lookup text = none := htable _ fun e he => by simp [he]
  have hregister : kRegs.lookup text = none := htable _ fun e he => by simp [he]
  simp only [parseReg, hoperand, if_neg h.ne_nil, hfence, ht, hkeyword, hparens, hregister,
    hcounter, Option.or_none, Bool.false_eq_true, if_false, hnumber]
  rw [parseNumber]
  rw [immediateOf] at hz
  split at hz
  next hleading =>
    obtain ⟨n, hn, rfl⟩ := Option.map_eq_some_iff.1 hz
    have hlt : n < 2 ^ 64 := by omega
    rw [if_pos hleading, simpleHexAtoi_of_digits hn hlt, Option.getD_some, BitVec.ofInt_natCast]
  next hleading =>
    rw [if_neg hleading, hz, hhex]
    rfl

/-! ### The number of `vtype` -/

theorem sewBits_lt (sew : Text) : sewBits sew < 4 := by
  rw [sewBits]
  split_ifs <;> decide

theorem lmulBits_lt (m : Text) : lmulBits m < 8 := by
  rw [lmulBits]
  split_ifs <;> decide

/-- The codes that exist are computed. -/
theorem sewBits_eq {sew : Text} {n : ℕ} (h : (sew, n) ∈ sewCodes) : sewBits sew = n := by
  have hall : ∀ e ∈ sewCodes, sewBits e.1 = e.2 := by decide
  exact hall _ h

theorem lmulBits_eq {m : Text} {n : ℕ} (h : (m, n) ∈ lmulCodes) : lmulBits m = n := by
  have hall : ∀ e ∈ lmulCodes, lmulBits e.1 = e.2 := by decide
  exact hall _ h

/-- **The parts of the number.** -/
theorem zimm_parts (captured : VsetMatch) : captured.zimm < 256 ∧
    captured.zimm / 2 ^ 3 % 2 ^ 3 = sewBits captured.sew ∧
    captured.zimm % 2 ^ 3 = lmulBits captured.m ∧
    captured.zimm / 2 ^ 6 % 2 ^ 1 = captured.ta.toNat ∧ captured.zimm / 2 ^ 7 % 2 ^ 1 =
      captured.ma.toNat := by
  have hall : ∀ ma ta : Bool, ∀ sew < 4, ∀ lmul < 8,
      let n := ma.toNat <<< 7 ||| ta.toNat <<< 6 ||| sew <<< 3 ||| lmul
      n < 256 ∧ n / 2 ^ 3 % 2 ^ 3 = sew ∧ n % 2 ^ 3 = lmul ∧ n / 2 ^ 6 % 2 ^ 1 = ta.toNat ∧
        n / 2 ^ 7 % 2 ^ 1 = ma.toNat := by decide
  exact hall _ _ _ (sewBits_lt _) _ (lmulBits_lt _)

theorem parseReg_zimm (captured : VsetMatch) {srcOp : SourceOpEnum}
    (hhex : isHexOperand srcOp = false) :
    parseReg (decimal captured.zimm) srcOp = .ok (BitVec.ofNat 64 captured.zimm) := by
  have hnumber : ∀ n < 256, immediateOf (decimal n) = some (n : ℤ) := by decide +kernel
  have hlt := (zimm_parts captured).1
  have hparse := parseReg_of_immediateOf (isOperand_decimal _) (hnumber _ hlt) (by omega) hhex
  rwa [BitVec.ofInt_natCast] at hparse

/-! ### Fields -/

theorem fieldOf_or (low width : ℕ) (v w : BitVec 64) :
    fieldOf low width (v ||| w) = fieldOf low width v ||| fieldOf low width w := by
  rw [fieldOf, BitLayout.extract_or, BitVec.toNat_or, fieldOf, fieldOf]

/-- A field is given by its bits. -/
theorem fieldOf_congr {low width : ℕ} {v w : BitVec 64}
    (h : ∀ p, low ≤ p → p < low + width → v.getLsbD p = w.getLsbD p) :
    fieldOf low width v = fieldOf low width w := by
  rw [fieldOf, fieldOf]
  refine congrArg BitVec.toNat (BitVec.eq_of_getLsbD_eq fun i hi => ?_)
  have hwidth : i < width := by rwa [BitLayout.length_field] at hi
  rw [BitLayout.extract, BitLayout.extract, BitLayout.getLsbD_ofBits _ hi,
    BitLayout.getLsbD_ofBits _ hi, BitLayout.bit_field hwidth, Option.any_some, Option.any_some,
    h _ (by omega) (by omega)]

theorem fieldOf_zero (low width : ℕ) : fieldOf low width 0 = 0 := by
  have hzero : (BitLayout.field low width).extract (0 : BitVec 64) = 0 := by
    refine BitVec.eq_of_getLsbD_eq fun i hi => ?_
    rw [BitLayout.extract, BitLayout.getLsbD_ofBits _ hi]
    cases (BitLayout.field low width).bit i <;> simp
  rw [fieldOf, hzero]
  rfl

/-- A field of bits that are not set. -/
theorem fieldOf_eq_zero {low width : ℕ} {w : BitVec 64}
    (h : ∀ p, low ≤ p → p < low + width → w.getLsbD p = false) :
    fieldOf low width w = 0 :=
  (fieldOf_congr fun p hlow hp => (h p hlow hp).trans BitVec.getLsbD_zero.symm).trans
    (fieldOf_zero low width)

/-- The field of another value. -/
theorem fieldOf_insert_of_disjoint {low width : ℕ} (low' width' : ℕ)
    (h : low + width ≤ low' ∨ low' + width' ≤ low) (value : BitVec 64) :
    fieldOf low width ((BitLayout.field low' width').insert value 0) = 0 := by
  have hdisjoint : ∀ p, some p ∈ BitLayout.field low width →
      some p ∉ BitLayout.field low' width' := by
    intro p hp hp'
    rw [BitLayout.mem_field] at hp hp'
    omega
  rw [fieldOf, BitLayout.extract_insert_of_disjoint hdisjoint]
  exact fieldOf_zero low width

/-- A word with an `rd`, an `rs1` or an immediate, and the number of `vtype`. -/
def wordOf (immediate : Bool) (rd second zimm : BitVec 64) : BitVec 64 :=
  if immediate then
    0xC0007057 ||| (BitLayout.field 15 5).insert second 0 |||
      (BitLayout.field 20 10).insert zimm 0 |||
      (BitLayout.field 7 5).insert rd 0
  else
    0x7057 ||| (BitLayout.field 15 5).insert second 0 ||| (BitLayout.field 20 11).insert zimm 0 |||
      (BitLayout.field 7 5).insert rd 0

/-- **The fields of a word.** -/
theorem fieldOf_wordOf (immediate : Bool) (rd second zimm : BitVec 64) :
    fieldOf 7 5 (wordOf immediate rd second zimm) = rd.toNat % 2 ^ 5 ∧
    fieldOf 15 5 (wordOf immediate rd second zimm) = second.toNat % 2 ^ 5 ∧
    ∀ k width', k + width' ≤ 10 →
      fieldOf (20 + k) width' (wordOf immediate rd second zimm) =
        zimm.toNat / 2 ^ k % 2 ^ width' := by
  have hbase (base : BitVec 64) (hbits : ∀ p < 30, 15 ≤ p ∨ 7 ≤ p ∧ p < 12 → base.getLsbD p = false)
      (zimmWidth : ℕ) (hwidth : 10 ≤ zimmWidth) (word : BitVec 64) (hword : word = base |||
        (BitLayout.field 15 5).insert second 0 ||| (BitLayout.field 20 zimmWidth).insert zimm 0 |||
        (BitLayout.field 7 5).insert rd 0) (hfits : 20 + zimmWidth ≤ 64) :
      fieldOf 7 5 word = rd.toNat % 2 ^ 5 ∧ fieldOf 15 5 word = second.toNat % 2 ^ 5 ∧
      ∀ k width', k + width' ≤ 10 →
      fieldOf (20 + k) width' word = zimm.toNat / 2 ^ k % 2 ^ width' := by
    subst hword
    have hown (low width : ℕ) (hlow : low + width ≤ 64) (value : BitVec 64) :
        fieldOf low width ((BitLayout.field low width).insert value 0) =
          value.toNat % 2 ^ width := by
      have hfield :=
        BitLayout.toNat_extract_insert_field (k := 0) (n := 64) (Nat.zero_add width).le hlow value 0
      rwa [Nat.add_zero, Nat.pow_zero, Nat.div_one] at hfield
    refine ⟨?_, ?_, fun k width' hk => ?_⟩
    · rw [fieldOf_or, fieldOf_or, fieldOf_or,
        fieldOf_eq_zero fun p _ _ => hbits p (by omega) (by omega),
        fieldOf_insert_of_disjoint 15 _ (by omega), fieldOf_insert_of_disjoint 20 _ (by omega),
        hown 7 5 (by omega)]
      simp
    · rw [fieldOf_or, fieldOf_or, fieldOf_or,
        fieldOf_eq_zero fun p _ _ => hbits p (by omega) (by omega),
        fieldOf_insert_of_disjoint 20 _ (by omega), fieldOf_insert_of_disjoint 7 _ (by omega),
        hown 15 5 (by omega)]
      simp
    · have hinside : fieldOf (20 + k) width' ((BitLayout.field 20 zimmWidth).insert zimm 0) =
          zimm.toNat / 2 ^ k % 2 ^ width' :=
        BitLayout.toNat_extract_insert_field (by omega) hfits zimm 0
      rw [fieldOf_or, fieldOf_or, fieldOf_or,
        fieldOf_eq_zero fun p _ _ => hbits p (by omega) (by omega),
        fieldOf_insert_of_disjoint 15 _ (by omega),
        fieldOf_insert_of_disjoint 7 _ (by omega), hinside]
      simp
  rw [wordOf]
  cases immediate with
  | false => exact hbase 0x7057 (by decide) 11 (by decide) _ rfl (by decide)
  | true => exact hbase 0xC0007057 (by decide) 10 (by decide) _ rfl (by decide)

/-! ### Operands -/

section Operands

variable {address : BitVec 64} {rd rs1 imm : Text} {a b v : BitVec 64}

/-- The encoding of an immediate. -/
theorem getSrcOpEncoding_of_immediate {srcOp : SourceOpEnum}
    (hop : srcOp ∈ [SourceOpEnum.uimm5, .zimm11, .zimm10]) {opcode : OpcodeEnum}
    (hv : parseReg imm srcOp = .ok v) :
    getSrcOpEncoding address imm opcode srcOp = .ok (srcOp.layout.insert v 0) := by
  simp only [List.mem_cons, List.not_mem_nil, or_false] at hop
  rcases hop with rfl | rfl | rfl <;> simp only [getSrcOpEncoding, hv]

/-- The word of a form, whose conditions are those of its operands. -/
theorem toOption_encoding (form : VsetvliForm) (ha : parseReg rd .none = .ok a)
    (hb : parseReg rs1 .rs1 = .ok b) (hv : parseReg imm .zimm11 = .ok v) :
    (form.encoding address rd rs1 imm).toOption =
      if RegisterOperand.rs1.Allows form.opcode b ∧ RegisterOperand.rd.Allows form.opcode a then
        some (wordOf false a b v) else none := by
  have himm : getSrcOpEncoding address imm form.opcode .zimm11 =
      .ok (SourceOpEnum.zimm11.layout.insert v 0) :=
    getSrcOpEncoding_of_immediate (by decide) hv
  obtain ⟨hrs1, hrs1'⟩ := @RegisterOperand.encoding_of_parseReg .rs1 _ _ hb address form.opcode
  obtain ⟨hrd, hrd'⟩ := @RegisterOperand.encoding_of_parseReg .rd _ _ ha address form.opcode
  change _ → getSrcOpEncoding address rs1 form.opcode .rs1 = _ at hrs1
  change _ → ∃ message, getSrcOpEncoding address rs1 form.opcode .rs1 = _ at hrs1'
  change _ → getDestOpEncoding rd form.opcode .rd = _ at hrd
  change _ → ∃ message, getDestOpEncoding rd form.opcode .rd = _ at hrd'
  rw [VsetvliForm.encoding]
  by_cases hallows : RegisterOperand.rs1.Allows form.opcode b
  · rw [hrs1 hallows, himm]
    by_cases hallows' : RegisterOperand.rd.Allows form.opcode a
    · rw [hrd hallows', if_pos ⟨hallows, hallows'⟩]
      rfl
    · obtain ⟨message, hmessage⟩ := hrd' hallows'
      rw [hmessage, if_neg fun h => hallows' h.2]
      rfl
  · obtain ⟨message, hmessage⟩ := hrs1' hallows
    rw [hmessage, if_neg fun h => hallows h.1]
    rfl

/-- An operand that is not accepted. -/
theorem toOption_encoding_of_error (form : VsetvliForm) (hv : parseReg imm .zimm11 = .ok v)
    (h : (∃ message, parseReg rd .none = .error message) ∨
      ∃ message, parseReg rs1 .rs1 = .error message) :
    (form.encoding address rd rs1 imm).toOption = none := by
  have himm : getSrcOpEncoding address imm form.opcode .zimm11 =
      .ok (SourceOpEnum.zimm11.layout.insert v 0) :=
    getSrcOpEncoding_of_immediate (by decide) hv
  rw [VsetvliForm.encoding]
  rcases h with ⟨message, hmessage⟩ | ⟨message, hmessage⟩
  · have hrd : getDestOpEncoding rd form.opcode .rd = .error message :=
      @RegisterOperand.encoding_of_error .rd _ _ hmessage address form.opcode
    rw [hrd, himm]
    cases getSrcOpEncoding address rs1 form.opcode .rs1 <;> rfl
  · have hrs1 : getSrcOpEncoding address rs1 form.opcode .rs1 = .error message :=
      @RegisterOperand.encoding_of_error .rs1 _ _ hmessage address form.opcode
    rw [hrs1]
    rfl

/-- **The word of a `vsetvli`.** -/
theorem vsetvliWord_eq_some_iff (hv : parseReg imm .zimm11 = .ok v) {w : BitVec 64} :
    vsetvliWord address rd rs1 imm = some w ↔
    ∃ a b, parseReg rd .none = .ok a ∧ parseReg rs1 .rs1 = .ok b ∧
      (b ≠ 0 ∨ rs1 = "zero".toList ∧ (a ≠ 0 ∨ rd = "zero".toList)) ∧ w = wordOf false a b v := by
  have hzero : parseReg "zero".toList .none = .ok 0 ∧ parseReg "zero".toList .rs1 = .ok 0 := by
    decide
  have hrejected (h : (∃ message, parseReg rd .none = .error message) ∨
    ∃ message, parseReg rs1 .rs1 = .error message) :
      vsetvliWord address rd rs1 imm = none := by
    simp only [vsetvliWord, List.findSome?_cons, List.findSome?_nil,
      toOption_encoding_of_error _ hv h, ite_self]
  cases hrd : parseReg rd .none with
  | error message => simp [hrejected (.inl ⟨message, hrd⟩)]
  | ok a =>
  cases hrs1 : parseReg rs1 .rs1 with
  | error message => simp [hrejected (.inr ⟨message, hrs1⟩)]
  | ok b =>
      have hrd0 : rd = "zero".toList → a = 0 := by
        rintro rfl
        exact Except.ok.inj (hrd.symm.trans hzero.1)
      have hrs0 : rs1 = "zero".toList → b = 0 := by
        rintro rfl
        exact Except.ok.inj (hrs1.symm.trans hzero.2)
      -- the forms exclude each other
      have hforms : vsetvliWord address rd rs1 imm =
          if b ≠ 0 ∨ rs1 = "zero".toList ∧ (a ≠ 0 ∨ rd = "zero".toList) then
            some (wordOf false a b v) else none := by
        simp only [vsetvliWord, List.findSome?_cons, List.findSome?_nil,
          toOption_encoding _ hrd hrs1 hv, VsetvliForm.Matches, VsetvliForm.opcode,
          RegisterOperand.Allows]
        generalize "zero".toList = zero at hrd0 hrs0 ⊢
        by_cases hb : b = 0 <;> by_cases ha : a = 0 <;> by_cases hz : rs1 = zero <;>
          by_cases hz' : rd = zero <;>
          simp_all
      rw [hforms]
      constructor
      · intro h
        obtain ⟨hcond, hw⟩ := Option.ite_none_right_eq_some.1 h
        exact ⟨a, b, rfl, rfl, hcond, (Option.some.inj hw).symm⟩
      · rintro ⟨a', b', ha, hb, hcond, rfl⟩
        cases ha
        cases hb
        exact if_pos hcond

/-- **The word of a `vsetivli`.** -/
theorem vsetivliWord_eq_some_iff (hv : parseReg imm .zimm10 = .ok v) {uimm : Text} {w : BitVec 64} :
    vsetivliWord address uimm imm = some w ↔
    ∃ b, parseReg uimm .uimm5 = .ok b ∧ w = wordOf true 0 b v := by
  have himm : getSrcOpEncoding address imm .other .zimm10 =
      .ok (SourceOpEnum.zimm10.layout.insert v 0) :=
    getSrcOpEncoding_of_immediate (by decide) hv
  have hrd : getDestOpEncoding [] .other .rd = .ok (DestOpEnum.rd.layout.insert 0 0) := rfl
  rw [vsetivliWord, himm, hrd]
  cases huimm : parseReg uimm .uimm5 with
  | error message =>
      have hencoding : getSrcOpEncoding address uimm .other .uimm5 = .error message := by
        simp only [getSrcOpEncoding, huimm]
      rw [hencoding]
      simp [Except.toOption, bind, Except.bind]
  | ok b =>
      rw [getSrcOpEncoding_of_immediate (by decide) huimm]
      constructor
      · intro h
        exact ⟨b, rfl, (Option.some.inj h).symm⟩
      · rintro ⟨b', hb, rfl⟩
        cases hb
        rfl

end Operands

/-- **The word of a text that is rewritten.** -/
theorem word_eq_some_iff (s : VsetFields) (address : BitVec 64) {w : BitVec 64} :
    s.word address = some w ↔
    ∃ rd second, s.Operands rd second ∧
    w = wordOf s.immediate rd second (BitVec.ofNat 64 s.captured.zimm) := by
  cases himmediate : s.immediate with
  | false =>
      simp only [word, Operands, himmediate, Bool.false_eq_true, if_false]
      rw [vsetvliWord_eq_some_iff (parseReg_zimm s.captured rfl)]
      simp only [and_assoc]
  | true =>
      simp only [word, Operands, himmediate, if_true]
      rw [vsetivliWord_eq_some_iff (parseReg_zimm s.captured rfl)]
      constructor
      · rintro ⟨b, hb, rfl⟩
        exact ⟨0, b, ⟨rfl, hb⟩, rfl⟩
      · rintro ⟨_, b, ⟨rfl, hb⟩, rfl⟩
        exact ⟨b, hb, rfl⟩

/-- **The fields of that word.** -/
theorem fieldOf_word {s : VsetFields} {rd second w : BitVec 64}
    (hw : w = wordOf s.immediate rd second (BitVec.ofNat 64 s.captured.zimm)) :
    fieldOf 7 5 w = rd.toNat % 2 ^ 5 ∧ fieldOf 15 5 w = second.toNat % 2 ^ 5 ∧
    fieldOf 23 3 w = sewBits s.sew ∧
      fieldOf 20 3 w = lmulBits s.lmul ∧ fieldOf 26 1 w = s.ta.toNat ∧
      fieldOf 27 1 w = s.ma.toNat := by
  subst hw
  obtain ⟨hrd, hsecond, hzimm⟩ :=
    fieldOf_wordOf s.immediate rd second (BitVec.ofNat 64 s.captured.zimm)
  obtain ⟨hlt, hsew, hlmul, hta, hma⟩ := zimm_parts s.captured
  have htoNat : (BitVec.ofNat 64 s.captured.zimm).toNat = s.captured.zimm := by
    rw [BitVec.toNat_ofNat, Nat.mod_eq_of_lt (by omega)]
  rw [htoNat] at hzimm
  refine ⟨hrd, hsecond, (hzimm 3 3 (by decide)).trans hsew, (hzimm 0 3 (by decide)).trans ?_,
    (hzimm 6 1 (by decide)).trans hta, (hzimm 7 1 (by decide)).trans hma⟩
  rw [Nat.pow_zero, Nat.div_one]
  exact hlmul

/-! ### The fields that are named -/

/-- A register that is named is read, and its number fits the field. -/
theorem mod_of_namesRegister {text : Text} {n : ℕ} (hnames : NamesRegister text n)
    {srcOp : SourceOpEnum} (hop : srcOp ∈ [SourceOpEnum.none, .rs1]) {value : BitVec 64}
    (hparse : parseReg text srcOp = .ok value) :
    value.toNat % 2 ^ 5 = n := by
  have htable : ∀ e ∈ RegisterClass.integer.names,
      e.2.toNat < 2 ^ 5 ∧ ∀ srcOp ∈ [SourceOpEnum.none, .rs1],
      (parseReg e.1 srcOp).toOption = none ∨ parseReg e.1 srcOp = .ok e.2 := by decide +kernel
  obtain ⟨number, hmem, rfl⟩ := hnames
  obtain ⟨hlt, hread⟩ := htable _ hmem
  rcases hread srcOp hop with hnone | hok
  · rw [hparse] at hnone
    cases hnone
  · cases hparse.symm.trans hok
    exact Nat.mod_eq_of_lt hlt

/-- **The fields are those that are named**, for the word of some operands. -/
theorem named_iff {s : VsetFields} (h : s.Proper) {rd second w : BitVec 64}
    (hoperands : s.Operands rd second)
    (hw : w = wordOf s.immediate rd second (BitVec.ofNat 64 s.captured.zimm)) :
    s.Named w ↔ (∃ n, (s.sew, n) ∈ sewCodes) ∧ (∃ n, (s.lmul, n) ∈ lmulCodes) ∧
      if s.immediate then NamesRegister s.rd 0 ∧
        ∃ n : ℕ, n < 32 ∧ immediateOf s.second = some (n : ℤ)
      else (∃ n, NamesRegister s.rd n) ∧ ∃ n, NamesRegister s.second n := by
  obtain ⟨hrd, hsecond, hsew, hlmul, hta, hma⟩ := fieldOf_word hw
  rw [Operands] at hoperands
  constructor
  · intro hnamed
    refine ⟨⟨_, hnamed.sew⟩, ⟨_, hnamed.lmul⟩, ?_⟩
    have hnamedRd := hnamed.rd
    have hnamedSecond := hnamed.second
    split
    next himmediate =>
      rw [if_pos himmediate] at hoperands hnamedSecond
      rw [hrd, hoperands.1] at hnamedRd
      have hlt : fieldOf 15 5 w < 32 := by omega
      exact ⟨hnamedRd, _, hlt, hnamedSecond⟩
    next himmediate =>
      rw [if_neg himmediate] at hnamedSecond
      exact ⟨⟨_, hnamedRd⟩, _, hnamedSecond⟩
  · rintro ⟨⟨sew, hsewCode⟩, ⟨lmul, hlmulCode⟩, hoperandsNamed⟩
    have hnamed : NamesRegister s.rd (fieldOf 7 5 w) ∧ if s.immediate then
        immediateOf s.second = some (fieldOf 15 5 w : ℤ)
          else NamesRegister s.second (fieldOf 15 5 w) := by
      rw [hrd, hsecond]
      split at hoperands
      next himmediate =>
        rw [if_pos himmediate] at hoperandsNamed ⊢
        obtain ⟨hzero, n, hn, hnumber⟩ := hoperandsNamed
        obtain ⟨rfl, hparse⟩ := hoperands
        have hread :=
          parseReg_of_immediateOf h.second hnumber (by omega) (rfl : isHexOperand .uimm5 = false)
        rw [BitVec.ofInt_natCast] at hread
        cases hparse.symm.trans hread
        rw [BitVec.toNat_ofNat, Nat.mod_eq_of_lt (show n < 2 ^ 64 by omega),
          Nat.mod_eq_of_lt (show n < 2 ^ 5 from hn)]
        exact ⟨hzero, hnumber⟩
      next himmediate =>
        rw [if_neg himmediate] at hoperandsNamed ⊢
        obtain ⟨⟨n, hn⟩, k, hk⟩ := hoperandsNamed
        obtain ⟨hparse, hparse', -⟩ := hoperands
        rw [mod_of_namesRegister hn (by decide) hparse, mod_of_namesRegister hk (by decide) hparse']
        exact ⟨hn, hk⟩
    refine ⟨hnamed.1, hnamed.2, ?_, ?_, hta, hma⟩
    · rwa [hsew, sewBits_eq hsewCode]
    · rwa [hlmul, lmulBits_eq hlmulCode]

end VsetFields

/-- **The fields of the word in the bytes are those that are named**, if the text is not
rejected. -/
def VsetSource.Exact (source : VsetSource) (matcher : SlotMatcher)
    (addSymbol : Text → BitVec 64 → Except Text Unit) (address : BitVec 64) : Prop :=
  ∀ bytes, encode matcher addSymbol address source.text = .ok bytes →
    source.aliased.Named (VsetFields.wordOfBytes bytes)

namespace VsetFields

/-- The bytes of an instruction with 32 bits. -/
def bytesOf (w : BitVec 64) : List (BitVec 8) := (List.range 4).map fun i => w.extractLsb' (8 * i) 8

theorem getLsbD_wordOfBytes (w : BitVec 64) {p : ℕ} (hp : p < 32) :
    (wordOfBytes (bytesOf w)).getLsbD p = w.getLsbD p := by
  have hbyte : (bytesOf w).getD (p / 8) 0 = w.extractLsb' (8 * (p / 8)) 8 := by
    rw [bytesOf, List.getD_eq_getElem?_getD, List.getElem?_map, List.getElem?_range (by omega)]
    rfl
  have hmod : p % 8 < 8 := Nat.mod_lt _ (by decide)
  rw [wordOfBytes, Lanes.getLsbD_ofLanes _ (by omega), hbyte, BitVec.getLsbD_extractLsb',
    Nat.div_add_mod]
  simp [hmod]

/-- The fields are in the bytes. -/
theorem named_wordOfBytes (s : VsetFields) (w : BitVec 64) :
    s.Named (wordOfBytes (bytesOf w)) ↔ s.Named w := by
  have hfield (low width : ℕ) (h : low + width ≤ 32) :
      fieldOf low width (wordOfBytes (bytesOf w)) = fieldOf low width w :=
    fieldOf_congr fun p _ hp => getLsbD_wordOfBytes w (by omega)
  constructor
  · rintro ⟨hrd, hsecond, hsew, hlmul, hta, hma⟩
    rw [hfield _ _ (by decide)] at hrd hsew hlmul hta hma
    rw [hfield _ _ (by decide)] at hsecond
    exact ⟨hrd, hsecond, hsew, hlmul, hta, hma⟩
  · rintro ⟨hrd, hsecond, hsew, hlmul, hta, hma⟩
    rw [← hfield _ _ (by decide)] at hrd hsew hlmul hta hma
    rw [← hfield _ _ (by decide)] at hsecond
    exact ⟨hrd, hsecond, hsew, hlmul, hta, hma⟩

/-- The bytes are those of the word. -/
theorem encode_eq_ok_iff {matcher : SlotMatcher} {addSymbol : Text → BitVec 64 → Except Text Unit}
    {address : BitVec 64} {text : Text} {word : Option (BitVec 64)}
    (h : (encodeWord matcher addSymbol address text).toOption = word.map (·, 32))
    {bytes : List (BitVec 8)} :
    encode matcher addSymbol address text = .ok bytes ↔ ∃ w, word = some w ∧ bytes = bytesOf w := by
  rw [encode]
  cases hencode : encodeWord matcher addSymbol address text with
  | error message =>
      rw [hencode] at h
      cases word with
      | none => simp [bind, Except.bind]
      | some w => cases h
  | ok result =>
      rw [hencode] at h
      obtain ⟨w, rfl, rfl⟩ := Option.map_eq_some_iff.1 h.symm
      constructor
      · intro hbytes
        exact ⟨w, rfl, (Except.ok.inj hbytes).symm⟩
      · rintro ⟨w', hw, rfl⟩
        cases hw
        rfl

end VsetFields

/-- **The fields are those that are named, exactly when** the assembler understands the text. -/
theorem vset_named_iff {matcher : SlotMatcher} (hmatcher : VsetTemplates matcher)
    (addSymbol : Text → BitVec 64 → Except Text Unit) (address : BitVec 64) (source : VsetSource) :
    source.Exact matcher addSymbol address ↔ source.aliased.Faithful := by
  have hproper := source.proper.aliased
  by_cases hrewritten : source.aliased.Rewritten
  · have hword :=
      VsetFields.encodeWord_of_rewritten addSymbol address hmatcher source.proper
        source.noLabel hrewritten
    constructor
    · rintro hexact - ⟨rd, second, hoperands⟩
      have hsome := (source.aliased.word_eq_some_iff address).2 ⟨rd, second, hoperands, rfl⟩
      have hnamed := hexact _ ((VsetFields.encode_eq_ok_iff hword).2 ⟨_, hsome, rfl⟩)
      exact (VsetFields.named_iff hproper hoperands rfl).1
        ((VsetFields.named_wordOfBytes _ _).1 hnamed)
    · intro hfaithful bytes hencode
      obtain ⟨w, hw, rfl⟩ := (VsetFields.encode_eq_ok_iff hword).1 hencode
      obtain ⟨rd, second, hoperands, hwordOf⟩ := (source.aliased.word_eq_some_iff address).1 hw
      exact (VsetFields.named_wordOfBytes _ _).2
        ((VsetFields.named_iff hproper hoperands hwordOf).2
          (hfaithful hrewritten ⟨rd, second, hoperands⟩))
  · have hnone :=
      VsetFields.encodeWord_of_not_rewritten addSymbol address hmatcher source.proper source.noLabel
      hrewritten
    refine ⟨fun _ h => absurd h hrewritten, fun _ bytes hbytes => ?_⟩
    obtain ⟨w, hw, -⟩ :=
      (VsetFields.encode_eq_ok_iff (hnone.trans (Option.map_none ..).symm)).1 hbytes
    cases hw

/-! ### A matcher for the formats -/

/-- The word of a text, by its parts, for these formats only. -/
def templateWord (address : BitVec 64) : List Text → Option (BitVec 64)
  | [first, rs1, imm] =>
    if startsWith "vsetvli ".toList first then
      vsetvliWord address (first.drop 8) (rs1.drop 1) (imm.drop 1) else none
  | [first, imm] =>
    if startsWith "vsetivli ".toList first then vsetivliWord address (first.drop 9) (imm.drop 1)
      else none
  | _ => none

/-- A matcher that knows these formats only. -/
def templateMatcher : SlotMatcher := fun address text =>
  match templateWord address (text.splitOn ',') with
  | some word => .ok (word, 32)
  | none => .error "No match".toList

theorem toOption_templateMatcher {address : BitVec 64} {parts : List Text}
    (hcomma : ∀ part ∈ parts, ',' ∉ part) (hne : parts ≠ []) :
    (templateMatcher address (joinCommas parts)).toOption = (templateWord address parts).map
      (·, 32) := by
  rw [templateMatcher, splitOn_joinCommas hcomma hne]
  cases templateWord address parts <;> rfl

theorem vsetTemplates_templateMatcher : VsetTemplates templateMatcher where
  vsetvli address rd rs1 imm hrd hrs1 himm := by
    refine toOption_templateMatcher ?_ (List.cons_ne_nil _ _)
    simp [hrd.not_comma, hrs1.not_comma, himm.not_comma]
  vsetivli address uimm imm huimm himm := by
    refine toOption_templateMatcher ?_ (List.cons_ne_nil _ _)
    simp [huimm.not_comma, himm.not_comma]
  operands address first parts _ hlength hcomma := by
    obtain ⟨a, b, c, rest, rfl⟩ : ∃ a b c rest, parts = a :: b :: c :: rest := by
      match parts, hlength with
      | a :: b :: c :: rest, _ => exact ⟨a, b, c, rest, rfl⟩
    have hspaces : ∀ part ∈ first :: (a :: b :: c :: rest).map (' ' :: ·), ',' ∉ part := by
      rw [List.forall_mem_cons] at hcomma ⊢
      refine ⟨hcomma.1, fun part hpart => ?_⟩
      obtain ⟨q, hq, rfl⟩ := List.mem_map.1 hpart
      simpa using hcomma.2 q hq
    exact toOption_templateMatcher hspaces (List.cons_ne_nil _ _)

/-- Fields with single spaces. -/
def plainFields (immediate : Bool) (rd second sew lmul : String) : VsetFields :=
  ⟨immediate, rd.toList, second.toList, sew.toList, lmul.toList, true, true, fun _ => [' ']⟩

/-- `vsetvli a0, t1, e32, mf2, ta, ma`. -/
def sampleSource : VsetSource where
  toVsetFields := plainFields false "a0" "t1" "32" "f2"
  proper := ⟨by decide, by decide, by decide, by decide, by decide, by decide⟩
  noLabel := by decide

theorem vset_named_iff_sample : sampleSource.Exact templateMatcher (fun _ _ => .ok ()) 0 ↔
    sampleSource.aliased.Faithful :=
  vset_named_iff vsetTemplates_templateMatcher (fun _ _ => .ok ()) 0 sampleSource

/-- `vsetivli t0, 4, e32, m1, ta, ma`. -/
def immediateSource : VsetSource where
  toVsetFields := plainFields true "t0" "4" "32" "1"
  proper := ⟨by decide, by decide, by decide, by decide, by decide, by decide⟩
  noLabel := by decide

/-- The word of this one has no `rd`. -/
theorem not_exact_immediateSource :
    ¬ immediateSource.Exact templateMatcher (fun _ _ => .ok ()) 0 := by
  have hencode : encode templateMatcher (fun _ _ => .ok ()) 0 immediateSource.text =
      .ok [0x57, 0x70, 0x02, 0xCD] := by
    decide +kernel
  have hnames : ∀ e ∈ RegisterClass.integer.names, e.1 = immediateSource.aliased.rd →
      e.2.toNat ≠ VsetFields.fieldOf 7 5 (VsetFields.wordOfBytes [0x57, 0x70, 0x02, 0xCD]) := by
    decide +kernel
  intro hexact
  obtain ⟨value, hmem, hvalue⟩ := (hexact _ hencode).rd
  exact hnames _ hmem rfl hvalue

end CoralNpu.Isa32M3
