/-
**The texts of the `vset` instructions in the assembler.**

A text `vsetvli rd, rs1, eSEW, mLMUL, ta, ma` or `vsetivli rd, uimm, eSEW, mLMUL, ta, ma` goes
through the steps of the assembler.  When the parts of `vtype` are spelled right, their number takes
their place; otherwise all the operands are still there when the text is matched.

Main definitions:

* `CoralNpu.Isa32M3.VsetFields` — the fields of a text, and the spaces in between;
* `CoralNpu.Isa32M3.VsetFields.Rewritten` — the texts that are rewritten.

Main results:

* `CoralNpu.Isa32M3.VsetFields.normalize_of_rewritten` — **the text that is matched**;
* `CoralNpu.Isa32M3.VsetFields.normalize_of_not_rewritten` — a text that is not rewritten keeps all
  its parts.
-/

import CoralNpu.CoralNpuM3Assembler
import CoralNpu.Rv32Text

set_option relaxedAutoImplicit false
set_option autoImplicit false

namespace CoralNpu.Isa32M3

open AsciiText TextRewrite

/-! ### Texts -/

/-- A text without spaces and commas. -/
structure IsPlain (text : Text) : Prop where
  not_comma : ',' ∉ text
  not_space : ∀ c ∈ text, isSpace c = false

/-- A text for an operand. -/
structure IsOperand (text : Text) : Prop extends IsPlain text where
  ne_nil : text ≠ []

theorem isPlain_iff {text : Text} : IsPlain text ↔ ',' ∉ text ∧ ∀ c ∈ text, isSpace c = false :=
  ⟨fun h => ⟨h.not_comma, h.not_space⟩, fun h => ⟨h.1, h.2⟩⟩

theorem isOperand_iff {text : Text} : IsOperand text ↔ IsPlain text ∧ text ≠ [] :=
  ⟨fun h => ⟨h.toIsPlain, h.ne_nil⟩, fun h => ⟨h.1, h.2⟩⟩

instance (text : Text) : Decidable (IsPlain text) := decidable_of_iff' _ isPlain_iff

instance (text : Text) : Decidable (IsOperand text) := decidable_of_iff' _ isOperand_iff

/-- The fields of a text, with the spaces in between. -/
structure VsetFields where
  immediate : Bool
  rd : Text
  second : Text
  sew : Text
  lmul : Text
  ta : Bool
  ma : Bool
  gap : Fin 6 → Text

namespace VsetFields

/-- `vsetvli` or `vsetivli`. -/
def mnemonic (s : VsetFields) : Text := if s.immediate then "vsetivli".toList else "vsetvli".toList

/-- Agnostic or undisturbed. -/
def policy (agnostic : Bool) : Char := if agnostic then 'a' else 'u'

/-- The parts between the commas. -/
def parts (s : VsetFields) : List Text :=
  [s.mnemonic ++ (s.gap 0 ++ s.rd), s.gap 1 ++ s.second, s.gap 2 ++ 'e' :: s.sew,
    s.gap 3 ++ 'm' :: s.lmul, s.gap 4 ++ ['t', policy s.ta], s.gap 5 ++ ['m', policy s.ma]]

/-- The text. -/
def text (s : VsetFields) : Text := joinCommas s.parts

/-- The fields are operands, and there are spaces in between. -/
structure Proper (s : VsetFields) : Prop where
  rd : IsOperand s.rd
  second : IsOperand s.second
  sew : IsPlain s.sew
  lmul : IsPlain s.lmul
  gap : ∀ i, ∀ c ∈ s.gap i, isReSpace c = true
  gap_zero : s.gap 0 ≠ []

/-- The fields with `zero` for its alias. -/
def aliased (s : VsetFields) : VsetFields :=
  { s with
    rd := replaceAlias s.rd
    second := replaceAlias s.second
    sew := replaceAlias s.sew
    lmul := replaceAlias s.lmul }

/-- The characters of the element width and the multiplier are those of numbers, with `f` for a
fraction. -/
structure Spelled (s : VsetFields) : Prop where
  sew : s.sew ≠ [] ∧ s.sew.all Char.isDigit = true
  lmul : s.lmul ≠ [] ∧ s.lmul.all (fun c => c.isDigit || c == 'f') = true

/-- The text is rewritten: `, e` is in it, and it is spelled right. -/
structure Rewritten (s : VsetFields) : Prop extends Spelled s where
  comma : contains ", e".toList s.text = true

end VsetFields

/-! ### Spaces -/

theorem isSpace_of_isReSpace {c : Char} (h : isReSpace c = true) : isSpace c = true := by
  simp only [isReSpace, isSpace, Bool.or_eq_true] at h ⊢
  rcases h with (((h | h) | h) | h) | h <;> simp [h]

theorem IsPlain.isReSpace_eq {text : Text} (h : IsPlain text) {c : Char} (hc : c ∈ text) :
    isReSpace c = false := by
  cases hspace : isReSpace c with
  | false => rfl
  | true => exact absurd (isSpace_of_isReSpace hspace) (by simp [h.not_space c hc])

/-- Spaces in front are skipped, up to a character that is none. -/
theorem skipSpaces_append {gap : Text} (hgap : ∀ c ∈ gap, isReSpace c = true) {c : Char}
    (hc : isReSpace c = false) (rest : Text) : skipSpaces (gap ++ c :: rest) = c :: rest := by
  rw [skipSpaces, List.dropWhile_append_of_pos hgap, List.dropWhile_cons_of_neg (by simp [hc])]

theorem takeWhile_append {gap : Text} (hgap : ∀ c ∈ gap, isReSpace c = true) {c : Char}
    (hc : isReSpace c = false) (rest : Text) : (gap ++ c :: rest).takeWhile isReSpace = gap := by
  rw [List.takeWhile_append_of_pos hgap, List.takeWhile_cons_of_neg (by simp [hc]), List.append_nil]

/-- An operand has a first character. -/
theorem IsOperand.exists_cons {text : Text} (h : IsOperand text) :
    ∃ c rest, text = c :: rest ∧ isReSpace c = false := by
  cases text with
  | nil => exact absurd rfl h.ne_nil
  | cons c rest => exact ⟨c, rest, rfl, h.isReSpace_eq (List.mem_cons_self ..)⟩

namespace VsetFields

variable {s : VsetFields}

/-- The text in front of the first comma. -/
theorem text_eq (s : VsetFields) :
    s.text = s.mnemonic ++ (s.gap 0 ++ (s.rd ++ ',' :: joinCommas s.parts.tail)) := by
  rw [text, parts, joinCommas_cons_cons, List.append_assoc, List.append_assoc]
  rfl

/-- The first character. -/
theorem text_cons (s : VsetFields) : ∃ rest, s.text = "vset".toList ++ rest := by
  rw [text_eq, mnemonic]
  cases s.immediate with
  | false => exact ⟨_, rfl⟩
  | true => exact ⟨_, rfl⟩

/-- The last character. -/
theorem text_concat (s : VsetFields) : ∃ front, s.text = front ++ [policy s.ma] := by
  have hlast : s.text.getLast? = some (policy s.ma) := by
    simp [text, parts, joinCommas_cons_cons, List.getLast?_append, List.getLast?_cons]
  exact List.getLast?_eq_some_iff.1 hlast

theorem not_mem_gap (h : s.Proper) (i : Fin 6) {c : Char} (hc : isReSpace c = false) :
    c ∉ s.gap i := fun hmem =>
  absurd (h.gap i c hmem) (by simp [hc])

theorem not_mem_mnemonic (s : VsetFields) {c : Char} (hc : c ∉ "vsetvliivli".toList) :
    c ∉ s.mnemonic := by
  rw [mnemonic]
  cases s.immediate <;> simp_all

theorem policy_ne (agnostic : Bool) {c : Char} (hc : c ∉ ['a', 'u']) : policy agnostic ≠ c := by
  rintro rfl
  cases agnostic <;> exact hc (by decide)

/-- There are no commas in the parts. -/
theorem not_comma (h : s.Proper) : ∀ part ∈ s.parts, ',' ∉ part := by
  have hgap (i : Fin 6) : ',' ∉ s.gap i := not_mem_gap h i (by decide)
  have hpolicy (agnostic : Bool) : ',' ≠ policy agnostic := (policy_ne agnostic (by decide)).symm
  have hmnemonic : ',' ∉ s.mnemonic := s.not_mem_mnemonic (by decide)
  simp [parts, hgap, hpolicy, hmnemonic, h.rd.not_comma, h.second.not_comma, h.sew.not_comma,
    h.lmul.not_comma]

/-- There is no label. -/
theorem stripLabel_text (h : s.Proper) (hlabel : s.rd.head? ≠ some ':') :
    stripLabel s.text = (none, s.text) := by
  obtain ⟨c, rd, hrd, hc⟩ := h.rd.exists_cons
  obtain ⟨g, gap, hgap⟩ := List.exists_cons_of_ne_nil h.gap_zero
  have hg : isReSpace g = true := h.gap 0 g (hgap ▸ List.mem_cons_self ..)
  have hmnemonic : ∀ c ∈ s.mnemonic, (!isReSpace c) = true := by
    rw [mnemonic]
    cases s.immediate <;> decide
  have hrun : s.text.takeWhile (fun c => !isReSpace c) = s.mnemonic := by
    rw [text_eq, hgap, List.takeWhile_append_of_pos hmnemonic, List.cons_append,
      List.takeWhile_cons_of_neg (by simp [hg]), List.append_nil]
  have hbehind : skipSpaces (s.text.drop s.mnemonic.length) =
      c :: (rd ++ ',' :: joinCommas s.parts.tail) := by
    rw [text_eq, List.drop_left, hrd, List.cons_append, skipSpaces_append (h.gap 0) hc]
  have hcolon : c ≠ ':' := by
    rintro rfl
    exact hlabel (by rw [hrd]; rfl)
  have hnone : s.mnemonic.rdropWhile (· ≠ ':') = [] := by
    rw [mnemonic]
    cases s.immediate <;> decide
  rw [stripLabel, hrun, hbehind]
  split
  next heq => exact absurd (List.cons.inj heq).1 hcolon
  next =>
    rw [hnone]
    rfl

/-- There are no spaces around the text. -/
theorem strip_text (s : VsetFields) : strip s.text = s.text := by
  have hcons {c : Char} (hc : isSpace c = false) (rest : Text) :
      stripLeft (c :: rest) = c :: rest :=
    List.dropWhile_cons_of_neg (by simp [hc])
  have hpolicy : isSpace (policy s.ma) = false := by cases s.ma <;> decide
  obtain ⟨rest, hrest⟩ := s.text_cons
  obtain ⟨front, hfront⟩ := s.text_concat
  have hleft : stripLeft s.text = s.text := by
    rw [hrest]
    exact hcons (by decide) _
  rw [strip, hleft, hfront, List.reverse_append, List.reverse_singleton, List.singleton_append,
    hcons hpolicy, List.reverse_cons, List.reverse_reverse]

/-! ### Aliases -/

theorem replaceAlias_append {u : Text} (hu : 'X' ∉ u) (v : Text) :
    replaceAlias (u ++ v) = u ++ replaceAlias v :=
  @replaceAll_append "0Dest".toList "zero".toList 'X' u hu v

theorem replaceAlias_of_not_mem {u : Text} (hu : 'X' ∉ u) : replaceAlias u = u :=
  @replaceAll_of_not_mem "0Dest".toList "zero".toList 'X' u hu

/-- **The alias is replaced** in the fields. -/
theorem replaceAlias_text (h : s.Proper) : replaceAlias s.text = s.aliased.text := by
  have hgap (i : Fin 6) : 'X' ∉ s.gap i := not_mem_gap h i (by decide)
  have hpolicy (agnostic : Bool) : 'X' ≠ policy agnostic := (policy_ne agnostic (by decide)).symm
  have hmnemonic : 'X' ∉ s.mnemonic := s.not_mem_mnemonic (by decide)
  have hletter {letter : Char} (hne : 'X' ≠ letter) (v : Text) :
      replaceAlias (letter :: v) = letter :: replaceAlias v :=
    replaceAlias_append (u := [letter]) (by simpa using hne) v
  have hfixed (agnostic : Bool) : replaceAlias [policy agnostic] = [policy agnostic] :=
    replaceAlias_of_not_mem (by simp [hpolicy])
  rw [text, replaceAlias, replaceAll_joinCommas _ (by decide) (by decide)]
  change joinCommas (s.parts.map replaceAlias) = _
  simp only [parts, List.map_cons, List.map_nil, replaceAlias_append hmnemonic,
    replaceAlias_append (hgap _), hletter (by decide : 'X' ≠ 'e'), hletter (by decide : 'X' ≠ 'm'),
    hletter (by decide : 'X' ≠ 't'), hfixed]
  rfl

theorem isPlain_replaceAlias {text : Text} (h : IsPlain text) : IsPlain (replaceAlias text) := by
  have hmem {c : Char} (hc : c ∈ replaceAlias text) : c ∈ text ∨ c ∈ "zero".toList :=
    mem_replaceFrom _ hc
  have hzero : ∀ c ∈ "zero".toList, isSpace c = false ∧ c ≠ ',' := by decide
  constructor
  · intro hc
    rcases hmem hc with htext | hreplaced
    · exact h.not_comma htext
    · exact (hzero _ hreplaced).2 rfl
  · intro c hc
    rcases hmem hc with htext | hreplaced
    · exact h.not_space c htext
    · exact (hzero _ hreplaced).1

theorem isOperand_replaceAlias {text : Text} (h : IsOperand text) : IsOperand (replaceAlias text) :=
  ⟨isPlain_replaceAlias h.toIsPlain, replaceAll_ne_nil _ (by decide) h.ne_nil⟩

theorem Proper.aliased (h : s.Proper) : s.aliased.Proper where
  rd := isOperand_replaceAlias h.rd
  second := isOperand_replaceAlias h.second
  sew := isPlain_replaceAlias h.sew
  lmul := isPlain_replaceAlias h.lmul
  gap := h.gap
  gap_zero := h.gap_zero

/-! ### Segments -/

/-- A space does not stand behind a digit of a segment. -/
abbrev SpaceBehind (c d : Char) : Prop := isReSpace d = true → ¬ ('2' ≤ c ∧ c ≤ '8')

/-- A segment behind which there is no space. -/
theorem replaceSeg_eq_self {text : Text} (h : List.IsChain SpaceBehind text) :
    replaceSeg text = text := by
  induction text with
  | nil => rfl
  | cons c rest ih =>
      rw [replaceSeg]
      cases hmatch : matchSeg (c :: rest) with
      | none => simp only [ih h.tail]
      | some n =>
          obtain ⟨stem, hfind, rfl⟩ := Option.map_eq_some_iff.1 hmatch
          have hstem := List.find?_some hfind
          rw [Bool.and_eq_true] at hstem
          obtain ⟨hstarts, hdigit⟩ := hstem
          obtain ⟨behind, hbehind⟩ := List.isPrefixOf_iff_prefix.1 hstarts
          rw [← hbehind, List.drop_left] at hdigit
          cases behind with
          | nil => cases hdigit
          | cons digit after =>
              rw [← hbehind] at h ⊢
              have hsplit : stem ++ digit :: after = (stem ++ [digit]) ++ after := by simp
              have hlength : stem.length + 1 = (stem ++ [digit]).length := by simp
              simp only [hsplit, hlength, List.take_left, List.drop_left]
              refine congrArg _ ?_
              cases after with
              | nil => rfl
              | cons d after =>
                  obtain ⟨-, hspace, -⟩ := List.isChain_append_cons_cons.1 h
                  refine List.dropWhile_cons_of_neg fun hd => hspace hd ?_
                  simpa using hdigit

theorem isChain_append_of_not_digit {u v : Text} (hu : ∀ c ∈ u, ¬ ('2' ≤ c ∧ c ≤ '8'))
    (hv : List.IsChain SpaceBehind v) : List.IsChain SpaceBehind (u ++ v) := by
  induction u with
  | nil => exact hv
  | cons c u ih =>
      rw [List.forall_mem_cons] at hu
      exact (ih hu.2).cons fun _ _ _ => hu.1

theorem isChain_append_of_not_space {u v : Text} (hu : ∀ c ∈ u, isReSpace c = false) {c : Char}
    (hc : isReSpace c = false) (hv : List.IsChain SpaceBehind (c :: v)) :
    List.IsChain SpaceBehind (u ++ c :: v) := by
  induction u with
  | nil => exact hv
  | cons d u ih =>
      rw [List.forall_mem_cons] at hu
      refine (ih hu.2).cons fun e he hspace => ?_
      cases u with
      | nil =>
          cases he
          exact absurd hspace (by simp [hc])
      | cons d' u =>
          cases he
          exact absurd hspace (by simp [(List.forall_mem_cons.1 hu.2).1])

/-- There are no segments with a space. -/
theorem replaceSeg_text (h : s.Proper) : replaceSeg s.text = s.text := by
  have hgap (i : Fin 6) : ∀ c ∈ s.gap i, ¬ ('2' ≤ c ∧ c ≤ '8') := by
    intro c hc
    have hcases := h.gap i c hc
    simp only [isReSpace, Bool.or_eq_true, beq_iff_eq] at hcases
    rcases hcases with (((rfl | rfl) | rfl) | rfl) | rfl <;> decide
  have hpolicy (agnostic : Bool) : ¬ ('2' ≤ policy agnostic ∧ policy agnostic ≤ '8') := by
    cases agnostic <;> decide
  have hmnemonic : ∀ c ∈ s.mnemonic, ¬ ('2' ≤ c ∧ c ≤ '8') := by
    rw [mnemonic]
    cases s.immediate <;> decide
  have hspace {text : Text} (h : IsPlain text) : ∀ c ∈ text, isReSpace c = false :=
    fun c hc => h.isReSpace_eq hc
  have hfront {u : Text} (hu : ∀ c ∈ u, ¬ ('2' ≤ c ∧ c ≤ '8')) {i : Fin 6} {v : Text}
      (hv : List.IsChain SpaceBehind v) : List.IsChain SpaceBehind (u ++ (s.gap i ++ v)) :=
    isChain_append_of_not_digit hu (isChain_append_of_not_digit (hgap i) hv)
  refine replaceSeg_eq_self ?_
  simp only [text, parts, joinCommas_cons_cons, joinCommas_singleton, List.append_assoc,
    List.cons_append, List.nil_append]
  have hcomma : ∀ c ∈ [','], ¬ ('2' ≤ c ∧ c ≤ '8') := by decide
  refine hfront hmnemonic (isChain_append_of_not_space (hspace h.rd.toIsPlain) (by decide) ?_)
  refine hfront hcomma (isChain_append_of_not_space (hspace h.second.toIsPlain) (by decide) ?_)
  refine hfront hcomma (isChain_append_of_not_digit (u := ['e']) (by decide)
    (isChain_append_of_not_space (hspace h.sew) (by decide) ?_))
  refine hfront hcomma (isChain_append_of_not_digit (u := ['m']) (by decide)
    (isChain_append_of_not_space (hspace h.lmul) (by decide) ?_))
  refine hfront hcomma (isChain_append_of_not_digit (u := ['t', policy s.ta]) ?_ ?_)
  · simpa using hpolicy s.ta
  refine hfront hcomma (isChain_append_of_not_digit (u := ['m', policy s.ma]) ?_ .nil)
  simpa using hpolicy s.ma

/-! ### Captures -/

theorem captureText_append {gap text : Text} (hgap : ∀ c ∈ gap, isReSpace c = true)
    (h : IsOperand text) {least : ℕ} (hleast : least ≤ gap.length) :
    captureText least (gap ++ text) = some text := by
  obtain ⟨c, rest, rfl, hc⟩ := h.exists_cons
  simp only [captureText, skipSpaces_append hgap hc, takeWhile_append hgap hc, hleast, if_true]

theorem captureField_append {gap : Text} (hgap : ∀ c ∈ gap, isReSpace c = true) {letter : Char}
    (hletter : isReSpace letter = false) (allowed : Char → Bool) (text : Text) :
    captureField letter allowed (gap ++ letter :: text) =
      if text ≠ [] ∧ text.all allowed = true then some text else none := by
  simp only [captureField, skipSpaces_append hgap hletter, true_and]

theorem captureFlag_append {gap : Text} (hgap : ∀ c ∈ gap, isReSpace c = true) {letter : Char}
    (hletter : isReSpace letter = false) (agnostic : Bool) :
    captureFlag letter (gap ++ [letter, policy agnostic]) = some agnostic := by
  rw [captureFlag, skipSpaces_append hgap hletter]
  cases agnostic <;> simp [policy]

/-- What is captured. -/
def captured (s : VsetFields) : VsetMatch := ⟨s.rd, s.second, s.sew, s.lmul, s.ta, s.ma⟩

theorem matchVset_text (h : s.Proper) :
    (s.Spelled → matchVset s.mnemonic s.text = some s.captured) ∧
    (¬ s.Spelled → matchVset s.mnemonic s.text = none) := by
  have hfirst : captureText 1 (s.gap 0 ++ s.rd) = some s.rd :=
    captureText_append (h.gap 0) h.rd (List.length_pos_of_ne_nil h.gap_zero)
  have hsecond : captureText 0 (s.gap 1 ++ s.second) = some s.second :=
    captureText_append (h.gap 1) h.second (Nat.zero_le _)
  have hstarts : startsWith s.mnemonic (s.mnemonic ++ (s.gap 0 ++ s.rd)) = true :=
    List.isPrefixOf_iff_prefix.2 (List.prefix_append _ _)
  have hmatch : matchVset s.mnemonic s.text = do
      let sew ← captureField 'e' Char.isDigit (s.gap 2 ++ 'e' :: s.sew)
      let lmul ← captureField 'm' (fun c => c.isDigit || c == 'f') (s.gap 3 ++ 'm' :: s.lmul)
      return ⟨s.rd, s.second, sew, lmul, s.ta, s.ma⟩ := by
    rw [matchVset, text, splitOn_joinCommas (not_comma h) (by simp [parts])]
    simp only [parts, hstarts, if_true, List.drop_left, hfirst, hsecond,
      captureFlag_append (h.gap 4) (by decide : isReSpace 't' = false),
      captureFlag_append (h.gap 5) (by decide : isReSpace 'm' = false), Option.bind_eq_bind,
      Option.bind_some]
  rw [hmatch, captureField_append (h.gap 2) (by decide), captureField_append (h.gap 3) (by decide)]
  constructor
  · intro hspelled
    rw [if_pos hspelled.sew, if_pos hspelled.lmul]
    rfl
  · intro hspelled
    by_cases hsew : s.sew ≠ [] ∧ s.sew.all Char.isDigit = true
    · rw [if_neg fun hlmul => hspelled ⟨hsew, hlmul⟩]
      split <;> rfl
    · rw [if_neg hsew]
      rfl

/-! ### Rewriting -/

/-- The operands in front of the number of `vtype`. -/
def front (s : VsetFields) : List Text :=
  if s.immediate then ["vsetivli ".toList ++ s.second]
    else ["vsetvli ".toList ++ s.rd, ' ' :: s.second]

/-- The parts of the text that is matched. -/
def rewritten (s : VsetFields) : List Text := s.front ++ [' ' :: decimal s.captured.zimm]

/-- **The text is rewritten**, or stays. -/
theorem rewriteVset_text (h : s.Proper) :
    (s.Rewritten → rewriteVsetivli (rewriteVsetvli s.text) = joinCommas s.rewritten) ∧
    (¬ s.Rewritten → rewriteVsetivli (rewriteVsetvli s.text) = s.text) := by
  obtain ⟨hspelled, hnone⟩ := matchVset_text h
  -- the rewriting for the mnemonic of the text
  have hown (operands : VsetMatch → Text) :
      (s.Rewritten → rewriteVset s.mnemonic operands s.text =
        s.mnemonic ++ " ".toList ++ operands s.captured ++ ", ".toList ++ decimal s.captured.zimm) ∧
      (¬ s.Rewritten → rewriteVset s.mnemonic operands s.text = s.text) := by
    have hstarts : startsWith s.mnemonic s.text = true := by
      rw [text_eq]
      exact List.isPrefixOf_iff_prefix.2 (List.prefix_append _ _)
    rw [rewriteVset, hstarts, Bool.true_and]
    constructor
    · intro hrewritten
      rw [if_pos hrewritten.comma, hspelled hrewritten.toSpelled]
    · intro hrewritten
      cases hcomma : contains ", e".toList s.text with
      | false => rfl
      | true => rw [if_pos rfl, hnone fun hs => hrewritten ⟨hs, hcomma⟩]
  have hother (mnemonic : Text) (operands : VsetMatch → Text) (text : Text)
      (hstarts : startsWith mnemonic text = false) : rewriteVset mnemonic operands text = text := by
    rw [rewriteVset, hstarts, Bool.false_and, if_neg Bool.false_ne_true]
  have hmnemonic : s.mnemonic = if s.immediate then "vsetivli".toList else "vsetvli".toList := rfl
  cases himmediate : s.immediate with
  | false =>
      rw [himmediate, if_neg Bool.false_ne_true] at hmnemonic
      have hnot : startsWith "vsetivli".toList s.text = false := by
        rw [text_eq, hmnemonic]
        rfl
      obtain ⟨hyes, hno⟩ := hown fun captured => captured.rd ++ ", ".toList ++ captured.second
      rw [hmnemonic] at hyes hno
      constructor
      · intro hrewritten
        rw [rewriteVsetvli, hyes hrewritten, rewriteVsetivli, hother _ _ _ rfl, rewritten, front,
          himmediate, if_neg Bool.false_ne_true]
        simp [joinCommas_cons_cons, captured]
      · intro hrewritten
        rw [rewriteVsetvli, hno hrewritten, rewriteVsetivli, hother _ _ _ hnot]
  | true =>
      rw [himmediate, if_pos rfl] at hmnemonic
      have hnot : startsWith "vsetvli".toList s.text = false := by
        rw [text_eq, hmnemonic]
        rfl
      obtain ⟨hyes, hno⟩ := hown fun captured => captured.second
      rw [hmnemonic] at hyes hno
      rw [rewriteVsetvli, hother _ _ _ hnot, rewriteVsetivli]
      refine ⟨fun hrewritten => ?_, hno⟩
      rw [hyes hrewritten, rewritten, front, himmediate, if_pos rfl]
      simp [joinCommas_cons_cons, captured]

theorem mapCsr_vset (rest : Text) : mapCsr ("vset".toList ++ rest) = "vset".toList ++ rest := by
  rfl

theorem normalizeCommas_joinCommas {first : Text} {parts : List Text}
    (h : ∀ p ∈ first :: parts, ',' ∉ p) :
    normalizeCommas (joinCommas (first :: parts)) =
      joinCommas (first :: parts.map fun p => ' ' :: skipSpaces p) := by
  rw [normalizeCommas, splitOn_joinCommas h (List.cons_ne_nil _ _)]

theorem stripTrailing_append (u : Text) {text : Text} (h : IsOperand text) :
    stripTrailing (u ++ text) = u ++ text := by
  obtain ⟨front, c, rfl⟩ := (List.eq_nil_or_concat' text).resolve_left h.ne_nil
  have hmem : c ∈ front ++ [c] := List.mem_append_right _ (List.mem_singleton_self c)
  have hspace : c ≠ ' ' := by
    rintro rfl
    exact absurd (h.not_space _ hmem) (by decide)
  have hcomma : c ≠ ',' := by
    rintro rfl
    exact h.not_comma hmem
  rw [stripTrailing, ← List.append_assoc]
  exact List.rdropWhile_concat_neg _ _ _ (by simp [hspace, hcomma])

theorem isOperand_decimal (n : ℕ) : IsOperand (decimal n) := by
  have hword := isWord_decimal n
  refine ⟨⟨fun hcomma => ?_, hword.isSpace_eq⟩, hword.1⟩
  exact absurd (hword.2 _ hcomma) (by decide)

theorem skipSpaces_of_operand {text : Text} (h : IsOperand text) :
    skipSpaces (' ' :: text) = text := by
  obtain ⟨c, rest, rfl, hc⟩ := h.exists_cons
  exact @skipSpaces_append [' '] (by decide) c hc rest

/-- The steps in front of the rewriting. -/
theorem normalize_eq (h : s.Proper) : normalize s.text =
    stripTrailing (normalizeCommas (mapCsr (rewriteVsetivli (rewriteVsetvli s.aliased.text)))) := by
  simp only [normalize, strip_text, replaceAlias_text h, replaceSeg_text h.aliased, ite_self]

/-- **The text that is matched.** -/
theorem normalize_of_rewritten (h : s.Proper) (hrewritten : s.aliased.Rewritten) :
    normalize s.text = joinCommas s.aliased.rewritten := by
  have hproper := h.aliased
  rw [normalize_eq h, (rewriteVset_text hproper).1 hrewritten]
  generalize s.aliased = t at hproper
  have hdecimal := isOperand_decimal t.captured.zimm
  obtain ⟨rest, hrest⟩ : ∃ rest, joinCommas t.rewritten = "vset".toList ++ rest := by
    rw [rewritten, front]
    cases t.immediate <;> exact ⟨_, rfl⟩
  have hcommas : normalizeCommas (joinCommas t.rewritten) = joinCommas t.rewritten := by
    have hspace : ',' ≠ ' ' := by decide
    rw [rewritten, front]
    cases t.immediate with
    | false =>
        rw [if_neg Bool.false_ne_true, List.cons_append, normalizeCommas_joinCommas]
        · simp [skipSpaces_of_operand hproper.second, skipSpaces_of_operand hdecimal]
        · simp [hproper.rd.not_comma, hproper.second.not_comma, hdecimal.not_comma]
    | true =>
        rw [if_pos rfl, List.cons_append, normalizeCommas_joinCommas]
        · simp [skipSpaces_of_operand hdecimal]
        · simp [hproper.second.not_comma, hdecimal.not_comma]
  obtain ⟨u, hu⟩ := exists_joinCommas_concat t.front [' '] (decimal t.captured.zimm)
  rw [hrest, mapCsr_vset, ← hrest, hcommas, rewritten]
  change stripTrailing (joinCommas (t.front ++ [[' '] ++ decimal t.captured.zimm])) = _
  rw [hu, stripTrailing_append u hdecimal, ← hu]
  rfl

/-- A text that is not rewritten keeps all its parts. -/
theorem normalize_of_not_rewritten (h : s.Proper) (hrewritten : ¬ s.aliased.Rewritten) :
    ∃ first parts, normalize s.text = joinCommas (first :: parts.map (' ' :: ·)) ∧
      startsWith "vset".toList first = true ∧ 3 ≤ parts.length ∧
      ∀ part ∈ first :: parts, ',' ∉ part := by
  have hproper := h.aliased
  rw [normalize_eq h, (rewriteVset_text hproper).2 hrewritten]
  generalize s.aliased = t at hproper
  have hlast : skipSpaces (t.gap 5 ++ ['m', policy t.ma]) = ['m', policy t.ma] :=
    skipSpaces_append (hproper.gap 5) (by decide) _
  have hoperand : IsOperand ['m', policy t.ma] := by
    cases t.ma <;> exact ⟨⟨by decide, by decide⟩, by decide⟩
  obtain ⟨parts, hparts, hlength⟩ : ∃ parts, t.parts =
      (t.mnemonic ++ (t.gap 0 ++ t.rd)) :: (parts ++ [t.gap 5 ++ ['m', policy t.ma]]) ∧
      parts.length = 4 :=
    ⟨[_, _, _, _], rfl, rfl⟩
  have hcomma := not_comma hproper
  rw [hparts] at hcomma
  have hnormal : normalizeCommas t.text = joinCommas ((t.mnemonic ++ (t.gap 0 ++ t.rd)) ::
      (parts.map skipSpaces ++ [['m', policy t.ma]]).map (' ' :: ·)) := by
    rw [text, hparts, normalizeCommas_joinCommas hcomma]
    simp [hlast, Function.comp_def]
  obtain ⟨u, hu⟩ := exists_joinCommas_concat
    ((t.mnemonic ++ (t.gap 0 ++ t.rd)) :: (parts.map skipSpaces).map (' ' :: ·)) [' '] ['m',
      policy t.ma]
  refine ⟨t.mnemonic ++ (t.gap 0 ++ t.rd), parts.map skipSpaces ++ [['m', policy t.ma]], ?_,
    ?_, by simp [hlength], ?_⟩
  · obtain ⟨rest, hrest⟩ := t.text_cons
    rw [hrest, mapCsr_vset, ← hrest, hnormal, List.map_append, List.map_singleton]
    exact (congrArg stripTrailing hu).trans ((stripTrailing_append u hoperand).trans hu.symm)
  · rw [mnemonic]
    cases t.immediate <;> rfl
  · rw [List.forall_mem_cons, List.forall_mem_append] at hcomma ⊢
    refine ⟨hcomma.1, fun p hp => ?_, fun p hp => ?_⟩
    · obtain ⟨q, hq, rfl⟩ := List.mem_map.1 hp
      exact fun hmem => hcomma.2.1 q hq ((List.dropWhile_sublist _).subset hmem)
    · rw [List.mem_singleton.1 hp]
      exact hoperand.not_comma

end VsetFields

end CoralNpu.Isa32M3
