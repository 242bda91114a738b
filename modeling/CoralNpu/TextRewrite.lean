/-
**Rewriting a text.**

A rewriting step of an assembler replaces one text by another, wherever it stands, or looks at the
parts of a text between commas.  When no match can cross a separator, the parts can be rewritten one
by one.  Nothing here knows what the texts are.

Main definitions:

* `TextRewrite.replaceAll` — every match of a pattern replaced, from left to right;
* `TextRewrite.joinCommas` — parts with commas in between.

Main results:

* `TextRewrite.replaceAll_append_cons`, `TextRewrite.replaceAll_joinCommas` — **a match does not
  cross a separator**;
* `TextRewrite.replaceAll_append` — nor does one begin where its first character is not;
* `TextRewrite.splitOn_joinCommas` — the parts are found again.
-/

import CoralNpu.AsciiText

set_option relaxedAutoImplicit false
set_option autoImplicit false

namespace TextRewrite

/-! ### Replacing -/

section Replace

variable (pattern replacement : Text)

/-- Replacing every match, behind `skip` characters that belong to a match. -/
def replaceFrom : ℕ → Text → Text
  | _, [] => []
  | skip + 1, _ :: rest => replaceFrom skip rest
  | 0, c :: rest =>
      if pattern.isPrefixOf (c :: rest) then replacement ++ replaceFrom (pattern.length - 1) rest
      else c :: replaceFrom 0 rest

/-- **Every match replaced**, from left to right. -/
def replaceAll (text : Text) : Text := replaceFrom pattern replacement 0 text

variable {pattern}

/-- A match ends in front of a character that the pattern does not have. -/
theorem isPrefixOf_append_cons {c : Char} (hc : c ∉ pattern) (u v : Text) :
    pattern.isPrefixOf (u ++ c :: v) = pattern.isPrefixOf u := by
  induction pattern generalizing u with
  | nil => rfl
  | cons p pattern ih =>
      rw [List.mem_cons, not_or] at hc
      cases u with
      | nil =>
          have hne : (p == c) = false := beq_false_of_ne (Ne.symm hc.1)
          simp [List.isPrefixOf, hne]
      | cons d u => simp only [List.cons_append, List.isPrefixOf, ih hc.2]

theorem replaceFrom_append_cons (hne : pattern ≠ []) {c : Char} (hc : c ∉ pattern) {skip : ℕ}
    (u v : Text) (hskip : skip ≤ u.length) : replaceFrom pattern replacement skip (u ++ c :: v) =
      replaceFrom pattern replacement skip u ++ c :: replaceFrom pattern replacement 0 v := by
  induction u generalizing skip with
  | nil =>
      obtain rfl : skip = 0 := Nat.le_zero.1 hskip
      have hleading : pattern.isPrefixOf (c :: v) = false := by
        rw [show c :: v = [] ++ c :: v from rfl, isPrefixOf_append_cons hc]
        cases pattern with
        | nil => exact absurd rfl hne
        | cons p pattern => rfl
      simp only [List.nil_append, replaceFrom, hleading, Bool.false_eq_true, if_false]
  | cons d u ih =>
      cases skip with
      | succ skip =>
          rw [List.cons_append, replaceFrom, replaceFrom]
          exact ih (Nat.le_of_succ_le_succ hskip)
      | zero =>
          rw [List.cons_append, replaceFrom, ← List.cons_append, isPrefixOf_append_cons hc,
            replaceFrom]
          cases hleading : pattern.isPrefixOf (d :: u) with
          | true =>
              -- the match is inside the front part
              have hlength := (List.isPrefixOf_iff_prefix.1 hleading).length_le
              rw [List.length_cons] at hlength
              rw [if_pos rfl, if_pos rfl, ih (by omega), List.append_assoc]
          | false =>
            rw [if_neg Bool.false_ne_true, if_neg Bool.false_ne_true, ih (Nat.zero_le _),
              List.cons_append]

/-- **A match does not cross a separator.** -/
theorem replaceAll_append_cons (hne : pattern ≠ []) {c : Char} (hc : c ∉ pattern) (u v : Text) :
    replaceAll pattern replacement (u ++ c :: v) =
      replaceAll pattern replacement u ++ c :: replaceAll pattern replacement v :=
  replaceFrom_append_cons replacement hne hc u v (Nat.zero_le _)

/-- **No match begins** where there is not the first character of the pattern. -/
theorem replaceAll_append {p : Char} {u : Text} (hu : p ∉ u) (v : Text) :
    replaceAll (p :: pattern) replacement (u ++ v) =
      u ++ replaceAll (p :: pattern) replacement v := by
  induction u with
  | nil => rfl
  | cons c u ih =>
      rw [List.mem_cons, not_or] at hu
      have hleading : (p :: pattern).isPrefixOf (c :: (u ++ v)) = false := by
        simp [List.isPrefixOf, beq_false_of_ne hu.1]
      rw [replaceAll] at ih ⊢
      rw [List.cons_append, replaceFrom, if_neg (by simp [hleading]), ih hu.2]
      rfl

theorem replaceAll_of_not_mem {p : Char} {u : Text} (hu : p ∉ u) :
    replaceAll (p :: pattern) replacement u = u := by
  have happend := @replaceAll_append pattern replacement p u hu []
  rwa [List.append_nil, show replaceAll (p :: pattern) replacement [] = [] from rfl,
    List.append_nil] at happend

/-- The characters come from the text or from the replacement. -/
theorem mem_replaceFrom {skip : ℕ} {text : Text} {c : Char}
    (h : c ∈ replaceFrom pattern replacement skip text) : c ∈ text ∨ c ∈ replacement := by
  induction text generalizing skip with
  | nil => simp [replaceFrom] at h
  | cons d text ih =>
      cases skip with
      | succ skip => exact (ih h).imp_left (List.mem_cons_of_mem d)
      | zero =>
          rw [replaceFrom] at h
          split at h
          · rcases List.mem_append.1 h with hreplaced | hrest
            · exact .inr hreplaced
            · exact (ih hrest).imp_left (List.mem_cons_of_mem d)
          · rcases List.mem_cons.1 h with rfl | hrest
            · exact .inl (List.mem_cons_self ..)
            · exact (ih hrest).imp_left (List.mem_cons_of_mem d)

/-- A text that is not empty does not become empty. -/
theorem replaceAll_ne_nil (hne : replacement ≠ []) {text : Text} (h : text ≠ []) :
    replaceAll pattern replacement text ≠ [] := by
  cases text with
  | nil => exact absurd rfl h
  | cons c text =>
      rw [replaceAll, replaceFrom]
      split
      · simp [hne]
      · simp

end Replace

/-! ### Parts between commas -/

/-- Parts with commas in between. -/
def joinCommas (parts : List Text) : Text := [','].intercalate parts

theorem joinCommas_cons_cons (part next : Text) (parts : List Text) :
    joinCommas (part :: next :: parts) = part ++ ',' :: joinCommas (next :: parts) := by
  rw [joinCommas, joinCommas, List.intercalate_cons_cons, List.append_assoc]
  rfl

@[simp] theorem joinCommas_singleton (part : Text) : joinCommas [part] = part := by
  simp [joinCommas, List.intercalate]

/-- The end of the last part is the end of the text. -/
theorem exists_joinCommas_concat (parts : List Text) (front back : Text) :
    ∃ u, joinCommas (parts ++ [front ++ back]) = u ++ back := by
  induction parts with
  | nil => exact ⟨front, joinCommas_singleton _⟩
  | cons part parts ih =>
      obtain ⟨u, hu⟩ := ih
      cases parts with
      | nil => exact ⟨part ++ ',' :: front, by simp [joinCommas_cons_cons]⟩
      | cons next parts =>
          rw [List.cons_append] at hu
          exact ⟨part ++ ',' :: u, by
            rw [List.cons_append, List.cons_append, joinCommas_cons_cons, hu]; simp⟩

/-- **The parts are found again.** -/
theorem splitOn_joinCommas {parts : List Text} (h : ∀ part ∈ parts, ',' ∉ part) (hne : parts ≠ []) :
    (joinCommas parts).splitOn ',' = parts := List.splitOn_intercalate ',' h hne

/-- **The parts are rewritten one by one.** -/
theorem replaceAll_joinCommas {pattern : Text} (replacement : Text) (hne : pattern ≠ [])
    (hcomma : ',' ∉ pattern) (parts : List Text) :
    replaceAll pattern replacement (joinCommas parts) =
      joinCommas (parts.map (replaceAll pattern replacement)) := by
  induction parts with
  | nil => rfl
  | cons part parts ih =>
      cases parts with
      | nil => rw [List.map_cons, List.map_nil, joinCommas_singleton, joinCommas_singleton]
      | cons next parts =>
          rw [List.map_cons, List.map_cons, joinCommas_cons_cons, joinCommas_cons_cons,
            replaceAll_append_cons replacement hne hcomma, ih, List.map_cons]

end TextRewrite
