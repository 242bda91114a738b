/-
**Instruction patterns.**

A pattern constrains fields of a word to be equal to a value or different from it; a group is a list
of patterns, and a decoder of the group gives the opcode of a pattern that matches, if there is one.
When two patterns match one word the decoder may give either opcode.

Two patterns are told apart by two of their constraints that no word satisfies together.  Finding
such a pair is a computation on the patterns alone.

Main definitions:

* `BinFmt.Field`, `BinFmt.Constraint`, `BinFmt.Pattern` — patterns;
* `BinFmt.Constraint.conflicts`, `BinFmt.conflicting` — constraints that exclude each other;
* `BinFmt.candidates`, `BinFmt.selects` — the patterns of a group that some facts do not exclude,
  and facts that leave a single one;
* `BinFmt.fieldValues` — the values of a field that constraints leave open;
* `BinFmt.Decoder`, `BinFmt.Decoders.parse` — the decoder of a group, and several of them tried in
  order.

Main results:

* `BinFmt.exists_of_selects` — a single candidate that the facts imply is the only match;
* `BinFmt.Decoders.parse_eq_some_iff` — a word is parsed as a pattern by every decoder exactly when
  nothing else tried so far matches it.
-/

import Mathlib.Data.BitVec
import Mathlib.Data.List.Basic

set_option relaxedAutoImplicit false
set_option autoImplicit false

namespace BinFmt

/-! ### Constraints -/

/-- A field of a word: its lowest bit and its number of bits. -/
structure Field where
  offset : ℕ
  width : ℕ
  deriving DecidableEq

variable {n : ℕ}

/-- The value of a field. -/
def Field.get (f : Field) (w : BitVec n) : ℕ := (w.extractLsb' f.offset f.width).toNat

/-- A constraint on a field. -/
inductive Constraint where
  | eq (f : Field) (value : ℕ)
  | ne (f : Field) (value : ℕ)
  deriving DecidableEq

/-- A word satisfies a constraint. -/
def Constraint.Holds (w : BitVec n) : Constraint → Prop
  | eq f value => f.get w = value
  | ne f value => f.get w ≠ value

instance (w : BitVec n) : (c : Constraint) → Decidable (c.Holds w)
  | .eq f value => inferInstanceAs (Decidable (f.get w = value))
  | .ne f value => inferInstanceAs (Decidable (f.get w ≠ value))

/-- Bits of a value, from `low` on. -/
def bits (value low count : ℕ) : ℕ := value / 2 ^ low % 2 ^ count

/-- No word satisfies both constraints: the fields overlap in bits that differ, or one constraint is
the negation of the other. -/
def Constraint.conflicts : Constraint → Constraint → Bool
  | eq f value, eq g value' =>
      let low := max f.offset g.offset
      let high := min (f.offset + f.width) (g.offset + g.width)
      decide (bits value (low - f.offset) (high - low) ≠ bits value' (low - g.offset) (high - low))
  | eq f value, ne g value' => decide (f = g ∧ value = value')
  | ne f value, eq g value' => decide (f = g ∧ value = value')
  | ne _ _, ne _ _ => false

/-- Bits of a field are bits of the word. -/
theorem bits_get (f : Field) (w : BitVec n) {low count : ℕ} (h : low + count ≤ f.width) :
    bits (f.get w) low count = bits w.toNat (f.offset + low) count := by
  refine Nat.eq_of_testBit_eq fun i => ?_
  rw [bits, bits, Field.get, BitVec.extractLsb'_toNat, Nat.testBit_mod_two_pow,
    Nat.testBit_mod_two_pow, Nat.testBit_div_two_pow, Nat.testBit_div_two_pow,
    Nat.testBit_mod_two_pow, Nat.testBit_shiftRight]
  by_cases hi : i < count
  · have hlt : i + low < f.width := by omega
    have hsum : f.offset + (i + low) = i + (f.offset + low) := by omega
    simp [hi, hlt, hsum]
  · simp [hi]

theorem Constraint.not_holds_of_conflicts {c d : Constraint} (h : c.conflicts d = true)
    (w : BitVec n) (hc : c.Holds w) : ¬ d.Holds w := by
  intro hd
  cases c with
  | eq f value =>
      cases d with
      | eq g value' =>
          simp only [Holds] at hc hd
          simp only [conflicts, decide_eq_true_eq] at h
          refine h ?_
          rw [← hc, ← hd]
          by_cases hoverlap : max f.offset g.offset ≤
              min (f.offset + f.width) (g.offset + g.width)
          · rw [bits_get f w (by omega), bits_get g w (by omega)]
            congr 1
            omega
          · have hzero : min (f.offset + f.width) (g.offset + g.width) -
                max f.offset g.offset = 0 := by omega
            rw [hzero, bits, bits, pow_zero, Nat.mod_one, Nat.mod_one]
      | ne g value' =>
          simp only [conflicts, decide_eq_true_eq] at h
          obtain ⟨rfl, rfl⟩ := h
          exact hd hc
  | ne f value =>
      cases d with
      | eq g value' =>
          simp only [conflicts, decide_eq_true_eq] at h
          obtain ⟨rfl, rfl⟩ := h
          exact hc hd
      | ne g value' => cases h

/-! ### Patterns -/

/-- A pattern: an opcode and its constraints. -/
structure Pattern (O : Type) where
  opcode : O
  constraints : List Constraint
  deriving DecidableEq

variable {O : Type}

/-- A word matches a pattern. -/
def Pattern.Matches (p : Pattern O) (w : BitVec n) : Prop := ∀ c ∈ p.constraints, c.Holds w

instance (p : Pattern O) (w : BitVec n) : Decidable (p.Matches w) :=
  inferInstanceAs (Decidable (∀ c ∈ p.constraints, c.Holds w))

/-- The same constraints under another opcode. -/
def Pattern.map {O' : Type} (f : O → O') (p : Pattern O) : Pattern O' := ⟨f p.opcode, p.constraints⟩

@[simp] theorem Pattern.map_opcode {O' : Type} (f : O → O') (p : Pattern O) :
    (p.map f).opcode = f p.opcode := rfl

@[simp] theorem Pattern.map_matches {O' : Type} (f : O → O') (p : Pattern O) (w : BitVec n) :
    (p.map f).Matches w ↔ p.Matches w := Iff.rfl

/-- Two lists of constraints exclude each other. -/
def conflicting (cs ds : List Constraint) : Bool := cs.any fun c => ds.any c.conflicts

theorem not_holds_of_conflicting {cs ds : List Constraint} (h : conflicting cs ds = true)
    (w : BitVec n) (hc : ∀ c ∈ cs, c.Holds w) : ¬ ∀ d ∈ ds, d.Holds w := by
  intro hd
  obtain ⟨c, hcmem, hany⟩ := List.any_eq_true.1 h
  obtain ⟨d, hdmem, hconflicts⟩ := List.any_eq_true.1 hany
  exact Constraint.not_holds_of_conflicts hconflicts w (hc c hcmem) (hd d hdmem)

/-- The patterns of a group that some facts about a word do not exclude. -/
def candidates (facts : List Constraint) (group : List (Pattern O)) : List (Pattern O) :=
  group.filter fun p => !conflicting facts p.constraints

theorem mem_candidates {facts : List Constraint} {group : List (Pattern O)} {p : Pattern O}
    {w : BitVec n} (hfacts : ∀ c ∈ facts, c.Holds w) (hp : p ∈ group) (hmatches : p.Matches w) :
    p ∈ candidates facts group := by
  refine List.mem_filter.2 ⟨hp, ?_⟩
  rw [Bool.not_eq_true', ← Bool.not_eq_true]
  intro h
  exact not_holds_of_conflicting h w hfacts hmatches

/-- **A single candidate that the facts imply is the only match.** -/
theorem matches_iff_of_candidates {facts : List Constraint} {group : List (Pattern O)}
    {p : Pattern O} {w : BitVec n} (hfacts : ∀ c ∈ facts, c.Holds w)
    (hcandidates : candidates facts group = [p]) (himplied : p.constraints ⊆ facts)
    (q : Pattern O) : q ∈ group ∧ q.Matches w ↔ q = p := by
  constructor
  · rintro ⟨hq, hmatches⟩
    have hmem := mem_candidates hfacts hq hmatches
    rw [hcandidates] at hmem
    exact List.mem_singleton.1 hmem
  · rintro rfl
    have hmem : q ∈ candidates facts group := by
      rw [hcandidates]
      exact List.mem_singleton_self q
    exact ⟨List.mem_of_mem_filter hmem, fun c hc => hfacts c (himplied hc)⟩

/-- The facts leave one pattern, with this opcode, and imply it. -/
def selects [DecidableEq O] (facts : List Constraint) (group : List (Pattern O)) (op : O) : Bool :=
  match candidates facts group with
  | [p] => decide (p.opcode = op) && p.constraints.all fun c => decide (c ∈ facts)
  | _ => false

theorem exists_of_selects [DecidableEq O] {facts : List Constraint} {group : List (Pattern O)}
    {op : O} {w : BitVec n} (hfacts : ∀ c ∈ facts, c.Holds w)
    (h : selects facts group op = true) :
    ∃ p ∈ group, p.opcode = op ∧ ∀ q ∈ group, q.Matches w ↔ q = p := by
  rw [selects] at h
  split at h
  · rename_i p hcandidates
    rw [Bool.and_eq_true, decide_eq_true_eq, List.all_eq_true] at h
    have himplied : p.constraints ⊆ facts := fun c hc => by simpa using h.2 c hc
    have hiff := matches_iff_of_candidates hfacts hcandidates himplied
    refine ⟨p, ((hiff p).2 rfl).1, h.1, fun q hq => ?_⟩
    rw [← hiff q]
    exact (and_iff_right hq).symm
  · cases h

/-- Without candidates there is no match. -/
theorem not_matches_of_candidates {facts : List Constraint} {group : List (Pattern O)}
    {w : BitVec n} (hfacts : ∀ c ∈ facts, c.Holds w) (hcandidates : candidates facts group = [])
    {q : Pattern O} (hq : q ∈ group) : ¬ q.Matches w := by
  intro hmatches
  have hmem := mem_candidates hfacts hq hmatches
  rw [hcandidates] at hmem
  cases hmem

/-! ### Fields that constraints determine -/

/-- The value that a constraint gives a field. -/
def Constraint.valueOf (f : Field) : Constraint → Option ℕ
  | eq g value => if g = f then some value else none
  | ne _ _ => none

/-- The values that constraints leave to a field. -/
def fieldValues (cs : List Constraint) (f : Field) : List ℕ :=
  match cs.findSome? (Constraint.valueOf f) with
  | some value => [value]
  | none => (List.range (2 ^ f.width)).filter fun value => !conflicting cs [.eq f value]

theorem Field.get_lt (f : Field) (w : BitVec n) : f.get w < 2 ^ f.width :=
  (w.extractLsb' f.offset f.width).isLt

theorem Constraint.get_of_valueOf {f : Field} {c : Constraint} {value : ℕ} {w : BitVec n}
    (h : c.valueOf f = some value) (hc : c.Holds w) : f.get w = value := by
  cases c with
  | eq g value' =>
      rw [valueOf] at h
      split at h
      · rename_i hg
        subst hg
        rw [← Option.some.inj h]
        exact hc
      · cases h
  | ne g value' => cases h

/-- **A field has one of the values left to it.** -/
theorem mem_fieldValues {cs : List Constraint} (f : Field) {w : BitVec n}
    (h : ∀ c ∈ cs, c.Holds w) : f.get w ∈ fieldValues cs f := by
  rw [fieldValues]
  split
  · rename_i value hfind
    obtain ⟨c, hc, hvalue⟩ := List.exists_of_findSome?_eq_some hfind
    rw [Constraint.get_of_valueOf hvalue (h c hc)]
    exact List.mem_singleton_self _
  · refine List.mem_filter.2 ⟨List.mem_range.2 (f.get_lt w), ?_⟩
    rw [Bool.not_eq_true', ← Bool.not_eq_true]
    intro hconflict
    refine not_holds_of_conflicting hconflict w h fun d hd => ?_
    rw [List.mem_singleton.1 hd]
    rfl

/-! ### Decoders -/

/-- A decoder of a group. -/
structure Decoder (n : ℕ) (group : List (Pattern O)) where
  decode : BitVec n → Option O
  sound : ∀ {w op}, decode w = some op → ∃ p ∈ group, p.opcode = op ∧ p.Matches w
  complete : ∀ {w}, decode w = none → ∀ p ∈ group, ¬ p.Matches w

/-- The decoder that prefers one pattern, and otherwise takes the first one that matches. -/
def Decoder.preferring [DecidableEq O] (p : Pattern O) (group : List (Pattern O)) :
    Decoder n group where
  decode w :=
    if p ∈ group ∧ p.Matches w then some p.opcode
    else (group.find? fun q => decide (q.Matches w)).map Pattern.opcode
  sound := by
    intro w op h
    split at h
    · rename_i hp
      exact ⟨p, hp.1, Option.some.inj h, hp.2⟩
    · obtain ⟨q, hfind, rfl⟩ := Option.map_eq_some_iff.1 h
      exact ⟨q, List.mem_of_find?_eq_some hfind, rfl, by simpa using List.find?_some hfind⟩
  complete := by
    intro w h q hq
    split at h
    · cases h
    · simpa using List.find?_eq_none.1 (Option.map_eq_none_iff.1 h) q hq

/-- Decoders of several groups. -/
inductive Decoders (n : ℕ) : List (List (Pattern O)) → Type
  | nil : Decoders n []
  | cons {group : List (Pattern O)} {groups : List (List (Pattern O))} (d : Decoder n group)
      (ds : Decoders n groups) : Decoders n (group :: groups)

/-- The first opcode that a decoder gives. -/
def Decoders.parse : {groups : List (List (Pattern O))} → Decoders n groups → BitVec n → Option O
  | _, .nil, _ => none
  | _, .cons d ds, w =>
      match d.decode w with
      | some op => some op
      | none => ds.parse w

/-- A decoder for every group. -/
def Decoders.of (choose : (group : List (Pattern O)) → Decoder n group) :
    (groups : List (List (Pattern O))) → Decoders n groups
  | [] => .nil
  | group :: groups => .cons (choose group) (Decoders.of choose groups)

section Decoder

variable {group : List (Pattern O)} {w : BitVec n}

theorem Decoder.decode_eq_none (d : Decoder n group) (h : ∀ p ∈ group, ¬ p.Matches w) :
    d.decode w = none := by
  cases hdecode : d.decode w with
  | none => rfl
  | some op =>
      obtain ⟨p, hp, -, hmatches⟩ := d.sound hdecode
      exact absurd hmatches (h p hp)

theorem Decoder.decode_eq_some (d : Decoder n group) {p : Pattern O} (hp : p ∈ group)
    (hmatches : p.Matches w) (h : ∀ q ∈ group, q.Matches w → q.opcode = p.opcode) :
    d.decode w = some p.opcode := by
  cases hdecode : d.decode w with
  | none => exact absurd hmatches (d.complete hdecode p hp)
  | some op =>
      obtain ⟨q, hq, rfl, hqmatches⟩ := d.sound hdecode
      rw [h q hq hqmatches]

theorem Decoder.preferring_decode [DecidableEq O] {p : Pattern O} (hp : p ∈ group)
    (hmatches : p.Matches w) : (Decoder.preferring p group).decode w = some p.opcode :=
  if_pos ⟨hp, hmatches⟩

variable {before behind : List (List (Pattern O))}

/-- **A word that no earlier group matches, and one opcode only of a group, is parsed as that.** -/
theorem Decoders.parse_eq_some (ds : Decoders n (before ++ group :: behind)) {p : Pattern O}
    (hbefore : ∀ earlier ∈ before, ∀ q ∈ earlier, ¬ q.Matches w) (hp : p ∈ group)
    (hmatches : p.Matches w) (h : ∀ q ∈ group, q.Matches w → q.opcode = p.opcode) :
    ds.parse w = some p.opcode := by
  induction before with
  | nil =>
      cases ds with
      | cons d ds => rw [parse, d.decode_eq_some hp hmatches h]
  | cons earlier before ih =>
      cases ds with
      | cons d ds =>
          rw [List.forall_mem_cons] at hbefore
          rw [parse, d.decode_eq_none hbefore.1]
          exact ih ds hbefore.2

/-- A word that an earlier group matches is parsed as a pattern of an earlier group. -/
theorem Decoders.parse_of_earlier (ds : Decoders n (before ++ behind)) {earlier : List (Pattern O)}
    (hearlier : earlier ∈ before) {q : Pattern O} (hq : q ∈ earlier) (hmatches : q.Matches w) :
    ∃ first ∈ before, ∃ r ∈ first, ds.parse w = some r.opcode := by
  induction before with
  | nil => cases hearlier
  | cons first before ih =>
      cases ds with
      | cons d ds =>
          rw [parse]
          cases hdecode : d.decode w with
          | some op =>
              obtain ⟨r, hr, rfl, -⟩ := d.sound hdecode
              exact ⟨first, List.mem_cons_self, r, hr, rfl⟩
          | none =>
              have hne : earlier ≠ first := by
                rintro rfl
                exact d.complete hdecode q hq hmatches
              obtain ⟨group, hgroup, r, hr, hparse⟩ :=
                ih ds ((List.mem_cons.1 hearlier).resolve_left hne)
              exact ⟨group, List.mem_cons_of_mem first hgroup, r, hr, hparse⟩

/-- The opcode of a word is that of a pattern that matches it. -/
theorem Decoders.exists_of_parse {groups : List (List (Pattern O))}
    (ds : Decoders n groups) {op : O} (h : ds.parse w = some op) :
    ∃ group ∈ groups, ∃ p ∈ group, p.opcode = op ∧ p.Matches w := by
  induction ds with
  | nil => cases h
  | cons d ds ih =>
      rw [parse] at h
      cases hdecode : d.decode w with
      | some op' =>
          rw [hdecode] at h
          obtain ⟨p, hp, hop, hmatches⟩ := d.sound hdecode
          exact ⟨_, List.mem_cons_self, p, hp, hop.trans (Option.some.inj h), hmatches⟩
      | none =>
          rw [hdecode] at h
          obtain ⟨group, hgroup, hp⟩ := ih h
          exact ⟨group, List.mem_cons_of_mem _ hgroup, hp⟩

/-- The decoder of the first group that matches is the one that counts. -/
theorem Decoders.parse_of (choose : (group : List (Pattern O)) → Decoder n group)
    (hbefore : ∀ earlier ∈ before, ∀ q ∈ earlier, ¬ q.Matches w) {op : O}
    (hdecode : (choose group).decode w = some op) :
    (Decoders.of choose (before ++ group :: behind)).parse w = some op := by
  induction before with
  | nil => rw [List.nil_append, of, parse, hdecode]
  | cons earlier before ih =>
      rw [List.forall_mem_cons] at hbefore
      rw [List.cons_append, of, parse, (choose earlier).decode_eq_none hbefore.1]
      exact ih hbefore.2

/-- **A word is parsed as a pattern by every decoder exactly when no pattern tried before, or with
it, matches the word.** -/
theorem Decoders.parse_eq_some_iff [DecidableEq O] {p : Pattern O} (hp : p ∈ group)
    (hmatches : p.Matches w)
    (hopcode : ∀ earlier ∈ before, ∀ q ∈ earlier, q.opcode ≠ p.opcode) :
    (∀ ds : Decoders n (before ++ group :: behind), ds.parse w = some p.opcode) ↔
      (∀ earlier ∈ before, ∀ q ∈ earlier, ¬ q.Matches w) ∧
        ∀ q ∈ group, q.Matches w → q.opcode = p.opcode := by
  constructor
  · intro h
    have hbefore : ∀ earlier ∈ before, ∀ q ∈ earlier, ¬ q.Matches w := by
      intro earlier hearlier q hq hqmatches
      have ds : Decoders n (before ++ group :: behind) := Decoders.of (Decoder.preferring p) _
      obtain ⟨first, hfirst, r, hr, hparse⟩ := ds.parse_of_earlier hearlier hq hqmatches
      rw [h ds] at hparse
      exact hopcode first hfirst r hr (Option.some.inj hparse).symm
    refine ⟨hbefore, fun q hq hqmatches => ?_⟩
    have hparse : (Decoders.of (Decoder.preferring q) (before ++ group :: behind)).parse w =
        some q.opcode :=
      Decoders.parse_of (Decoder.preferring q) hbefore (Decoder.preferring_decode hq hqmatches)
    rw [h] at hparse
    exact (Option.some.inj hparse).symm
  · rintro ⟨hbefore, honly⟩ ds
    exact ds.parse_eq_some hbefore hp hmatches honly

end Decoder

end BinFmt
