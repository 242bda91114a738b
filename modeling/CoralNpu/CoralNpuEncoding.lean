/-
**Parsing an instruction.**

`ParseInstruction` tries the decoders of the groups in order, up to the first opcode.  The base
group comes first, then the vector groups, then groups of another description.  A word that a
pattern matches should be parsed as that pattern's opcode.

The patterns of `acset`, `actr` and `adwinit` leave the fields `func1` and `form` open, so that they
share words with other patterns.  Those pairs are listed; every other pair of patterns has
constraints that exclude each other, which is checked family by family.

Main definitions:

* `CoralNpu.parseInstruction` — `ParseInstruction`;
* `CoralNpu.shadowing`, `CoralNpu.Shadowed` — the patterns that share words with one of a stem, and
  the words that they take.

Main results:

* `CoralNpu.parseInstruction_iff` — **a word of a vector pattern is parsed as that pattern unless it
  is shadowed**.
-/

import CoralNpu.CoralNpuBaseIsa
import CoralNpu.CoralNpuVectorFmt
import Mathlib.Data.List.Pairwise

set_option relaxedAutoImplicit false
set_option autoImplicit false

namespace CoralNpu

open BinFmt
open CodeImage (Word)

/-! ### Groups -/

/-- The opcodes; those of the groups tried last are given by number. -/
inductive Opcode where
  | base (op : BaseOpcode)
  | vector (op : VectorOpcode)
  | zbb (index : ℕ)
  deriving DecidableEq

/-- The base group. -/
def baseGroup : List (Pattern Opcode) := coralNpuInst.map (Pattern.map .base)

/-- The families of the vector groups, in the order of the decoders. -/
def vectorGroups : List (List VectorFamily) :=
  [vectorArithInst, vectorConvInst, vectorMemoryInst, vectorMulInst, vectorShiftInst]

/-- The patterns of the vector groups. -/
def vectorPatterns : List (Pattern VectorOpcode) :=
  vectorGroups.flatten.flatMap VectorFamily.patterns

/-- The patterns of a vector group. -/
def vectorGroup (families : List VectorFamily) : List (Pattern Opcode) :=
  families.flatMap fun family => family.patterns.map (Pattern.map .vector)

/-- The groups of the decoders, with those of the bit manipulation extension at the end. -/
def decodeGroups (zbb : List (List (Pattern Opcode))) : List (List (Pattern Opcode)) :=
  baseGroup :: vectorGroups.map vectorGroup ++ zbb

/-- `ParseInstruction`; `kNone` is `none`. -/
def parseInstruction {zbb : List (List (Pattern Opcode))}
    (decoders : Decoders 32 (decodeGroups zbb))
    (instWord : Word) : Option Opcode := decoders.parse instWord

/-! ### Words of several patterns -/

/-- The opcodes tried earlier, or with it, that have a word in common with a pattern of a stem. -/
def shadowing : VectorStem → List BaseOpcode × List VectorStem
  | .acset =>
      ([.auipc, .lb, .lh, .li, .lw, .lbu, .lhu, .addi, .slti, .sltiu, .xori, .ori, .andi, .srai,
        .fence, .fencei], [.vabsd, .vhadd, .vdwconv, .vdup])
  | .actr =>
      ([.auipc, .lb, .lh, .li, .lw, .addi, .slti, .sltiu, .fence, .fencei],
        [.vabsdU, .vhaddU, .vdwconv])
  | .adwinit => ([.auipc, .lb, .li, .addi, .fence], [.vmax, .vhaddR])
  | .vdup | .vdmulh | .vsrans | .vsel => ([], [.acset])
  | .vsransu => ([], [.actr])
  | .vdmulhR | .vsransR => ([], [.adwinit])
  | _ => ([], [])

/-- A word of a stem that a pattern with another opcode matches as well. -/
def Shadowed (stem : VectorStem) (w : Word) : Prop :=
  (∃ q ∈ coralNpuInst, q.opcode ∈ (shadowing stem).1 ∧ q.Matches w) ∨
    ∃ q ∈ vectorPatterns, q.opcode.stem ∈ (shadowing stem).2 ∧ q.Matches w

instance instDecidableShadowed (stem : VectorStem) (w : Word) : Decidable (Shadowed stem w) :=
  inferInstanceAs (Decidable (_ ∨ _))

/-! ### Every other pair of patterns -/

/-- Families and the base group. -/
theorem base_separated : ∀ families ∈ vectorGroups, ∀ family ∈ families, ∀ q ∈ coralNpuInst,
    conflicting family.facts q.constraints = true ∨ q.opcode ∈ (shadowing family.stem).1 := by
  decide +kernel

/-- Families of two groups, the first of which is tried earlier. -/
theorem groups_separated : vectorGroups.Pairwise fun earlier later =>
    ∀ r ∈ earlier, ∀ s ∈ later, r.stem ≠ s.stem ∧ s.stem ∉ (shadowing r.stem).2 ∧
      (conflicting r.facts s.facts = true ∨ r.stem ∈ (shadowing s.stem).2) := by
  decide +kernel

/-- Families of one group. -/
theorem families_separated : ∀ families ∈ vectorGroups, families.Pairwise fun r s =>
    conflicting r.facts s.facts = true ∨
      r.stem ∈ (shadowing s.stem).2 ∧ s.stem ∈ (shadowing r.stem).2 := by
  decide +kernel

/-- No stem shadows itself. -/
theorem not_mem_shadowing_self (stem : VectorStem) : stem ∉ (shadowing stem).2 := by
  rw [shadowing.eq_def]
  split <;> simp

variable {p q : Pattern VectorOpcode} {r s : VectorFamily} {w : Word}

/-- Facts that exclude each other keep the patterns of two families apart. -/
theorem VectorFamily.not_matches_of_conflicting (h : conflicting r.facts s.facts = true)
    (hp : p ∈ r.patterns) (hq : q ∈ s.patterns) (hw : p.Matches w) : ¬ q.Matches w := fun hqw =>
  not_holds_of_conflicting h w (r.facts_hold p hp w hw) (s.facts_hold q hq w hqw)

/-- Patterns of two families that match a word have one opcode, or shadow each other. -/
def Apart (r s : VectorFamily) : Prop :=
  ∀ p ∈ r.patterns, ∀ q ∈ s.patterns, ∀ w : Word, p.Matches w → q.Matches w →
    q.opcode = p.opcode ∨ r.stem ∈ (shadowing s.stem).2 ∧ s.stem ∈ (shadowing r.stem).2

instance : Std.Symm Apart where
  symm _ _ h q hq p hp w hqw hpw :=
    (h p hp q hq w hpw hqw).imp Eq.symm And.symm

theorem apart_of_mem {families : List VectorFamily} (hfamilies : families ∈ vectorGroups)
    (hr : r ∈ families) (hs : s ∈ families) : Apart r s := by
  refine List.Pairwise.forall_of_forall (fun r _ p hp q hq w hpw hqw => ?_) ?_ hr hs
  · exact .inl (r.opcode_eq q hq p hp w hqw hpw)
  · refine (families_separated families hfamilies).imp fun {r s} h p hp q hq w hpw hqw => .inr ?_
    exact h.resolve_left fun hconflict =>
      VectorFamily.not_matches_of_conflicting hconflict hp hq hpw hqw

/-! ### Parsing -/

theorem mem_vectorPatterns : p ∈ vectorPatterns ↔
    ∃ families ∈ vectorGroups, ∃ family ∈ families, p ∈ family.patterns := by
  simp only [vectorPatterns, List.mem_flatMap, List.mem_flatten]
  constructor
  · rintro ⟨family, ⟨families, hfamilies, hfamily⟩, hp⟩
    exact ⟨families, hfamilies, family, hfamily, hp⟩
  · rintro ⟨families, hfamilies, family, hfamily, hp⟩
    exact ⟨family, ⟨families, hfamilies, hfamily⟩, hp⟩

theorem mem_vectorGroup {families : List VectorFamily} {p : Pattern Opcode} :
    p ∈ vectorGroup families ↔
      ∃ family ∈ families, ∃ q ∈ family.patterns, q.map .vector = p := by
  simp [vectorGroup]

section Groups

variable {before behind : List (List VectorFamily)} {families families' : List VectorFamily}

/-- A family of an earlier group. -/
theorem separated_of_before (hgroups : vectorGroups = before ++ families :: behind)
    (hbefore : families' ∈ before) (hs : s ∈ families') (hr : r ∈ families) :
    s.stem ≠ r.stem ∧ (conflicting s.facts r.facts = true ∨ s.stem ∈ (shadowing r.stem).2) := by
  have hpairwise := groups_separated
  rw [hgroups, List.pairwise_append] at hpairwise
  have h := hpairwise.2.2 families' hbefore families List.mem_cons_self s hs r hr
  exact ⟨h.1, h.2.2⟩

/-- A family of a later group. -/
theorem not_mem_shadowing_of_behind (hgroups : vectorGroups = before ++ families :: behind)
    (hbehind : families' ∈ behind) (hs : s ∈ families') (hr : r ∈ families) :
    s.stem ∉ (shadowing r.stem).2 := by
  have hpairwise := groups_separated
  rw [hgroups, List.pairwise_append, List.pairwise_cons] at hpairwise
  exact (hpairwise.2.1.1 families' hbehind r hr s hs).2.1

/-- A word that is not shadowed matches nothing tried earlier, and one opcode of its group. -/
theorem matches_iff_not_shadowed (hgroups : vectorGroups = before ++ families :: behind)
    (hr : r ∈ families) (hp : p ∈ r.patterns) (hpw : p.Matches w) :
    ((∀ earlier ∈ baseGroup :: before.map vectorGroup, ∀ q ∈ earlier, ¬ q.Matches w) ∧
      ∀ q ∈ vectorGroup families, q.Matches w → q.opcode = (p.map Opcode.vector).opcode) ↔
        ¬ Shadowed p.opcode.stem w := by
  have hfamilies : families ∈ vectorGroups := by simp [hgroups]
  rw [r.stem_eq p hp, List.forall_mem_cons, List.forall_mem_map]
  constructor
  · rintro ⟨⟨hbase, hearlier⟩, hgroup⟩
      (⟨q, hq, -, hqw⟩ | ⟨q, hq, hstem, hqw⟩)
    · exact hbase _ (List.mem_map_of_mem hq) hqw
    · obtain ⟨families', hfamilies', s, hs, hq⟩ := mem_vectorPatterns.1 hq
      rw [hgroups, List.mem_append, List.mem_cons] at hfamilies'
      obtain hmem | rfl | hmem := hfamilies'
      · exact hearlier families' hmem _ (mem_vectorGroup.2 ⟨s, hs, q, hq, rfl⟩) hqw
      · have hopcode := hgroup _ (mem_vectorGroup.2 ⟨s, hs, q, hq, rfl⟩) hqw
        have heq : q.opcode = p.opcode := Opcode.vector.inj hopcode
        rw [heq, r.stem_eq p hp] at hstem
        exact not_mem_shadowing_self r.stem hstem
      · rw [s.stem_eq q hq] at hstem
        exact not_mem_shadowing_of_behind hgroups hmem hs hr hstem
  · intro hshadowed
    refine ⟨⟨?_, ?_⟩, ?_⟩
    · intro q hmem hqw
      obtain ⟨q, hq, rfl⟩ := List.mem_map.1 hmem
      obtain hconflict | hop := base_separated families hfamilies r hr q hq
      · exact not_holds_of_conflicting hconflict w (r.facts_hold p hp w hpw) hqw
      · exact hshadowed (.inl ⟨q, hq, hop, hqw⟩)
    · intro earlier hearlier q hmem hqw
      obtain ⟨s, hs, q, hq, rfl⟩ := mem_vectorGroup.1 hmem
      obtain ⟨-, hconflict | hstem⟩ := separated_of_before hgroups hearlier hs hr
      · exact VectorFamily.not_matches_of_conflicting hconflict hq hp hqw hpw
      · refine hshadowed (.inr ⟨q, mem_vectorPatterns.2 ⟨earlier, ?_, s, hs, hq⟩, ?_, hqw⟩)
        · simp [hgroups, hearlier]
        · rwa [s.stem_eq q hq]
    · intro q hmem hqw
      obtain ⟨s, hs, q, hq, rfl⟩ := mem_vectorGroup.1 hmem
      obtain heq | ⟨-, hstem⟩ := apart_of_mem hfamilies hr hs p hp q hq w hpw hqw
      · exact congrArg Opcode.vector heq
      · refine absurd (.inr ⟨q, mem_vectorPatterns.2 ⟨families, hfamilies, s, hs, hq⟩, ?_, hqw⟩)
          hshadowed
        rwa [s.stem_eq q hq]

/-- Opcodes of earlier groups are others. -/
theorem opcode_ne_of_before (hgroups : vectorGroups = before ++ families :: behind)
    (hr : r ∈ families) (hp : p ∈ r.patterns) :
    ∀ earlier ∈ baseGroup :: before.map vectorGroup, ∀ q ∈ earlier,
      q.opcode ≠ (p.map Opcode.vector).opcode := by
  rw [List.forall_mem_cons, List.forall_mem_map]
  constructor
  · intro q hmem heq
    obtain ⟨q, -, rfl⟩ := List.mem_map.1 hmem
    cases heq
  · intro earlier hearlier q hmem heq
    obtain ⟨s, hs, q, hq, rfl⟩ := mem_vectorGroup.1 hmem
    have hopcode : q.opcode = p.opcode := Opcode.vector.inj heq
    refine (separated_of_before hgroups hearlier hs hr).1 ?_
    rw [← s.stem_eq q hq, ← r.stem_eq p hp, hopcode]

end Groups

/-- A stem without others that have words in common with it. -/
theorem not_shadowed_of_shadowing_eq {stem : VectorStem} (h : shadowing stem = ([], []))
    (w : Word) : ¬ Shadowed stem w := by
  rw [Shadowed, h]
  rintro (⟨q, -, hop, -⟩ | ⟨q, -, hstem, -⟩)
  · cases hop
  · cases hstem

/-- The groups tried before the group of a pattern, and those tried behind it. -/
theorem exists_decodeGroups_eq (zbb : List (List (Pattern Opcode))) {p : Pattern VectorOpcode}
    (hp : p ∈ vectorPatterns) : ∃ before families behind, ∃ r ∈ families, p ∈ r.patterns ∧
      vectorGroups = before ++ families :: behind ∧
      decodeGroups zbb = (baseGroup :: before.map vectorGroup) ++
        vectorGroup families :: (behind.map vectorGroup ++ zbb) := by
  obtain ⟨families, hfamilies, r, hr, hp⟩ := mem_vectorPatterns.1 hp
  obtain ⟨before, behind, hgroups⟩ := List.append_of_mem hfamilies
  exact ⟨before, families, behind, r, hr, hp, hgroups, by simp [decodeGroups, hgroups]⟩

/-- A word that is not shadowed is parsed as its pattern. -/
theorem parseInstruction_of_not_shadowed {zbb : List (List (Pattern Opcode))}
    (decoders : Decoders 32 (decodeGroups zbb)) {p : Pattern VectorOpcode} (hp : p ∈ vectorPatterns)
    {w : Word} (hpw : p.Matches w) (h : ¬ Shadowed p.opcode.stem w) :
    parseInstruction decoders w = some (.vector p.opcode) := by
  obtain ⟨before, families, behind, r, hr, hp, hgroups, hdecode⟩ := exists_decodeGroups_eq zbb hp
  obtain ⟨hbefore, honly⟩ := (matches_iff_not_shadowed hgroups hr hp hpw).2 h
  have hmem : p.map Opcode.vector ∈ vectorGroup families := mem_vectorGroup.2 ⟨r, hr, p, hp, rfl⟩
  have hparse : ∀ groups, groups = (baseGroup :: before.map vectorGroup) ++
      vectorGroup families :: (behind.map vectorGroup ++ zbb) → ∀ ds : Decoders 32 groups,
      ds.parse w = some (p.map Opcode.vector).opcode := by
    rintro _ rfl ds
    exact ds.parse_eq_some hbefore hmem hpw honly
  exact hparse _ hdecode decoders

/-- **A word of a vector pattern is parsed as that pattern unless it is shadowed.** -/
theorem parseInstruction_iff (zbb : List (List (Pattern Opcode))) {p : Pattern VectorOpcode}
    (hp : p ∈ vectorPatterns) {w : Word} (hpw : p.Matches w) :
    (∀ decoders : Decoders 32 (decodeGroups zbb),
      parseInstruction decoders w = some (.vector p.opcode)) ↔ ¬ Shadowed p.opcode.stem w := by
  obtain ⟨before, families, behind, r, hr, hp, hgroups, hdecode⟩ := exists_decodeGroups_eq zbb hp
  have hmem : p.map Opcode.vector ∈ vectorGroup families :=
    mem_vectorGroup.2 ⟨r, hr, p, hp, rfl⟩
  change (∀ decoders : Decoders 32 (decodeGroups zbb),
    decoders.parse w = some (p.map Opcode.vector).opcode) ↔ _
  rw [hdecode, Decoders.parse_eq_some_iff hmem hpw (opcode_ne_of_before hgroups hr hp),
    matches_iff_not_shadowed hgroups hr hp hpw]

/-- `vdmulh_b_vv` of the registers `v1` and `v2`. -/
theorem parseInstruction_iff_vdmulh :
    (∀ decoders : Decoders 32 (decodeGroups []), parseInstruction decoders 0x4010800c =
      some (.vector ⟨.vdmulh, some .b, some .vv, false⟩)) ↔ ¬ Shadowed .vdmulh 0x4010800c :=
  parseInstruction_iff [] (p := variant .vdmulh [.eq CoralNPUV2ArgsType.func2 0b01_0000,
    .eq CoralNPUV2ArgsType.func1 0b011] (some .b) .vv false) (by decide +kernel) (by decide +kernel)

/-- A word of `acset` with `func1` and `form` as in `auipc` is parsed as `auipc`. -/
theorem not_parseInstruction_acset : ¬ ∀ p ∈ vectorPatterns, ∀ w : Word, p.Matches w →
    ∀ decoders : Decoders 32 (decodeGroups []),
      parseInstruction decoders w = some (.vector p.opcode) := by
  intro h
  have hauipc : (⟨.base .auipc, [.eq UType.opcode 0b001_0111]⟩ : Pattern Opcode) ∈ baseGroup := by
    decide +kernel
  have hacset : (⟨⟨.acset, none, none, false⟩, [.eq CoralNPUV2ArgsType.func2 0b01_0000,
      .eq CoralNPUV2ArgsType.vs2 0, .eq CoralNPUV2ArgsType.m 0, .eq CoralNPUV2ArgsType.vd 48]⟩ :
      Pattern VectorOpcode) ∈ vectorPatterns := by
    decide +kernel
  let decoders : Decoders 32 ([baseGroup] ++ vectorGroups.map vectorGroup) :=
    Decoders.of (Decoder.preferring ⟨.base .auipc, []⟩) _
  have hparse : decoders.parse 0x40000c17 = _ := h _ hacset 0x40000c17 (by decide) decoders
  obtain ⟨first, hfirst, q, hq, hbase⟩ := decoders.parse_of_earlier
    (List.mem_singleton_self _) hauipc (by decide : Pattern.Matches _ (0x40000c17 : Word))
  obtain rfl := List.mem_singleton.1 hfirst
  obtain ⟨op, -, rfl⟩ := List.mem_map.1 hq
  cases hbase.symm.trans hparse

end CoralNpu
