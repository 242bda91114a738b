/-
**Ordered rule lists decided by their first matching rule.**

A list of rules is searched from the front; the first rule whose guard matches the request gives
the answer, and a request no rule matches is refused.  Access-control lists, routing tables and
memory maps are decided this way.

The order matters as soon as two rules match one request, so the decision is compared with the
order-free reading, *some matching rule grants the request*.

Main definitions:

* `FirstMatch.decision` — the answer of the first matching rule;
* `FirstMatch.Decides` — the first rule that matches;
* `FirstMatch.Permitted` — some matching rule grants the request;
* `FirstMatch.Shadowed` — the first matching rule refuses what a later matching rule grants.

Main results:

* `FirstMatch.decision_iff_decides` — a request is granted if the rule that decides it grants it;
* `FirstMatch.decision_iff_permitted_iff` — the two readings agree **exactly** when no rule is
  shadowed;
* `FirstMatch.decision_append_of_true` — appending rules never withdraws a grant;
* `FirstMatch.decision_of_decision` — a decision for one request carries over to a request that
  matches more rules, when the rules matching the two agree;
* `FirstMatch.lookup_of_nodup`, `FirstMatch.nodup_of_distinctFrom` — every entry of a table with
  distinct names is found, and a check that numbers are distinct which looks at each once.
-/

import Mathlib.Data.List.Basic

set_option relaxedAutoImplicit false
set_option autoImplicit false

namespace FirstMatch

variable {ρ : Type*} {guard guard' grants : ρ → Bool}

/-- The answer of the first rule whose guard matches; `false` when there is none. -/
def decision (guard grants : ρ → Bool) : List ρ → Bool
  | [] => false
  | r :: rs => if guard r then grants r else decision guard grants rs

/-- **The order-free reading**: some matching rule grants the request. -/
def Permitted (guard grants : ρ → Bool) (rules : List ρ) : Prop :=
  ∃ r ∈ rules, guard r = true ∧ grants r = true

/-- The first matching rule refuses, and a rule behind it would have granted. -/
def Shadowed (guard grants : ρ → Bool) (rules : List ρ) : Prop :=
  ∃ before r behind, rules = before ++ r :: behind ∧ (∀ q ∈ before, guard q = false) ∧
    guard r = true ∧ grants r = false ∧ Permitted guard grants behind

/-- This rule is the first that matches. -/
def Decides (guard : ρ → Bool) (rules : List ρ) (r : ρ) : Prop :=
  ∃ before behind, rules = before ++ r :: behind ∧ (∀ q ∈ before, guard q = false) ∧ guard r = true

@[simp] theorem decision_nil : decision guard grants [] = false := rfl

theorem decision_cons (r : ρ) (rs : List ρ) :
    decision guard grants (r :: rs) = if guard r then grants r else decision guard grants rs := rfl

@[simp] theorem not_permitted_nil : ¬ Permitted guard grants [] := by
  simp [Permitted]

theorem permitted_cons (r : ρ) (rs : List ρ) :
    Permitted guard grants (r :: rs) ↔
      (guard r = true ∧ grants r = true) ∨ Permitted guard grants rs := by
  simp [Permitted]

/-- What the first match grants, some rule grants. -/
theorem permitted_of_decision {rules : List ρ} (h : decision guard grants rules = true) :
    Permitted guard grants rules := by
  induction rules with
  | nil => simp at h
  | cons r rs ih =>
      rw [permitted_cons]
      by_cases hr : guard r = true
      · rw [decision_cons, if_pos hr] at h
        exact Or.inl ⟨hr, h⟩
      · rw [decision_cons, if_neg hr] at h
        exact Or.inr (ih h)

/-- No rule matches, no decision is positive. -/
theorem decision_append_of_unmatched {before rules : List ρ}
    (h : ∀ q ∈ before, guard q = false) :
    decision guard grants (before ++ rules) = decision guard grants rules := by
  induction before with
  | nil => rfl
  | cons q before ih =>
      have hq : guard q = false := h q (List.mem_cons_self ..)
      rw [List.cons_append, decision_cons, if_neg (by simp [hq])]
      exact ih fun p hp => h p (List.mem_cons_of_mem q hp)

/-- Rules behind a matching one decide nothing. -/
theorem decision_append_of_matched {rules : List ρ} (more : List ρ)
    (h : ∃ r ∈ rules, guard r = true) :
    decision guard grants (rules ++ more) = decision guard grants rules := by
  induction rules with
  | nil => simp at h
  | cons r rs ih =>
      rw [List.cons_append, decision_cons, decision_cons]
      by_cases hr : guard r = true
      · rw [if_pos hr, if_pos hr]
      · rw [if_neg hr, if_neg hr]
        obtain ⟨r', hmem, hr'⟩ := h
        rcases List.mem_cons.1 hmem with rfl | hmem
        · exact absurd hr' hr
        · exact ih ⟨r', hmem, hr'⟩

/-- **A request is granted if the rule that decides it does.** -/
theorem decision_iff_decides {rules : List ρ} :
    decision guard grants rules = true ↔ ∃ r, Decides guard rules r ∧ grants r = true := by
  constructor
  · intro h
    induction rules with
    | nil => simp at h
    | cons r rs ih =>
        by_cases hr : guard r = true
        · rw [decision_cons, if_pos hr] at h
          exact ⟨r, ⟨[], rs, rfl, by simp, hr⟩, h⟩
        · rw [decision_cons, if_neg hr] at h
          obtain ⟨q, ⟨before, behind, rfl, hbefore, hq⟩, hgrant⟩ := ih h
          refine ⟨q, ⟨r :: before, behind, rfl, fun p hp => ?_, hq⟩, hgrant⟩
          rcases List.mem_cons.1 hp with rfl | hp
          · simpa using hr
          · exact hbefore p hp
  · rintro ⟨r, ⟨before, behind, rfl, hbefore, hr⟩, hgrant⟩
    rw [decision_append_of_unmatched hbefore, decision_cons, if_pos hr, hgrant]

/-- A shadowed list refuses a request that some rule grants. -/
theorem decision_of_shadowed {rules : List ρ} (h : Shadowed guard grants rules) :
    decision guard grants rules = false ∧ Permitted guard grants rules := by
  obtain ⟨before, r, behind, rfl, hbefore, hr, hrefuse, q, hq, hgq⟩ := h
  constructor
  · rw [decision_append_of_unmatched hbefore, decision_cons, if_pos hr, hrefuse]
  · exact ⟨q, by simp [hq], hgq⟩

/-- When some rule grants the request and the list still refuses it, it is shadowed. -/
theorem shadowed_of_permitted {rules : List ρ} (hp : Permitted guard grants rules)
    (hd : decision guard grants rules = false) : Shadowed guard grants rules := by
  induction rules with
  | nil => exact absurd hp not_permitted_nil
  | cons r rs ih =>
      by_cases hr : guard r = true
      · -- `r` is the first match, so it refuses and the granting rule is behind it
        rw [decision_cons, if_pos hr] at hd
        rcases (permitted_cons r rs).1 hp with ⟨-, hgrant⟩ | hbehind
        · rw [hd] at hgrant
          exact absurd hgrant (by decide)
        · exact ⟨[], r, rs, rfl, by simp, hr, hd, hbehind⟩
      · have hr' : guard r = false := by simpa using hr
        rw [decision_cons, if_neg hr] at hd
        have hp' : Permitted guard grants rs := by
          rcases (permitted_cons r rs).1 hp with ⟨hg, -⟩ | hrest
          · exact absurd hg hr
          · exact hrest
        obtain ⟨before, q, behind, rfl, hbefore, hrest⟩ := ih hp' hd
        refine ⟨r :: before, q, behind, rfl, ?_, hrest⟩
        intro p hp
        rcases List.mem_cons.1 hp with rfl | hp
        · exact hr'
        · exact hbefore p hp

/-- **The first match and the order-free reading agree exactly when nothing is shadowed.** -/
theorem decision_iff_permitted_iff {rules : List ρ} :
    (decision guard grants rules = true ↔ Permitted guard grants rules) ↔
      ¬ Shadowed guard grants rules := by
  constructor
  · intro h hs
    obtain ⟨hd, hp⟩ := decision_of_shadowed hs
    rw [h.2 hp] at hd
    exact absurd hd (by decide)
  · intro hs
    refine ⟨permitted_of_decision, fun hp => ?_⟩
    by_contra hd
    exact hs (shadowed_of_permitted hp (by simpa using hd))

/-- **Appending rules never withdraws a grant.** -/
theorem decision_append_of_true {rules : List ρ} (more : List ρ)
    (h : decision guard grants rules = true) :
    decision guard grants (rules ++ more) = true := by
  induction rules with
  | nil => simp at h
  | cons r rs ih =>
      rw [List.cons_append, decision_cons]
      by_cases hr : guard r = true
      · rw [decision_cons, if_pos hr] at h
        rw [if_pos hr, h]
      · rw [decision_cons, if_neg hr] at h
        rw [if_neg hr]
        exact ih h

/-- A granted request carries over to a request that matches at least the same rules, when every
rule matching the second grants once a rule matching the first does. -/
theorem decision_of_decision {rules : List ρ} (hd : decision guard grants rules = true)
    (hsub : ∀ r ∈ rules, guard r = true → guard' r = true)
    (hagree : ∀ r ∈ rules, ∀ r' ∈ rules, guard r = true → guard' r' = true →
      grants r = true → grants r' = true) :
    decision guard' grants rules = true := by
  obtain ⟨r, hr, hguard, hgrant⟩ := permitted_of_decision hd
  have hperm : Permitted guard' grants rules := ⟨r, hr, hsub r hr hguard, hgrant⟩
  by_contra hneg
  -- a refusal would come from a matching rule, which has to agree with `r`
  obtain ⟨before, q, behind, hrules, -, hq, hrefuse, -⟩ :=
    shadowed_of_permitted hperm (by simpa using hneg)
  have hqmem : q ∈ rules := by rw [hrules]; simp
  have := hagree r hr q hqmem hguard hq hgrant
  rw [hrefuse] at this
  exact absurd this (by decide)

/-! ### Tables -/

/-- Every entry of a table with distinct names is found. -/
theorem lookup_of_nodup {α β : Type*} [BEq α] [LawfulBEq α] {table : List (α × β)}
    (h : (table.map Prod.fst).Nodup) {e : α × β} (he : e ∈ table) :
    table.lookup e.1 = some e.2 := by
  induction table with
  | nil => cases he
  | cons e' table ih =>
      rw [List.map_cons, List.nodup_cons] at h
      rcases List.mem_cons.1 he with rfl | hmem
      · exact List.lookup_cons_self
      · have hne : (e.1 == e'.1) = false :=
          beq_false_of_ne fun heq => h.1 (heq ▸ List.mem_map_of_mem hmem)
        rw [List.lookup_cons, hne]
        exact ih h.2 hmem

/-- No number twice, and none of those in `seen`, which are the bits that are set. -/
def distinctFrom : ℕ → List ℕ → Bool
  | _, [] => true
  | seen, k :: ks => !seen.testBit k && distinctFrom (seen ||| 1 <<< k) ks

theorem nodup_of_distinctFrom {seen : ℕ} {ks : List ℕ} (h : distinctFrom seen ks = true) :
    ks.Nodup ∧ ∀ k ∈ ks, seen.testBit k = false := by
  induction ks generalizing seen with
  | nil => exact ⟨List.nodup_nil, fun _ hk => absurd hk List.not_mem_nil⟩
  | cons k ks ih =>
      rw [distinctFrom, Bool.and_eq_true, Bool.not_eq_true'] at h
      obtain ⟨hnodup, hseen⟩ := ih h.2
      have hrest : ∀ j ∈ ks, seen.testBit j = false ∧ j ≠ k := by
        intro j hj
        have hbit := hseen j hj
        rw [Nat.testBit_or, Bool.or_eq_false_iff] at hbit
        refine ⟨hbit.1, ?_⟩
        rintro rfl
        simp [Nat.one_shiftLeft] at hbit
      exact ⟨List.nodup_cons.2 ⟨fun hk => (hrest k hk).2 rfl, hnodup⟩,
        List.forall_mem_cons.2 ⟨h.1, fun j hj => (hrest j hj).1⟩⟩

end FirstMatch
