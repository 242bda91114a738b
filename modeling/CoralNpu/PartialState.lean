/-
**Programs over a state that may fail.**

A function of a mutable object that may abort is a program in `StateT σ Option`: it takes a state to
a result and a new state, or to nothing.  Properties of such programs are proved for their smallest
parts and carried to whole programs by the rules of this module.

Main definitions:

* `PartialState.Triple` — partial correctness of a program;
* `PartialState.StepRelation`, `PartialState.Relates` — a reflexive and transitive relation that
  every completed run of a program keeps between its first and its last state;
* `PartialState.Simulates` — two programs run side by side, with equal results and related states;
* `PartialState.Composed` — the programs put together from given parts.

Main results:

* `PartialState.Composed.relates`, `PartialState.Composed.simulates` — a property of the parts is
  one of every program put together from them.
-/

import Mathlib.Logic.Basic

set_option relaxedAutoImplicit false
set_option autoImplicit false

namespace PartialState

variable {σ α β : Type}

/-! ### Runs -/

/-- A sequence completes when both parts do. -/
theorem run_bind_eq_some {m : StateT σ Option α} {f : α → StateT σ Option β} {s : σ}
    {result : β × σ} : (m >>= f).run s = some result ↔
      ∃ a s', m.run s = some (a, s') ∧ (f a).run s' = some result := by
  rw [StateT.run_bind]
  cases h : m.run s with
  | none => simp
  | some r =>
      constructor
      · exact fun hrun => ⟨r.1, r.2, rfl, hrun⟩
      · rintro ⟨a, s', hr, hrun⟩
        cases hr
        exact hrun

theorem run_pure_eq_some {a b : α} {s s' : σ} :
    (pure a : StateT σ Option α).run s = some (b, s') ↔ a = b ∧ s = s' := by
  simp [StateT.run_pure]

/-! ### Partial correctness -/

/-- Every completed run from a state with `pre` ends in a result and a state with `post`. -/
def Triple (pre : σ → Prop) (m : StateT σ Option α) (post : α → σ → Prop) : Prop :=
  ∀ s, pre s → ∀ a s', m.run s = some (a, s') → post a s'

namespace Triple

variable {pre : σ → Prop} {m : StateT σ Option α} {f : α → StateT σ Option β}
  {mid : α → σ → Prop} {post : β → σ → Prop}

theorem pure {a : α} {post : α → σ → Prop} (h : ∀ s, pre s → post a s) :
    Triple pre (Pure.pure a) post := by
  intro s hs b s' hrun
  obtain ⟨rfl, rfl⟩ := run_pure_eq_some.1 hrun
  exact h s hs

theorem bind (hm : Triple pre m mid) (hf : ∀ a, Triple (mid a) (f a) post) :
    Triple pre (m >>= f) post := by
  intro s hs b s'' hrun
  obtain ⟨a, s', hfirst, hsecond⟩ := run_bind_eq_some.1 hrun
  exact hf a s' (hm s hs a s' hfirst) b s'' hsecond

theorem weaken {pre' : σ → Prop} {post post' : α → σ → Prop} (h : Triple pre m post)
    (hpre : ∀ s, pre' s → pre s) (hpost : ∀ a s, post a s → post' a s) : Triple pre' m post' :=
  fun s hs a s' hrun => hpost a s' (h s (hpre s hs) a s' hrun)

/-- An invariant of the body is one of the loop. -/
theorem forM {I : σ → Prop} {xs : List α} {g : α → StateT σ Option Unit}
    (h : ∀ x ∈ xs, Triple I (g x) fun _ => I) : Triple I (xs.forM g) fun _ => I := by
  induction xs with
  | nil => exact pure fun _ hs => hs
  | cons x xs ih =>
      exact bind (h x List.mem_cons_self) fun _ => ih fun y hy => h y (List.mem_cons_of_mem _ hy)

end Triple

/-! ### Step relations -/

/-- A relation between earlier and later states. -/
structure StepRelation (σ : Type) where
  rel : σ → σ → Prop
  refl : ∀ s, rel s s
  trans : ∀ {s s' s''}, rel s s' → rel s' s'' → rel s s''

/-- Every completed run of the program keeps the relation. -/
def Relates (R : StepRelation σ) (m : StateT σ Option α) : Prop :=
  ∀ s a s', m.run s = some (a, s') → R.rel s s'

namespace Relates

variable {R : StepRelation σ} {m : StateT σ Option α} {f : α → StateT σ Option β}

theorem pure (a : α) : Relates R (Pure.pure a) := by
  intro s b s' hrun
  obtain ⟨-, rfl⟩ := run_pure_eq_some.1 hrun
  exact R.refl s

theorem bind (hm : Relates R m) (hf : ∀ a, Relates R (f a)) : Relates R (m >>= f) := by
  intro s b s'' hrun
  obtain ⟨a, s', hfirst, hsecond⟩ := run_bind_eq_some.1 hrun
  exact R.trans (hm s a s' hfirst) (hf a s' b s'' hsecond)

theorem failure : Relates R (failure : StateT σ Option α) := by
  intro s a s' hrun
  exact absurd hrun (Option.some_ne_none _).symm

end Relates

/-! ### Two runs -/

/-- Two optional outcomes agree: both are missing, or both are there with equal results and related
states. -/
inductive OutcomesAgree (S : σ → σ → Prop) : Option (α × σ) → Option (α × σ) → Prop where
  | none : OutcomesAgree S none none
  | some {a : α} {s t : σ} : S s t → OutcomesAgree S (some (a, s)) (some (a, t))

/-- Run side by side from states related by `S`, two programs have agreeing outcomes, with states
related by `S'`. -/
def Simulates (S S' : σ → σ → Prop) (m m' : StateT σ Option α) : Prop :=
  ∀ s t, S s t → OutcomesAgree S' (m.run s) (m'.run t)

theorem OutcomesAgree.weaken {S S' : σ → σ → Prop} {x y : Option (α × σ)}
    (h : OutcomesAgree S x y) (hS : ∀ s t, S s t → S' s t) : OutcomesAgree S' x y := by
  cases h with
  | none => exact .none
  | some hst => exact .some (hS _ _ hst)

namespace Simulates

variable {S S' S'' : σ → σ → Prop} {m m' : StateT σ Option α} {f f' : α → StateT σ Option β}

theorem pure (a : α) : Simulates S S (Pure.pure a) (Pure.pure a) :=
  fun _ _ h => OutcomesAgree.some h

theorem bind (hm : Simulates S S' m m') (hf : ∀ a, Simulates S' S'' (f a) (f' a)) :
    Simulates S S'' (m >>= f) (m' >>= f') := by
  intro s t h
  rw [StateT.run_bind, StateT.run_bind]
  generalize hs : m.run s = x, ht : m'.run t = y
  have hxy : OutcomesAgree S' x y := hs ▸ ht ▸ hm s t h
  cases hxy with
  | none => exact OutcomesAgree.none
  | some hst => exact hf _ _ _ hst

theorem failure : Simulates S S' (failure : StateT σ Option α) (Alternative.failure) :=
  fun _ _ _ => OutcomesAgree.none

/-- Two updates that keep the states related. -/
theorem ofModify {g : σ → σ} (h : ∀ s t, S s t → S' (g s) (g t)) :
    Simulates S S' (modify g : StateT σ Option Unit) (modify g) :=
  fun s t hst => OutcomesAgree.some (h s t hst)

theorem weaken {R : σ → σ → Prop} (h : Simulates S S' m m') (hR : ∀ s t, R s t → S s t) :
    Simulates R S' m m' :=
  fun s t hst => h s t (hR s t hst)

end Simulates

/-! ### Programs put together from parts -/

/-- The programs put together from the parts in `part` by sequencing. -/
inductive Composed (part : ∀ α : Type, StateT σ Option α → Prop) :
    ∀ α : Type, StateT σ Option α → Prop where
  | part {α : Type} {m : StateT σ Option α} : part α m → Composed part α m
  | pure {α : Type} (a : α) : Composed part α (pure a)
  | failure {α : Type} : Composed part α failure
  | bind {α β : Type} {m : StateT σ Option α} {f : α → StateT σ Option β} :
      Composed part α m → (∀ a, Composed part β (f a)) → Composed part β (m >>= f)

namespace Composed

variable {part : ∀ α : Type, StateT σ Option α → Prop}

theorem forM {xs : List α} {g : α → StateT σ Option Unit} (h : ∀ x, Composed part Unit (g x)) :
    Composed part Unit (xs.forM g) := by
  induction xs with
  | nil => exact pure ()
  | cons x xs ih =>
      exact bind (h x) fun _ => ih

theorem ite {p : Prop} [Decidable p] {m m' : StateT σ Option α} (h : Composed part α m)
    (h' : Composed part α m') : Composed part α (if p then m else m') := by
  split
  · exact h
  · exact h'

/-- Parts that are themselves put together from smaller parts. -/
theorem flatten {part' : ∀ α : Type, StateT σ Option α → Prop}
    (hpart : ∀ (α : Type) (m : StateT σ Option α), part α m → Composed part' α m)
    {m : StateT σ Option α} (h : Composed part α m) : Composed part' α m := by
  induction h with
  | part hm => exact hpart _ _ hm
  | pure a => exact pure a
  | failure => exact failure
  | bind _ _ ihm ihf => exact bind ihm ihf

/-- **A relation kept by the parts is kept by every program put together from them.** -/
theorem relates {R : StepRelation σ}
    (hpart : ∀ (α : Type) (m : StateT σ Option α), part α m → Relates R m)
    {m : StateT σ Option α} (h : Composed part α m) : Relates R m := by
  induction h with
  | part hm => exact hpart _ _ hm
  | pure a => exact Relates.pure a
  | failure => exact Relates.failure
  | bind _ _ ihm ihf => exact Relates.bind ihm ihf

/-- **An invariant of the parts is one of every program put together from them.** -/
theorem invariant {I : σ → Prop}
    (hpart : ∀ (α : Type) (m : StateT σ Option α), part α m → Triple I m fun _ => I)
    {m : StateT σ Option α} (h : Composed part α m) : Triple I m fun _ => I := by
  induction h with
  | part hm => exact hpart _ _ hm
  | pure a => exact Triple.pure fun _ hs => hs
  | failure => exact fun s _ a s' hrun => absurd hrun (Option.some_ne_none _).symm
  | bind _ _ ihm ihf => exact Triple.bind ihm ihf

/-- **Parts that simulate themselves make programs that do.** -/
theorem simulates {S : σ → σ → Prop}
    (hpart : ∀ (α : Type) (m : StateT σ Option α), part α m → Simulates S S m m)
    {m : StateT σ Option α} (h : Composed part α m) : Simulates S S m m := by
  induction h with
  | part hm => exact hpart _ _ hm
  | pure a => exact Simulates.pure a
  | failure => exact Simulates.failure
  | bind _ _ ihm ihf => exact Simulates.bind ihm ihf

end Composed

end PartialState
