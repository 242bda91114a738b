/-
**Traces of a labelled transition system.**

A system takes steps, and every step shows an event: a call with its reply, for example.  A trace is
the list of events of a run.  What holds of every step is carried to whole traces by the rules of
this module.

Main definitions:

* `Traces.Trace` — the events of a run from one state to another;
* `Traces.machine` — the system of a function that answers inputs, and `Traces.run`, its run on a
  list.

Main results:

* `Traces.Trace.history` — an invariant of the state and the events so far;
* `Traces.Trace.simulate` — a simulation of the steps is one of the traces;
* `Traces.Trace.project` — **the events that concern one component are a trace of that component**.
-/

import Mathlib.Data.List.Basic

set_option relaxedAutoImplicit false
set_option autoImplicit false

namespace Traces

variable {σ τ ε ε' ι ο : Type}

/-- The events of a run. -/
inductive Trace (step : σ → ε → σ → Prop) : σ → List ε → σ → Prop
  | nil (s : σ) : Trace step s [] s
  | cons {s s' s'' : σ} {e : ε} {es : List ε} (h : step s e s') (rest : Trace step s' es s'') :
      Trace step s (e :: es) s''

namespace Trace

variable {step : σ → ε → σ → Prop} {step' : τ → ε' → τ → Prop}

theorem append {s s' s'' : σ} {es es' : List ε} (h : Trace step s es s')
    (h' : Trace step s' es' s'') : Trace step s (es ++ es') s'' := by
  induction h with
  | nil s => exact h'
  | cons hstep _ ih => exact .cons hstep (ih h')

/-- A trace in two parts. -/
theorem of_append {s s'' : σ} {es es' : List ε} (h : Trace step s (es ++ es') s'') :
    ∃ s', Trace step s es s' ∧ Trace step s' es' s'' := by
  induction es generalizing s with
  | nil => exact ⟨s, .nil s, h⟩
  | cons e es ih =>
      cases h with
      | cons hstep hrest =>
          obtain ⟨s', hfront, hback⟩ := ih hrest
          exact ⟨s', .cons hstep hfront, hback⟩

theorem history_append {I : List ε → σ → Prop} {s s' : σ} {es : List ε} (h : Trace step s es s')
    (hstep : ∀ past s e s', I past s → step s e s' → I (past ++ [e]) s') (past : List ε)
    (hs : I past s) : I (past ++ es) s' := by
  induction h generalizing past with
  | nil s => rwa [List.append_nil]
  | cons hfirst _ ih =>
      have hnext := ih (past ++ [_]) (hstep _ _ _ _ hs hfirst)
      rwa [List.append_assoc, List.singleton_append] at hnext

/-- **An invariant of the state and the events so far** holds at the end of every trace. -/
theorem history {I : List ε → σ → Prop} {s s' : σ} {es : List ε} (h : Trace step s es s')
    (hstep : ∀ past s e s', I past s → step s e s' → I (past ++ [e]) s') (hs : I [] s) : I es s' :=
  h.history_append hstep [] hs

/-- An invariant of the state. -/
theorem invariant {I : σ → Prop} {s s' : σ} {es : List ε} (h : Trace step s es s')
    (hstep : ∀ s e s', I s → step s e s' → I s') (hs : I s) : I s' :=
  h.history (I := fun _ s => I s) (fun _ => hstep) hs

/-- **A simulation**: every step from a state that is related to another is matched there, with the
same event. -/
theorem simulate {step' : τ → ε → τ → Prop} {R : σ → τ → Prop} {s s' : σ} {es : List ε}
    (h : Trace step s es s')
    (hstep : ∀ s t e s', R s t → step s e s' → ∃ t', step' t e t' ∧ R s' t') {t : τ} (hst : R s t) :
    ∃ t', Trace step' t es t' ∧ R s' t' := by
  induction h generalizing t with
  | nil s => exact ⟨t, .nil t, hst⟩
  | cons hfirst _ ih =>
      obtain ⟨t', hmatch, hrelated⟩ := hstep _ _ _ _ hst hfirst
      obtain ⟨t'', hrest, hend⟩ := ih hrelated
      exact ⟨t'', .cons hmatch hrest, hend⟩

/-- What a step of the system is to a component: a step of the component, or nothing. -/
def Projects (step : σ → ε → σ → Prop) (step' : τ → ε' → τ → Prop) (view : σ → τ)
    (concerns : ε → Option ε') (Ok : σ → List ε → Prop) : Prop :=
  ∀ s e s' es, Ok s (e :: es) → step s e s' → Ok s' es ∧
    match concerns e with
    | none => view s' = view s
    | some e' => step' (view s) e' (view s')

/-- **The events that concern a component are a trace of it.**  The condition on the state and the
events to come is one that every step hands on. -/
theorem project {view : σ → τ} {concerns : ε → Option ε'} {Ok : σ → List ε → Prop} {s s' : σ}
    {es : List ε} (h : Trace step s es s') (hstep : Projects step step' view concerns Ok)
    (hok : Ok s es) : Trace step' (view s) (es.filterMap concerns) (view s') := by
  induction h with
  | nil s => exact .nil _
  | @cons s s' s'' e es hfirst _ ih =>
      obtain ⟨hok', hview⟩ := hstep s e s' es hok hfirst
      cases hconcerns : concerns e with
      | none =>
          rw [hconcerns] at hview
          rw [List.filterMap_cons_none hconcerns, ← hview]
          exact ih hok'
      | some e' =>
          rw [hconcerns] at hview
          rw [List.filterMap_cons_some hconcerns]
          exact .cons hview (ih hok')

end Trace

/-! ### Machines -/

/-- The system of a function that answers inputs; an event is an input with its answer. -/
def machine (f : ι → σ → ο × σ) (s : σ) (e : ι × ο) (s' : σ) : Prop := f e.1 s = (e.2, s')

/-- The run on a list of inputs: the events, and the state behind them. -/
def run (f : ι → σ → ο × σ) : List ι → σ → List (ι × ο) × σ
  | [], s => ([], s)
  | i :: is, s =>
      let (o, s') := f i s
      let (es, s'') := run f is s'
      ((i, o) :: es, s'')

/-- The events of a run are a trace. -/
theorem trace_run (f : ι → σ → ο × σ) (is : List ι) (s : σ) :
    Trace (machine f) s (run f is s).1 (run f is s).2 := by
  induction is generalizing s with
  | nil => exact .nil s
  | cons i is ih => exact .cons (show machine f s (i, (f i s).1) (f i s).2 from rfl) (ih (f i s).2)

@[simp] theorem map_fst_run (f : ι → σ → ο × σ) (is : List ι) (s : σ) :
    (run f is s).1.map Prod.fst = is := by
  induction is generalizing s with
  | nil => rfl
  | cons i is ih => exact congrArg (i :: ·) (ih (f i s).2)

end Traces
