import Mathlib.Data.List.Basic

/-!
# Labelled transition systems and their guarded runs

A system is a relation between a state, a label and the next state.  A run
follows a list of labels, oldest first.  Restricting a system to the steps that
meet a condition on the state before them gives the guarded runs: the
executions in which no step leaves the condition.

Main results:

- Theorem {lit}`Run.invariant`: what one step preserves, a whole run preserves.
- Theorem {lit}`Run.meeting_congr`: conditions that an invariant makes equivalent.
- Theorem {lit}`Run.snoc_cases`: a nonempty run splits off its last step.
- Theorems {lit}`run_of_execute` and {lit}`meeting_of_execute`: a functional
  step, executed along a list of labels, produces a run of its graph.
-/

namespace Transition

variable {σ Label : Type}

/-- A run of `step` along a list of labels, oldest first. -/
inductive Run (step : σ → Label → σ → Prop) : σ → List Label → σ → Prop
  | nil (s : σ) : Run step s [] s
  | cons {s s' t : σ} {l : Label} {ls : List Label}
      (head : step s l s') (tail : Run step s' ls t) : Run step s (l :: ls) t

/-- The steps of a system that meet a condition in the state before them. -/
def Meeting (step : σ → Label → σ → Prop) (cond : σ → Label → Prop) :
    σ → Label → σ → Prop :=
  fun s l t => step s l t ∧ cond s l

/-- The graph of a functional step; a label the state refuses has no successor. -/
def Graph (step : σ → Label → Option σ) : σ → Label → σ → Prop :=
  fun s l t => step s l = some t

/-- Execute a functional step along a list of labels. -/
def execute (step : σ → Label → Option σ) : σ → List Label → Option σ
  | s, [] => some s
  | s, l :: ls => (step s l).bind fun s' => execute step s' ls

/-- A successful execution is a run of the step's graph. -/
theorem run_of_execute {step : σ → Label → Option σ} {s t : σ} {ls : List Label}
    (h : execute step s ls = some t) : Run (Graph step) s ls t := by
  induction ls generalizing s with
  | nil =>
      simp only [execute, Option.some.injEq] at h
      subst h
      exact Run.nil s
  | cons l ls ih =>
      simp only [execute, Option.bind_eq_some_iff] at h
      rcases h with ⟨s', hstep, htail⟩
      exact Run.cons hstep (ih htail)

/-- A run of a step's graph is what executing the step gives. -/
theorem execute_of_run {step : σ → Label → Option σ} {s t : σ} {ls : List Label}
    (h : Run (Graph step) s ls t) : execute step s ls = some t := by
  induction h with
  | nil s => rfl
  | cons head _ ih => rw [execute, show step _ _ = some _ from head, Option.bind_some, ih]

/-- A functional step that refuses the labels a condition excludes. -/
def guarded (step : σ → Label → Option σ) (cond : σ → Label → Prop)
    [∀ s l, Decidable (cond s l)] : σ → Label → Option σ :=
  fun s l => if cond s l then step s l else none

namespace Run

variable {step : σ → Label → σ → Prop} {s s' t : σ} {ls ms : List Label}

/-- What every step preserves, a whole run preserves. -/
theorem invariant {I : σ → Prop} (hstep : ∀ s l t, I s → step s l t → I t)
    (hrun : Run step s ls t) (hs : I s) : I t := by
  induction hrun with
  | nil s => exact hs
  | cons head _ ih => exact ih (hstep _ _ _ hs head)

/-- Every label of a run is the label of one of its steps. -/
theorem exists_step {l : Label} (hrun : Run step s ls t) (hl : l ∈ ls) :
    ∃ u v, step u l v := by
  induction hrun with
  | nil s => exact absurd hl List.not_mem_nil
  | cons head _ ih =>
      rcases List.mem_cons.mp hl with rfl | hl
      · exact ⟨_, _, head⟩
      · exact ih hl

/-- A run of a system is a run of every system that allows its steps. -/
theorem mono {step' : σ → Label → σ → Prop} (h : ∀ s l t, step s l t → step' s l t)
    (hrun : Run step s ls t) : Run step' s ls t := by
  induction hrun with
  | nil s => exact Run.nil s
  | cons head _ ih => exact Run.cons (h _ _ _ head) ih

/-- Where an invariant makes two conditions equivalent, they have the same guarded runs. -/
theorem meeting_congr {I : σ → Prop} {cond cond' : σ → Label → Prop}
    (hstep : ∀ s l t, I s → step s l t → I t)
    (hcond : ∀ s l t, I s → step s l t → (cond s l ↔ cond' s l)) (hs : I s) :
    Run (Meeting step cond) s ls t ↔ Run (Meeting step cond') s ls t := by
  induction ls generalizing s with
  | nil => constructor <;> rintro ⟨⟩ <;> exact Run.nil _
  | cons l ls ih =>
      constructor
      · rintro (_ | ⟨hhead, htail⟩)
        have hnext := ih (hstep _ _ _ hs hhead.1)
        exact Run.cons ⟨hhead.1, (hcond _ _ _ hs hhead.1).mp hhead.2⟩ (hnext.mp htail)
      · rintro (_ | ⟨hhead, htail⟩)
        have hnext := ih (hstep _ _ _ hs hhead.1)
        exact Run.cons ⟨hhead.1, (hcond _ _ _ hs hhead.1).mpr hhead.2⟩ (hnext.mpr htail)

/-- Runs compose along the concatenation of their labels. -/
theorem append (hleft : Run step s ls s') (hright : Run step s' ms t) :
    Run step s (ls ++ ms) t := by
  induction hleft with
  | nil s => exact hright
  | cons head _ ih => exact Run.cons head (ih hright)

/-- A run over a list with a last label ends with a step under that label. -/
theorem snoc_cases {l : Label} (hrun : Run step s (ls ++ [l]) t) :
    ∃ u, Run step s ls u ∧ step u l t := by
  induction ls generalizing s with
  | nil =>
      cases hrun with
      | cons head tail =>
          cases tail
          exact ⟨s, Run.nil s, head⟩
  | cons m ms ih =>
      cases hrun with
      | cons head tail =>
          rcases ih tail with ⟨u, hu, hlast⟩
          exact ⟨u, Run.cons head hu, hlast⟩

end Run

/-- A successful execution of a guarded step meets the condition throughout. -/
theorem meeting_of_execute {step : σ → Label → Option σ} {cond : σ → Label → Prop}
    [∀ s l, Decidable (cond s l)] {s t : σ} {ls : List Label}
    (h : execute (guarded step cond) s ls = some t) :
    Run (Meeting (Graph step) cond) s ls t := by
  refine (run_of_execute h).mono fun u l v hstep => ?_
  simp only [Graph, guarded, Option.ite_none_right_eq_some] at hstep
  exact ⟨hstep.2, hstep.1⟩

end Transition
