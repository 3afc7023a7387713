import DemoEstate.Library.Transition

/-!
# Simulating one system in another

A system is simulated in a second one by a view of its states: every step either leaves the view
as it is, or moves the view by one step of the second system.  A run then has a run of the second
system beside it, and what holds of all runs there holds of the views.

Main results:

- Theorem {lit}`Simulates.run`: the views along a run follow a run of the second system.
- Theorem {lit}`Simulates.view`: an invariant of the second system holds of the views.
-/

namespace Transition

variable {σ τ Label Event : Type}

/-- Where an invariant holds, a step keeps it, and moves the view of the state as the event it
shows says; a step that shows nothing leaves the view alone. -/
structure Simulates (step : σ → Label → σ → Prop) (spec : τ → Event → τ → Prop) (inv : σ → Prop)
    (view : σ → τ) (shows : σ → Label → Option Event) : Prop where
  keeps : ∀ s l t, inv s → step s l t → inv t
  silent : ∀ s l t, inv s → step s l t → shows s l = none → view t = view s
  event : ∀ s l t e, inv s → step s l t → shows s l = some e → spec (view s) e (view t)

namespace Simulates

variable {step : σ → Label → σ → Prop} {spec : τ → Event → τ → Prop} {inv : σ → Prop}
  {seen : σ → τ} {shows : σ → Label → Option Event} {s t : σ} {ls : List Label}

/-- The views along a run follow a run of the second system. -/
theorem run (h : Simulates step spec inv seen shows) (hrun : Run step s ls t) (hs : inv s) :
    ∃ events, Run spec (seen s) events (seen t) := by
  induction hrun with
  | nil s => exact ⟨[], Run.nil (seen s)⟩
  | cons head _ ih =>
      rename_i l _ _
      rcases ih (h.keeps _ _ _ hs head) with ⟨events, htail⟩
      cases hshows : shows _ l with
      | none =>
          rw [h.silent _ _ _ hs head hshows] at htail
          exact ⟨events, htail⟩
      | some e => exact ⟨e :: events, Run.cons (h.event _ _ _ _ hs head hshows) htail⟩

/-- The invariant holds along a run. -/
theorem inv_of_run (h : Simulates step spec inv seen shows) (hrun : Run step s ls t)
    (hs : inv s) : inv t :=
  hrun.invariant h.keeps hs

/-- An invariant of the second system holds of the views. -/
theorem view (h : Simulates step spec inv seen shows) {good : τ → Prop}
    (hgood : ∀ u e v, good u → spec u e v → good v) (hrun : Run step s ls t) (hs : inv s)
    (hseen : good (seen s)) : good (seen t) := by
  rcases h.run hrun hs with ⟨_, hevents⟩
  exact hevents.invariant hgood hseen

end Simulates

end Transition
