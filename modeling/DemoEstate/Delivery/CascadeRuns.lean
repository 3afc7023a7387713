import DemoEstate.Library.Transition
import DemoEstate.Delivery.Cascade

/-!
# Runs of the cascade under concurrent start and heal

A tick computes its due list in one critical section and acts on it in later
transitions.  This module states what a run of the shell owes its operator and
when it delivers: no {lit}`start` may enter and no {lit}`heal` may return between
a tick's due list and the last step it fires from that list, and no
{lit}`heal` may return over a cascade that was armed again.

Main results:

- Theorem {lit}`inv_step`: one transition that meets the condition preserves
  the invariant of the shell.
- Theorem {lit}`orderly_of_calm`: every run of such transitions is orderly.
- Theorem {lit}`not_orderly_heal_during_tick`: a {lit}`heal` inside a tick is
  followed by a toggle of the run it stopped.
-/

namespace DemoEstate
namespace Delivery

open Transition

/-! ## What a run owes its operator -/

/-- A `heal` call has returned and no `start` followed it; events are newest first. -/
def silenced : List Event → Bool
  | [] => false
  | .started _ :: _ => false
  | .healReturned :: _ => true
  | _ :: es => silenced es

/-- No step's toggle was sent while silenced. -/
def quiet : List Event → Bool
  | [] => true
  | .toggled _ _ :: es => !silenced es && quiet es
  | _ :: es => quiet es

/-- The time of the last `start` and the events since. -/
def currentRun : List Event → Option (ℚ × List Event)
  | [] => none
  | .started t :: _ => some (t, [])
  | e :: es => (currentRun es).map fun r => (r.1, e :: r.2)

/-- The toggle of a recorded step was sent in the current run, after its delay. -/
def SentInRun (tl : Timeline) (t₀ : ℚ) (es : List Event) (k : StepKey) : Prop :=
  ∃ step t, tl.steps[k.1]? = some step ∧ Event.toggled k t ∈ es ∧ t₀ + tl.scaledDelay step ≤ t

/-- In a run opened by `start`, every recorded step was sent in that run, after its delay. -/
def FiredInRun (tl : Timeline) (s : Shell) : Prop :=
  ∀ t₀ es, currentRun s.events = some (t₀, es) → ∀ e ∈ s.cascade.fired, SentInRun tl t₀ es e.1

/-- Healed means quiet, and fired means sent in this run and on time. -/
def Orderly (tl : Timeline) (s : Shell) : Prop :=
  quiet s.events = true ∧ FiredInRun tl s

/-! ## The condition on a run -/

/-- The steps the scheduler has found due and not yet sent. -/
def Scheduler.pending : Scheduler → List (StepKey × CascadeStep)
  | .sleeping => []
  | .firing due => due
  | .recording _ due => due
  | .saving due => due

/-- The step the scheduler has sent and not yet recorded. -/
def Scheduler.unrecorded : Scheduler → Option (StepKey × CascadeStep)
  | .recording p _ => some p
  | _ => none

/-- The critical section of `start` finds no unsent and no unrecorded step; the
return of `heal` finds no unsent one and the cascade not armed again. -/
def Calm (s : Shell) : Label → Prop
  | .startLock _ => s.scheduler.pending = [] ∧ s.scheduler.unrecorded = none
  | .healSave _ => s.scheduler.pending = [] ∧ s.cascade.active = false
  | _ => True

instance (s : Shell) (l : Label) : Decidable (Calm s l) :=
  match l with
  | .startLock _ =>
      inferInstanceAs (Decidable (s.scheduler.pending = [] ∧ s.scheduler.unrecorded = none))
  | .healSave _ =>
      inferInstanceAs (Decidable (s.scheduler.pending = [] ∧ s.cascade.active = false))
  | .clock _ | .tickDue | .fireToggle | .fireRaise | .fireRecord | .fireSave | .tickDone
  | .startSave _ | .healLock _ | .healToggle _ | .healRaise _ => .isTrue trivial

/-! ## The invariant -/

/-- What every calm transition preserves. -/
structure Inv (tl : Timeline) (s : Shell) : Prop where
  quiet_events : quiet s.events = true
  fired_sent : FiredInRun tl s
  silenced_calm : silenced s.events = true →
    s.cascade.active = false ∧ s.scheduler.pending = []
  armed_at : ∀ t₀ es, currentRun s.events = some (t₀, es) →
    s.cascade.active = true → s.cascade.startedAt = some t₀
  pending_due : ∀ t₀ es, currentRun s.events = some (t₀, es) →
    ∀ p ∈ s.scheduler.pending, tl.steps[p.1.1]? = some p.2 ∧ t₀ + tl.scaledDelay p.2 ≤ s.now
  unrecorded_sent : ∀ t₀ es, currentRun s.events = some (t₀, es) →
    ∀ p, s.scheduler.unrecorded = some p → SentInRun tl t₀ es p.1

theorem SentInRun.cons {tl : Timeline} {t₀ : ℚ} {es : List Event} {k : StepKey}
    (h : SentInRun tl t₀ es k) (e : Event) : SentInRun tl t₀ (e :: es) k := by
  rcases h with ⟨step, t, hstep, hmem, hdelay⟩
  exact ⟨step, t, hstep, List.mem_cons_of_mem e hmem, hdelay⟩

/-- An event that is no `start` extends the current run. -/
theorem currentRun_cons {e : Event} {es : List Event} {t₀ : ℚ} {run : List Event}
    (he : ∀ t, e ≠ .started t) (h : currentRun (e :: es) = some (t₀, run)) :
    ∃ rest, currentRun es = some (t₀, rest) ∧ run = e :: rest := by
  cases e with
  | started t => exact absurd rfl (he t)
  | healReturned | toggled | healSent =>
      simp only [currentRun, Option.map_eq_some_iff, Prod.mk.injEq] at h
      rcases h with ⟨⟨t, rest⟩, hrest, rfl, rfl⟩
      exact ⟨rest, hrest, rfl⟩

/-- A freshly booted shell satisfies the invariant. -/
theorem inv_boot (tl : Timeline) (now : ℚ) (c : Cascade) (file : Option Cascade) :
    Inv tl (Shell.boot now c file) where
  quiet_events := rfl
  fired_sent := by
    intro t₀ es h
    exact absurd h (by simp [Shell.boot, currentRun])
  silenced_calm := by
    intro h
    exact absurd h (by simp [Shell.boot, silenced])
  armed_at := by
    intro t₀ es h
    exact absurd h (by simp [Shell.boot, currentRun])
  pending_due := by
    intro t₀ es h
    exact absurd h (by simp [Shell.boot, currentRun])
  unrecorded_sent := by
    intro t₀ es h
    exact absurd h (by simp [Shell.boot, currentRun])

/-! ## One transition -/

variable {tl : Timeline} {s : Shell}

/-- Time only lets more delays elapse. -/
theorem inv_clock (h : Inv tl s) (d : ℚ≥0) : Inv tl { s with now := s.now + d } where
  quiet_events := h.quiet_events
  fired_sent := h.fired_sent
  silenced_calm := h.silenced_calm
  armed_at := h.armed_at
  pending_due := by
    intro t₀ es hrun p hp
    rcases h.pending_due t₀ es hrun p hp with ⟨hstep, hdelay⟩
    have hd : (0 : ℚ) ≤ d := d.2
    exact ⟨hstep, by simp only; linarith only [hdelay, hd]⟩
  unrecorded_sent := h.unrecorded_sent

/-- The due list holds steps of the current run whose delays have elapsed. -/
theorem inv_tickDue (h : Inv tl s) (hactive : s.cascade.active = true) :
    Inv tl { s with scheduler := .firing (s.cascade.due tl s.now) } where
  quiet_events := h.quiet_events
  fired_sent := h.fired_sent
  silenced_calm := by
    intro hs
    have hoff := (h.silenced_calm hs).1
    exact absurd hactive (by simp [hoff])
  armed_at := h.armed_at
  pending_due := by
    intro t₀ es hrun p hp
    exact mem_due (h.armed_at t₀ es hrun hactive) hp
  unrecorded_sent := by
    intro t₀ es hrun p hp
    exact absurd hp (by simp [Scheduler.unrecorded])

/-- A toggle is sent in the run that found it due. -/
theorem inv_fireToggle (h : Inv tl s) {p : StepKey × CascadeStep}
    {due : List (StepKey × CascadeStep)} (hfiring : s.scheduler = .firing (p :: due)) :
    Inv tl { s with
      scheduler := .recording p due
      events := .toggled p.1 s.now :: s.events } := by
  have hpending : s.scheduler.pending = p :: due := by rw [hfiring]; rfl
  have hloud : silenced s.events = false := by
    by_contra hs
    have hnone := (h.silenced_calm (by simpa using hs)).2
    rw [hpending] at hnone
    exact absurd hnone (by simp)
  refine
    { quiet_events := ?_, fired_sent := ?_, silenced_calm := ?_
      armed_at := ?_, pending_due := ?_, unrecorded_sent := ?_ }
  · simp [quiet, hloud, h.quiet_events]
  · intro t₀ es hrun e he
    rcases currentRun_cons (by simp) hrun with ⟨rest, hrest, rfl⟩
    exact (h.fired_sent t₀ rest hrest e he).cons _
  · intro hs
    simp only [silenced] at hs
    rw [hloud] at hs
    exact absurd hs (by simp)
  · intro t₀ es hrun hactive
    rcases currentRun_cons (by simp) hrun with ⟨rest, hrest, rfl⟩
    exact h.armed_at t₀ rest hrest hactive
  · intro t₀ es hrun q hq
    rcases currentRun_cons (by simp) hrun with ⟨rest, hrest, rfl⟩
    exact h.pending_due t₀ rest hrest q (hpending ▸ List.mem_cons_of_mem p hq)
  · intro t₀ es hrun q hq
    simp only [Scheduler.unrecorded, Option.some.injEq] at hq
    subst hq
    rcases currentRun_cons (by simp) hrun with ⟨rest, hrest, rfl⟩
    rcases h.pending_due t₀ rest hrest p (hpending ▸ List.mem_cons_self) with ⟨hstep, hdelay⟩
    exact ⟨p.2, s.now, hstep, List.mem_cons_self, hdelay⟩

/-- A scheduler that gives its tick up has nothing left to send or to record. -/
theorem inv_sleep (h : Inv tl s) : Inv tl { s with scheduler := .sleeping } where
  quiet_events := h.quiet_events
  fired_sent := h.fired_sent
  silenced_calm hs := ⟨(h.silenced_calm hs).1, rfl⟩
  armed_at := h.armed_at
  pending_due t₀ es hrun p hp := absurd hp (by simp [Scheduler.pending])
  unrecorded_sent t₀ es hrun p hp := absurd hp (by simp [Scheduler.unrecorded])

/-- Recording a step that was sent in this run keeps the record truthful. -/
theorem inv_fireRecord (h : Inv tl s) {p : StepKey × CascadeStep}
    {due : List (StepKey × CascadeStep)} (hrec : s.scheduler = .recording p due) :
    Inv tl { s with
      scheduler := .saving due
      cascade := s.cascade.record p.1 s.now } := by
  have hpending : s.scheduler.pending = due := by rw [hrec]; rfl
  refine
    { quiet_events := h.quiet_events, fired_sent := ?_
      silenced_calm := ?_, armed_at := h.armed_at, pending_due := ?_
      unrecorded_sent := ?_ }
  · intro t₀ es hrun e he
    simp only [Cascade.record, List.mem_cons, List.mem_filter] at he
    rcases he with rfl | ⟨he, -⟩
    · exact h.unrecorded_sent t₀ es hrun p (by rw [hrec]; rfl)
    · exact h.fired_sent t₀ es hrun e he
  · intro hs
    exact ⟨(h.silenced_calm hs).1, hpending ▸ (h.silenced_calm hs).2⟩
  · intro t₀ es hrun q hq
    exact h.pending_due t₀ es hrun q (hpending ▸ hq)
  · intro t₀ es hrun q hq
    exact absurd hq (by simp [Scheduler.unrecorded])

/-- A calm `start` opens a run in which nothing is recorded or on its way. -/
theorem inv_startLock (h : Inv tl s) (i : Nat) (hcalm : Calm s (.startLock i)) :
    Inv tl ({ s with
      cascade := Cascade.start s.now
      events := .started s.now :: s.events }.setHttp i .starting) := by
  rcases hcalm with ⟨hpending, hunrecorded⟩
  refine
    { quiet_events := h.quiet_events, fired_sent := ?_
      silenced_calm := ?_, armed_at := ?_, pending_due := ?_, unrecorded_sent := ?_ }
  · intro t₀ es hrun e he
    exact absurd he (by simp [Shell.setHttp, Cascade.start])
  · intro hs
    exact absurd hs (by simp [Shell.setHttp, silenced])
  · intro t₀ es hrun _
    simp only [Shell.setHttp, currentRun, Option.some.injEq, Prod.mk.injEq] at hrun
    simp [Shell.setHttp, Cascade.start, hrun.1]
  · intro t₀ es hrun p hp
    have hnone : p ∈ s.scheduler.pending := hp
    rw [hpending] at hnone
    exact absurd hnone (by simp)
  · intro t₀ es hrun p hp
    have hsome : s.scheduler.unrecorded = some p := hp
    rw [hunrecorded] at hsome
    exact absurd hsome (by simp)

/-- `heal` disarms the cascade; what is on its way stays on its way. -/
theorem inv_healLock (h : Inv tl s) (i : Nat) :
    Inv tl ({ s with cascade := Cascade.idle }.setHttp i (.healing tl.participants)) where
  quiet_events := h.quiet_events
  fired_sent := by
    intro t₀ es hrun e he
    exact absurd he (by simp [Shell.setHttp, Cascade.idle])
  silenced_calm := by
    intro hs
    exact ⟨rfl, (h.silenced_calm hs).2⟩
  armed_at := by
    intro t₀ es hrun hactive
    exact absurd hactive (by simp [Shell.setHttp, Cascade.idle])
  pending_due := h.pending_due
  unrecorded_sent := h.unrecorded_sent

/-- The state file plays no part in the invariant. -/
theorem inv_file (h : Inv tl s) (file : Option Cascade) :
    Inv tl { s with file := file } :=
  { h with }

/-- Where the panel threads stand plays no part either. -/
theorem inv_setHttp (h : Inv tl s) (i : Nat) (call : HttpCall) :
    Inv tl (s.setHttp i call) :=
  { h with }

/-- What `heal` sends changes no run; its return does not either if the cascade
is calm. -/
theorem inv_heal_event (h : Inv tl s) {e : Event}
    (he : (∃ host, e = .healSent host) ∨
      e = .healReturned ∧ s.cascade.active = false ∧ s.scheduler.pending = []) :
    Inv tl { s with events := e :: s.events } := by
  have hquiet : quiet (e :: s.events) = quiet s.events := by
    rcases he with ⟨host, rfl⟩ | ⟨rfl, -⟩ <;> rfl
  have hstart : ∀ t, e ≠ .started t := by
    rcases he with ⟨host, rfl⟩ | ⟨rfl, -⟩ <;> simp
  refine
    { quiet_events := hquiet.trans h.quiet_events, fired_sent := ?_, silenced_calm := ?_
      armed_at := ?_, pending_due := ?_, unrecorded_sent := ?_ }
  · intro t₀ es hrun f hf
    rcases currentRun_cons hstart hrun with ⟨rest, hrest, rfl⟩
    exact (h.fired_sent t₀ rest hrest f hf).cons _
  · intro hs
    rcases he with ⟨host, rfl⟩ | ⟨-, hcalm⟩
    · exact h.silenced_calm hs
    · exact hcalm
  · intro t₀ es hrun hactive
    rcases currentRun_cons hstart hrun with ⟨rest, hrest, rfl⟩
    exact h.armed_at t₀ rest hrest hactive
  · intro t₀ es hrun p hp
    rcases currentRun_cons hstart hrun with ⟨rest, hrest, rfl⟩
    exact h.pending_due t₀ rest hrest p hp
  · intro t₀ es hrun p hp
    rcases currentRun_cons hstart hrun with ⟨rest, hrest, rfl⟩
    exact (h.unrecorded_sent t₀ rest hrest p hp).cons _

/-- Ending a tick changes neither what has fired nor what is armed. -/
theorem inv_tickDone (h : Inv tl s) (hfiring : s.scheduler = .firing []) :
    Inv tl { s with
      scheduler := .sleeping
      cascade := s.cascade.logComplete tl } := by
  have hactive : (s.cascade.logComplete tl).active = s.cascade.active := by
    unfold Cascade.logComplete
    split <;> rfl
  have hstarted : (s.cascade.logComplete tl).startedAt = s.cascade.startedAt := by
    unfold Cascade.logComplete
    split <;> rfl
  have hfired : (s.cascade.logComplete tl).fired = s.cascade.fired := by
    unfold Cascade.logComplete
    split <;> rfl
  have hpending : s.scheduler.pending = [] := by rw [hfiring]; rfl
  refine
    { quiet_events := h.quiet_events, fired_sent := ?_
      silenced_calm := ?_, armed_at := ?_, pending_due := ?_, unrecorded_sent := ?_ }
  · intro t₀ es hrun e he
    exact h.fired_sent t₀ es hrun e (hfired ▸ he)
  · intro hs
    exact ⟨hactive.trans (h.silenced_calm hs).1, rfl⟩
  · intro t₀ es hrun hon
    exact hstarted.trans (h.armed_at t₀ es hrun (hactive ▸ hon))
  · intro t₀ es hrun p hp
    exact absurd hp (by simp [Scheduler.pending])
  · intro t₀ es hrun p hp
    exact absurd hp (by simp [Scheduler.unrecorded])

/-- Saving after a recorded step changes neither the record nor what is due. -/
theorem inv_fireSave (h : Inv tl s) {due : List (StepKey × CascadeStep)}
    (hsaving : s.scheduler = .saving due) :
    Inv tl { s with scheduler := .firing due, file := some s.cascade } := by
  have hpending : s.scheduler.pending = due := by rw [hsaving]; rfl
  exact
    { quiet_events := h.quiet_events
      fired_sent := h.fired_sent
      silenced_calm := fun hs => ⟨(h.silenced_calm hs).1, hpending ▸ (h.silenced_calm hs).2⟩
      armed_at := h.armed_at
      pending_due := fun t₀ es hrun p hp => h.pending_due t₀ es hrun p (hpending ▸ hp)
      unrecorded_sent := fun t₀ es hrun p hp => absurd hp (by simp [Scheduler.unrecorded]) }

/-- A calm transition preserves the invariant. -/
theorem inv_step {s' : Shell} {l : Label} (h : Inv tl s) (hstep : s.step tl l = some s')
    (hcalm : Calm s l) : Inv tl s' := by
  cases Shell.moves_of_step hstep with
  | clock d => exact inv_clock h d
  | tickArmed _ harmed => exact inv_tickDue h harmed.1
  | tickIdle => exact h
  | fireToggle hsched => exact inv_fireToggle h hsched
  | fireRaise hsched => exact inv_sleep (inv_fireToggle h hsched)
  | fireRecord hsched => exact inv_fireRecord h hsched
  | fireSave hsched => exact inv_fireSave h hsched
  | tickDone hsched => exact inv_tickDone h hsched
  | startLock => exact inv_startLock h _ hcalm
  | startSave => exact inv_setHttp (inv_file h (some s.cascade)) _ .idle
  | healLock => exact inv_healLock h _
  | @healToggle i host hosts =>
      exact inv_setHttp (inv_heal_event h (Or.inl ⟨host, rfl⟩)) i (.healing hosts)
  | @healRaise i host => exact inv_setHttp (inv_heal_event h (Or.inl ⟨host, rfl⟩)) i .idle
  | healSave =>
      have hcalm' : s.cascade.active = false ∧ s.scheduler.pending = [] :=
        ⟨hcalm.2, hcalm.1⟩
      exact inv_setHttp (inv_heal_event (inv_file h (some s.cascade))
        (Or.inr ⟨rfl, hcalm'⟩)) _ .idle

/-! ## Whole runs -/

/-- **Calm runs are orderly.**  From any freshly booted shell, if no `start` enters
its critical section over an unsent or unrecorded step, and no `heal` returns over
an unsent step or a cascade armed again, then healed stays quiet and every recorded
step was sent in its run and on time. -/
theorem orderly_of_calm (tl : Timeline) (now : ℚ) (c : Cascade) (file : Option Cascade)
    {ls : List Label} {s : Shell}
    (hrun : Run (Meeting (Graph (Shell.step tl)) Calm) (Shell.boot now c file) ls s) :
    Orderly tl s := by
  have hinv : Inv tl s :=
    hrun.invariant (fun u l t hu hstep => inv_step hu hstep.1 hstep.2) (inv_boot tl now c file)
  exact ⟨hinv.quiet_events, hinv.fired_sent⟩

/-- The timeline of a shell that carries the primary database only. -/
def databaseTimeline : Timeline :=
  .ofRoster [⟨"db-postgres-01".toList, [.degrade, .break_, .heal]⟩] 1

/-- A trigger, one whole tick and a heal: the first step is sent and then healed. -/
def calmSchedule : List Label :=
  [.startLock 0, .startSave 0, .clock 3, .tickDue, .fireToggle, .fireRecord, .fireSave,
   .tickDone, .healLock 0, .healToggle 0, .healSave 0]

/-- A heal between a tick's due list and the toggle it sends from that list. -/
def heatedSchedule : List Label :=
  [.startLock 0, .startSave 0, .clock 3, .tickDue, .healLock 1, .healToggle 1, .healSave 1,
   .fireToggle]

/-- The calm schedule can be executed, and its result is orderly. -/
theorem orderly_of_calm_database :
    ∃ s, Run (Graph (Shell.step databaseTimeline)) (Shell.boot 0 .idle none) calmSchedule s ∧
      Orderly databaseTimeline s := by
  have hsome : (execute (guarded (Shell.step databaseTimeline) Calm) (Shell.boot 0 .idle none)
      calmSchedule).isSome = true := by decide +kernel
  rcases Option.isSome_iff_exists.mp hsome with ⟨s, hs⟩
  have hrun := meeting_of_execute hs
  exact ⟨s, hrun.mono fun _ _ _ h => h.1, orderly_of_calm databaseTimeline 0 .idle none hrun⟩

/-- A heal during a tick is followed by a toggle of the run it stopped. -/
theorem not_orderly_heal_during_tick :
    ¬ ∀ (tl : Timeline) (now : ℚ) (c : Cascade) (file : Option Cascade) (ls : List Label)
      (s : Shell), Run (Graph (Shell.step tl)) (Shell.boot now c file) ls s → Orderly tl s := by
  intro h
  have hloud : (execute (Shell.step databaseTimeline) (Shell.boot 0 .idle none)
      heatedSchedule).map (fun s => quiet s.events) = some false := by decide +kernel
  rcases Option.map_eq_some_iff.mp hloud with ⟨s, hs, hquiet⟩
  have horderly := h databaseTimeline 0 .idle none heatedSchedule s (run_of_execute hs)
  exact absurd horderly.1 (by simp [hquiet])

end Delivery
end DemoEstate
