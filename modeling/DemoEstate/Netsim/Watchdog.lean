import Mathlib.Data.NNRat.Defs
import Mathlib.Logic.Function.Basic
import DemoEstate.Library.Transition
import DemoEstate.Netsim.Counter

/-!
# The watchdog that escalates incidents

A thread goes over the devices every few seconds.  It reads the state of a device, then how long
the device has been in its state, and then breaks the device; each of the three takes the lock of
the device on its own, and operators may toggle it in between.  The database host runs the same
loop over itself alone.

Main definitions:

- Definition {lit}`Patrol.step`: the interleavings of the watchdog and the operators.
- Definition {lit}`Justified`: an escalation finds the device degraded for long enough.
- Definition {lit}`Undisturbed`: no toggle since the watchdog's look speaks against it.

Main results:

- Theorem {lit}`justified_iff_undisturbed`: one escalation, in a state of a run.
- Theorem {lit}`justified_runs_iff`: the runs whose escalations are all justified.
-/

namespace DemoEstate
namespace Netsim

open Transition (Run Meeting Graph execute execute_of_run run_of_execute)

/-! ## The watchdog among the operators -/

/-- Where the watchdog stands: asleep, before the devices that it has still to look at, or at a
device whose state it has read as degraded, and whose time in that state it has found long
enough. -/
inductive Watch where
  | asleep
  | scanning (rest : List Text)
  | degraded (short : Text) (rest : List Text)
  | due (short : Text) (rest : List Text)

/-- The clock, the states of the devices, and the watchdog.  The last field only records the last
toggle that changed the device the watchdog is at, since it looked at the device. -/
structure Patrol where
  now : ℚ
  devices : Text → DeviceState
  watch : Watch
  changed : Option (Incident × ℚ)

/-- Time passes, an operator toggles a device, and the operations of the watchdog. -/
inductive Move where
  | clock (d : ℚ≥0)
  | toggle (short : Text) (value : Incident)
  | wake
  | look
  | age
  | escalate

/-- The device whose state the watchdog has read. -/
def Watch.target : Watch → Option Text
  | .asleep | .scanning _ => none
  | .degraded short _ | .due short _ => some short

namespace Patrol

/-- Set the state of a device. -/
def set (p : Patrol) (short : Text) (value : Incident) : Patrol :=
  { p with devices := Function.update p.devices short ((p.devices short).set value p.now) }

/-- What is recorded of a toggle. -/
def noted (p : Patrol) (short : Text) (value : Incident) : Option (Incident × ℚ) :=
  if p.watch.target = some short ∧ value ≠ (p.devices short).state then some (value, p.now)
  else p.changed

/-- The operations of one schedule; `incidents` are the devices with incident toggles, and
`limit` is the time in the degraded state after which the watchdog breaks a device. -/
def step (incidents : List Text) (limit : ℚ) (p : Patrol) : Move → Option Patrol
  | .clock d => some { p with now := p.now + d }
  | .toggle short value =>
      if short ∈ incidents then
        some { p.set short value with changed := p.noted short value }
      else none
  | .wake =>
      match p.watch with
      | .asleep => some { p with watch := .scanning incidents }
      | _ => none
  | .look =>
      match p.watch with
      | .scanning [] => some { p with watch := .asleep }
      | .scanning (short :: rest) =>
          if (p.devices short).state = .degraded then
            some { p with watch := .degraded short rest, changed := none }
          else some { p with watch := .scanning rest }
      | _ => none
  | .age =>
      match p.watch with
      | .degraded short rest =>
          if limit ≤ p.now - (p.devices short).stateSince then
            some { p with watch := .due short rest }
          else some { p with watch := .scanning rest }
      | _ => none
  | .escalate =>
      match p.watch with
      | .due short rest => some { p.set short .broken with watch := .scanning rest }
      | _ => none

/-- Devices in any states, with the watchdog asleep. -/
def boot (now : ℚ) (devices : Text → DeviceState) : Patrol where
  now := now
  devices := devices
  watch := .asleep
  changed := none

end Patrol

/-- An escalation that changes a device finds it degraded, for as long as the limit. -/
def Justified (limit : ℚ) (p : Patrol) : Move → Prop
  | .escalate => ∀ short ∈ p.watch.target, (p.devices short).state ≠ .broken →
      (p.devices short).state = .degraded ∧ limit ≤ p.now - (p.devices short).stateSince
  | _ => True

/-- At an escalation, no toggle has changed the device since the watchdog looked at it, or the last
that did has broken the device, or has degraded it as long ago as the limit. -/
def Undisturbed (limit : ℚ) (p : Patrol) : Move → Prop
  | .escalate =>
      match p.changed with
      | none => True
      | some (.healthy, _) => False
      | some (.degraded, since) => limit ≤ p.now - since
      | some (.broken, _) => True
  | _ => True

/-! ## What is recorded -/

/-- The device is in the state of the last toggle that changed it, since that toggle. -/
def Recorded (p : Patrol) (short : Text) : Prop :=
  ∀ value since, p.changed = some (value, since) →
    (p.devices short).state = value ∧ (p.devices short).stateSince = since

/-- A device that was not changed is as the watchdog found it. -/
def Found (limit : ℚ) (p : Patrol) : Prop :=
  match p.watch with
  | .asleep | .scanning _ => True
  | .degraded short _ =>
      Recorded p short ∧ (p.changed = none → (p.devices short).state = .degraded)
  | .due short _ =>
      Recorded p short ∧ (p.changed = none →
        (p.devices short).state = .degraded ∧ limit ≤ p.now - (p.devices short).stateSince)

section Steps

variable {incidents : List Text} {limit : ℚ} {p p' : Patrol} {move : Move} {moves : List Move}

/-- The states after an escalation or a toggle. -/
theorem Patrol.set_devices (p : Patrol) (short other : Text) (value : Incident) :
    (p.set short value).devices other =
      if other = short then (p.devices short).set value p.now else p.devices other := by
  simp only [Patrol.set, Function.update_apply]

/-- Setting the state that a device is in leaves the time since when it is. -/
theorem DeviceState.set_stateSince (s : DeviceState) (value : Incident) (now : ℚ) :
    (s.set value now).stateSince = if value ≠ s.state then now else s.stateSince := by
  cases value <;> rfl

theorem DeviceState.set_state (s : DeviceState) (value : Incident) (now : ℚ) :
    (s.set value now).state = value := by
  cases value <;> rfl

/-- A toggle is recorded. -/
theorem recorded_toggle {short target : Text} {value : Incident} (hwatch : p.watch.target = some target)
    (h : Recorded p target) :
    Recorded { p.set short value with changed := p.noted short value } target := by
  intro v since hnoted
  dsimp only at hnoted ⊢
  rw [Patrol.set_devices]
  by_cases heq : target = short
  · subst heq
    rw [if_pos rfl, DeviceState.set_state, DeviceState.set_stateSince]
    by_cases hsame : value = (p.devices target).state
    · rw [Patrol.noted, if_neg (by simp [hsame])] at hnoted
      obtain ⟨hstate, hsince⟩ := h v since hnoted
      rw [if_neg (not_not.mpr hsame)]
      exact ⟨hsame.trans hstate, hsince⟩
    · rw [Patrol.noted, if_pos ⟨hwatch, hsame⟩] at hnoted
      cases hnoted
      rw [if_pos hsame]
      exact ⟨rfl, rfl⟩
  · have hother : p.watch.target ≠ some short := by
      rw [hwatch]
      exact fun h => heq (Option.some.inj h)
    rw [Patrol.noted, if_neg fun h => hother h.1] at hnoted
    rw [if_neg heq]
    exact h v since hnoted

/-- After a toggle that was not recorded the device is as it was. -/
theorem unchanged_toggle {short target : Text} {value : Incident}
    (hwatch : p.watch.target = some target) (hnoted : p.noted short value = none) :
    p.changed = none ∧
      ((p.set short value).devices target).state = (p.devices target).state ∧
      ((p.set short value).devices target).stateSince = (p.devices target).stateSince := by
  unfold Patrol.noted at hnoted
  split at hnoted
  · cases hnoted
  · rename_i hnot
    refine ⟨hnoted, ?_⟩
    rw [Patrol.set_devices]
    by_cases heq : target = short
    · subst heq
      have hsame : value = (p.devices target).state := by
        by_contra hne
        exact hnot ⟨hwatch, hne⟩
      rw [if_pos rfl, DeviceState.set_state, DeviceState.set_stateSince,
        if_neg (not_not.mpr hsame)]
      exact ⟨hsame, rfl⟩
    · rw [if_neg heq]
      exact ⟨rfl, rfl⟩

/-- Every operation keeps what is recorded true. -/
theorem found_step (h : Found limit p) (hstep : p.step incidents limit move = some p') :
    Found limit p' := by
  cases move with
  | clock d =>
      simp only [Patrol.step, Option.some.injEq] at hstep
      subst hstep
      unfold Found at h ⊢
      dsimp only
      split
      · trivial
      · trivial
      · rename_i heq
        rw [heq] at h
        exact h
      · rename_i heq
        rw [heq] at h
        refine ⟨h.1, fun hnone => ?_⟩
        obtain ⟨hstate, hage⟩ := h.2 hnone
        have hd : (0 : ℚ) ≤ d := d.2
        exact ⟨hstate, by linarith only [hage, hd]⟩
  | toggle short value =>
      simp only [Patrol.step, Option.ite_none_right_eq_some, Option.some.injEq] at hstep
      obtain ⟨-, rfl⟩ := hstep
      unfold Found at h ⊢
      cases hwatch : p.watch with
      | asleep => simp only [Patrol.set, hwatch]
      | scanning rest => simp only [Patrol.set, hwatch]
      | degraded target rest =>
          have htarget : p.watch.target = some target := by rw [hwatch]; rfl
          rw [hwatch] at h
          simp only [Patrol.set, hwatch]
          refine ⟨recorded_toggle htarget h.1, fun hnoted => ?_⟩
          obtain ⟨hnone, hstate, -⟩ := unchanged_toggle htarget hnoted
          exact hstate.trans (h.2 hnone)
      | due target rest =>
          have htarget : p.watch.target = some target := by rw [hwatch]; rfl
          rw [hwatch] at h
          simp only [Patrol.set, hwatch]
          refine ⟨recorded_toggle htarget h.1, fun hnoted => ?_⟩
          obtain ⟨hnone, hstate, hsince⟩ := unchanged_toggle htarget hnoted
          obtain ⟨hdegraded, hage⟩ := h.2 hnone
          exact ⟨hstate.trans hdegraded, hsince ▸ hage⟩
  | wake =>
      dsimp only [Patrol.step] at hstep
      split at hstep
      · cases hstep
        trivial
      · cases hstep
  | look =>
      dsimp only [Patrol.step] at hstep
      split at hstep
      · cases hstep
        trivial
      · split at hstep
        · rename_i hdegraded
          cases hstep
          exact ⟨fun _ _ hnone => (nomatch hnone), fun _ => hdegraded⟩
        · cases hstep
          trivial
      · cases hstep
  | age =>
      dsimp only [Patrol.step] at hstep
      split at hstep
      · rename_i hwatch
        unfold Found at h
        rw [hwatch] at h
        split at hstep
        · rename_i hage
          cases hstep
          exact ⟨h.1, fun hnone => ⟨h.2 hnone, hage⟩⟩
        · cases hstep
          trivial
      · cases hstep
  | escalate =>
      dsimp only [Patrol.step] at hstep
      split at hstep
      · cases hstep
        trivial
      · cases hstep

/-- An escalation is justified exactly if no toggle speaks against it. -/
theorem justified_iff_undisturbed (h : Found limit p)
    (hstep : p.step incidents limit move = some p') :
    Justified limit p move ↔ Undisturbed limit p move := by
  cases move with
  | escalate =>
      dsimp only [Patrol.step] at hstep
      split at hstep
      · rename_i target rest hwatch
        unfold Found at h
        rw [hwatch] at h
        obtain ⟨hrecorded, hfound⟩ := h
        have htarget : p.watch.target = some target := by rw [hwatch]; rfl
        simp only [Justified, Undisturbed, htarget, Option.mem_def, Option.some.injEq,
          forall_eq']
        cases hchanged : p.changed with
        | none => exact iff_of_true (fun _ => hfound hchanged) trivial
        | some change =>
            obtain ⟨value, since⟩ := change
            obtain ⟨hstate, hsince⟩ := hrecorded value since hchanged
            cases value <;> simp [hstate, hsince]
      · cases hstep
  | _ => exact Iff.rfl

/-- In every run the escalations are all justified exactly if each is undisturbed. -/
theorem justified_runs_iff {now : ℚ} {devices : Text → DeviceState} :
    Run (Meeting (Graph (Patrol.step incidents limit)) (Justified limit))
        (Patrol.boot now devices) moves p ↔
      Run (Meeting (Graph (Patrol.step incidents limit)) (Undisturbed limit))
        (Patrol.boot now devices) moves p :=
  Run.meeting_congr (fun _ _ _ h hstep => found_step h hstep)
    (fun _ _ _ h hstep => justified_iff_undisturbed h hstep) trivial

end Steps

/-! ## A heal that is undone -/

/-- The watchdog finds a device that has been degraded for twenty minutes, and before it breaks the
device an operator heals it. -/
def healedInBetween : List Move :=
  [.toggle "rt-wan-01".toList .degraded, .clock 1200, .wake, .look, .age,
    .toggle "rt-wan-01".toList .healthy]

/-- The watchdog breaks a device that has just been healed. -/
theorem not_justified_healed :
    ¬ ∀ (incidents : List Text) (limit now : ℚ) (devices : Text → DeviceState) (moves : List Move)
      (p : Patrol), Run (Graph (Patrol.step incidents limit)) (Patrol.boot now devices) moves p →
        Run (Meeting (Graph (Patrol.step incidents limit)) (Justified limit))
          (Patrol.boot now devices) moves p := by
  intro hclaim
  have hhealed : (execute (Patrol.step ["rt-wan-01".toList] 1200)
      (Patrol.boot 0 fun _ => DeviceState.init 0) healedInBetween).map
        (fun p => (p.watch.target, (p.devices "rt-wan-01".toList).state)) =
      some (some "rt-wan-01".toList, .healthy) := by decide +kernel
  have hsome : (execute (Patrol.step ["rt-wan-01".toList] 1200)
      (Patrol.boot 0 fun _ => DeviceState.init 0) (healedInBetween ++ [.escalate])).isSome := by
    decide +kernel
  obtain ⟨q, hq⟩ := Option.isSome_iff_exists.mp hsome
  obtain ⟨p, hp, -, hjustified⟩ := (hclaim _ _ _ _ _ q (run_of_execute hq)).snoc_cases
  rw [execute_of_run (hp.mono fun _ _ _ hstep => hstep.1), Option.map_some, Option.some.injEq,
    Prod.mk.injEq] at hhealed
  obtain ⟨htarget, hstate⟩ := hhealed
  have hdegraded := (hjustified _ htarget (by rw [hstate]; decide)).1
  rw [hstate] at hdegraded
  cases hdegraded

end Netsim
end DemoEstate
