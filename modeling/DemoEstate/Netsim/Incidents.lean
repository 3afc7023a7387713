import Mathlib.Data.NNRat.Defs
import DemoEstate.Hosts.StateFile
import DemoEstate.Library.Json
import DemoEstate.Netsim.Counter

/-!
# The timestamps of an incident state

A device remembers when it entered its state, when it left the healthy state and when it broke.
A run toggles it in any order, dumps it, and restores dumps, as a restart does.  The critical
section of a toggle reads the clock once for each timestamp that it sets.

Main definitions:

- Definition {lit}`Fields.restore`: read a dump; what it lacks has a default.
- Definition {lit}`DeviceState.setAt`: a toggle with its readings of the clock.
- Definition {lit}`Console.step`: toggles, dumps and restores.

Main results:

- Theorem {lit}`Consistent.setAt`: a toggle keeps the timestamps consistent.
- Theorem {lit}`timestamps_of_run`: the timestamps in every state of a run.
-/

namespace DemoEstate
namespace Netsim

open Transition (Run Graph)

/-! ## Dumps -/

/-- The name of a state. -/
def Incident.name : Incident → Text
  | .healthy => "healthy".toList
  | .degraded => "degraded".toList
  | .broken => "broken".toList

/-- The fields of a device state; restoring one may put any value in them. -/
structure Fields where
  state : Json
  stateSince : Json
  degradedSince : Json
  brokenSince : Json

namespace Fields

/-- `DeviceState.dump`. -/
def dump (f : Fields) : Json :=
  .obj [("state".toList, f.state), ("state_since".toList, f.stateSince),
    ("degraded_since".toList, f.degradedSince), ("broken_since".toList, f.brokenSince)]

/-- `DeviceState.restore`; it raises an error for data that is not an object. -/
def restore (now : ℚ) (data : Json) : Option Fields := do
  let state ← data.get "state".toList (.str Incident.healthy.name)
  let stateSince ← data.get "state_since".toList (.num now)
  let degradedSince ← data.get "degraded_since".toList .null
  let brokenSince ← data.get "broken_since".toList .null
  pure ⟨state, stateSince, degradedSince, brokenSince⟩

theorem restore_dump (now : ℚ) (f : Fields) : restore now f.dump = some f :=
  rfl

end Fields

/-- A timestamp, or none. -/
def timeJson : Option ℚ → Json
  | none => .null
  | some t => .num t

/-- The timestamp that a value stands for. -/
def readTime : Json → Option (Option ℚ)
  | .null => some none
  | .num t => some (some t)
  | _ => none

/-- The state that a value names. -/
def readIncident (v : Json) : Option Incident :=
  [Incident.healthy, .degraded, .broken].find? fun incident => v.isStr incident.name

/-- The device state that fields stand for. -/
def Fields.read (f : Fields) : Option DeviceState := do
  let state ← readIncident f.state
  let stateSince ← readTime f.stateSince
  let since ← stateSince
  let degradedSince ← readTime f.degradedSince
  let brokenSince ← readTime f.brokenSince
  pure ⟨state, since, degradedSince, brokenSince⟩

namespace DeviceState

/-- The fields of a device state. -/
def fields (s : DeviceState) : Fields where
  state := .str s.state.name
  stateSince := .num s.stateSince
  degradedSince := timeJson s.degradedSince
  brokenSince := timeJson s.brokenSince

/-- Restore the state of a device. -/
def restore (now : ℚ) (data : Json) : Option DeviceState :=
  (Fields.restore now data).bind Fields.read

theorem readTime_timeJson (t : Option ℚ) : readTime (timeJson t) = some t := by
  cases t <;> rfl

theorem readIncident_name (incident : Incident) :
    readIncident (.str incident.name) = some incident := by
  cases incident <;> decide

theorem read_fields (s : DeviceState) : s.fields.read = some s := by
  have hsince : readTime (.num s.stateSince) = some (some s.stateSince) := rfl
  unfold Fields.read fields
  simp only [readIncident_name, readTime_timeJson, hsince, Option.bind_eq_bind, Option.bind_some,
    Option.pure_def]

/-- Restoring a dump gives the state that was dumped. -/
theorem restore_dump (now : ℚ) (s : DeviceState) : restore now s.fields.dump = some s := by
  rw [restore, Fields.restore_dump, Option.bind_some, read_fields]

/-! ## Toggles -/

/-- `DeviceState.set`, with the times that it reads for the state, for leaving the healthy state
and for breaking. -/
def setAt (s : DeviceState) (value : Incident) (t₁ t₂ t₃ : ℚ) : DeviceState where
  stateSince := if value ≠ s.state then t₁ else s.stateSince
  state := value
  degradedSince :=
    if value = .healthy then none
    else if s.degradedSince = none then some t₂ else s.degradedSince
  brokenSince :=
    if value = .broken then
      if s.brokenSince = none then some t₃ else s.brokenSince
    else none

/-- A toggle within one moment. -/
theorem setAt_self (s : DeviceState) (value : Incident) (now : ℚ) :
    s.setAt value now now now = s.set value now := by
  cases value <;> rfl

/-- The state a process starts its device in; the database host may start in any state. -/
def started (value : Incident) (start : ℚ) : DeviceState where
  state := value
  stateSince := start
  degradedSince := if value = .healthy then none else some start
  brokenSince := if value = .broken then some start else none

theorem started_healthy (start : ℚ) : started .healthy start = init start :=
  rfl

end DeviceState

/-- The state of the database host as a state of the network simulator. -/
def incidentOf : Hosts.State → Incident
  | .healthy => .healthy
  | .degraded => .degraded
  | .broken => .broken

/-- The incident of the database host as the state of a device. -/
def deviceOf (inc : Hosts.Incident) : DeviceState where
  state := incidentOf inc.state
  stateSince := inc.stateSince
  degradedSince := inc.degradedSince
  brokenSince := inc.brokenSince

/-- The toggles of the database host are those of a device. -/
theorem deviceOf_set (inc : Hosts.Incident) (value : Hosts.State) (now : ℚ) :
    deviceOf (inc.set value now) = (deviceOf inc).set (incidentOf value) now := by
  cases inc with
  | mk state degradedSince brokenSince stateSince => cases value <;> cases state <;> rfl

/-! ## Consistent timestamps -/

/-- The device broke exactly if it is broken, left the healthy state exactly if it is not healthy,
and did not break before it left the healthy state. -/
structure Consistent (now : ℚ) (s : DeviceState) : Prop where
  broken_iff : s.brokenSince ≠ none ↔ s.state = .broken
  healthy_iff : s.degradedSince = none ↔ s.state = .healthy
  ordered : ∀ d ∈ s.degradedSince, ∀ b ∈ s.brokenSince, d ≤ b
  past : ∀ d ∈ s.degradedSince, d ≤ now

section Consistent

variable {now later : ℚ} {s : DeviceState}

theorem consistent_started (value : Incident) (start : ℚ) :
    Consistent start (DeviceState.started value start) := by
  constructor <;> cases value <;> simp [DeviceState.started]

theorem Consistent.mono (h : Consistent now s) (hle : now ≤ later) : Consistent later s :=
  ⟨h.broken_iff, h.healthy_iff, h.ordered, fun d hd => (h.past d hd).trans hle⟩

/-- A toggle keeps the timestamps consistent, if it reads the clock after they were set. -/
theorem Consistent.setAt (h : Consistent now s) (value : Incident) {t₁ t₂ t₃ : ℚ} (h₂ : now ≤ t₂)
    (h₃ : t₂ ≤ t₃) : Consistent t₃ (s.setAt value t₁ t₂ t₃) := by
  have hpast : ∀ d ∈ (s.setAt value t₁ t₂ t₃).degradedSince, d ≤ t₂ := by
    intro d hd
    simp only [DeviceState.setAt] at hd
    split at hd
    · cases hd
    · split at hd
      · cases hd
        exact le_refl _
      · exact (h.past d hd).trans h₂
  constructor
  · simp only [DeviceState.setAt]
    by_cases hvalue : value = .broken
    · by_cases hsince : s.brokenSince = none <;> simp [hvalue, hsince]
    · simp [hvalue]
  · simp only [DeviceState.setAt]
    by_cases hvalue : value = .healthy
    · simp [hvalue]
    · by_cases hsince : s.degradedSince = none <;> simp [hvalue, hsince]
  · intro d hd b hb
    have hd₂ := hpast d hd
    simp only [DeviceState.setAt] at hb
    split at hb
    · rename_i hvalue
      split at hb
      · cases hb
        exact hd₂.trans h₃
      · -- the device was broken before, and both timestamps are kept
        rename_i hsince
        have hstate := h.broken_iff.mp hsince
        have hkept : s.degradedSince ≠ none := by
          rw [Ne, h.healthy_iff, hstate]
          decide
        simp only [DeviceState.setAt, hvalue, reduceCtorEq, if_false, if_neg hkept] at hd
        exact h.ordered d hd b hb
    · cases hb
  · exact fun d hd => (hpast d hd).trans h₃

/-- Setting the state that a device is in changes nothing. -/
theorem Consistent.setAt_state (h : Consistent now s) (t₁ t₂ t₃ : ℚ) :
    s.setAt s.state t₁ t₂ t₃ = s := by
  obtain ⟨state, stateSince, degradedSince, brokenSince⟩ := s
  have hbroken := h.broken_iff
  have hhealthy := h.healthy_iff
  cases state <;> cases degradedSince <;> cases brokenSince <;>
    simp_all [DeviceState.setAt]

end Consistent

/-! ## Runs -/

/-- The clock, the state of the device, and the dumps that were taken. -/
structure Console where
  now : ℚ
  state : DeviceState
  dumps : List Json

/-- Time passes, a toggle reads the clock up to three times, the state is dumped, or a dump is
restored. -/
inductive Press where
  | clock (d : ℚ≥0)
  | set (value : Incident) (d₁ d₂ : ℚ≥0)
  | dump
  | restore (i : Nat)

namespace Console

def step (c : Console) : Press → Option Console
  | .clock d => some { c with now := c.now + d }
  | .set value d₁ d₂ =>
      some { c with
        now := c.now + d₁ + d₂
        state := c.state.setAt value c.now (c.now + d₁) (c.now + d₁ + d₂) }
  | .dump => some { c with dumps := c.state.fields.dump :: c.dumps }
  | .restore i => do
      let data ← c.dumps[i]?
      let state ← DeviceState.restore c.now data
      some { c with state := state }

/-- A process that has just started. -/
def boot (value : Incident) (start : ℚ) : Console where
  now := start
  state := DeviceState.started value start
  dumps := []

/-- The state and all that were dumped have consistent timestamps. -/
structure Inv (c : Console) : Prop where
  state : Consistent c.now c.state
  dumps : ∀ data ∈ c.dumps, ∃ s : DeviceState, data = s.fields.dump ∧ Consistent c.now s

variable {c c' : Console} {press : Press} {presses : List Press}

theorem inv_boot (value : Incident) (start : ℚ) : Inv (boot value start) where
  state := consistent_started value start
  dumps := fun _ h => absurd h List.not_mem_nil

theorem Inv.later (h : Inv c) {state : DeviceState} {now : ℚ} (hle : c.now ≤ now)
    (hstate : Consistent now state) : Inv { c with now := now, state := state } where
  state := hstate
  dumps := fun data hdata => by
    obtain ⟨s, hs, hconsistent⟩ := h.dumps data hdata
    exact ⟨s, hs, hconsistent.mono hle⟩

theorem Inv.step (h : Inv c) (hstep : c.step press = some c') : Inv c' := by
  cases press with
  | clock d =>
      simp only [Console.step, Option.some.injEq] at hstep
      subst hstep
      have hle : c.now ≤ c.now + d := le_add_of_nonneg_right d.2
      exact h.later hle (h.state.mono hle)
  | set value d₁ d₂ =>
      simp only [Console.step, Option.some.injEq] at hstep
      subst hstep
      have h₁ : c.now ≤ c.now + d₁ := le_add_of_nonneg_right d₁.2
      have h₂ : c.now + d₁ ≤ c.now + d₁ + d₂ := le_add_of_nonneg_right d₂.2
      exact h.later (h₁.trans h₂) (h.state.setAt value h₁ h₂)
  | dump =>
      simp only [Console.step, Option.some.injEq] at hstep
      subst hstep
      refine ⟨h.state, fun data hdata => ?_⟩
      rcases List.mem_cons.mp hdata with rfl | hdata
      · exact ⟨c.state, rfl, h.state⟩
      · exact h.dumps data hdata
  | restore i =>
      simp only [Console.step, Option.bind_eq_bind, Option.bind_eq_some_iff,
        Option.some.injEq] at hstep
      obtain ⟨data, hget, state, hrestore, rfl⟩ := hstep
      obtain ⟨s, rfl, hconsistent⟩ := h.dumps data (List.mem_of_getElem? hget)
      rw [DeviceState.restore_dump, Option.some.injEq] at hrestore
      subst hrestore
      exact ⟨hconsistent, h.dumps⟩

/-- In every run, from any state a process may start in, the device has a time of breaking
exactly if it is broken and a time of leaving the healthy state exactly if it is not healthy; a
broken device left the healthy state first; setting its state again changes nothing; and
restoring its dump gives it back. -/
theorem timestamps_of_run {value : Incident} {start : ℚ}
    (h : Run (Graph Console.step) (boot value start) presses c) :
    (c.state.brokenSince ≠ none ↔ c.state.state = .broken) ∧
      (c.state.degradedSince = none ↔ c.state.state = .healthy) ∧
      (c.state.state = .broken →
        ∃ d b, c.state.degradedSince = some d ∧ c.state.brokenSince = some b ∧ d ≤ b) ∧
      (∀ t₁ t₂ t₃, c.state.setAt c.state.state t₁ t₂ t₃ = c.state) ∧
      ∀ now, DeviceState.restore now c.state.fields.dump = some c.state := by
  have hinv : Inv c := h.invariant (fun _ _ _ hinv hstep => hinv.step hstep) (inv_boot value start)
  have hstate := hinv.state
  refine ⟨hstate.broken_iff, hstate.healthy_iff, ?_, hstate.setAt_state, ?_⟩
  · intro hbroken
    have hleft : c.state.degradedSince ≠ none := by
      rw [Ne, hstate.healthy_iff, hbroken]
      decide
    obtain ⟨d, hd⟩ := Option.ne_none_iff_exists'.mp hleft
    obtain ⟨b, hb⟩ := Option.ne_none_iff_exists'.mp (hstate.broken_iff.mpr hbroken)
    exact ⟨d, b, hd, hb, hstate.ordered d hd b hb⟩
  · exact fun now => DeviceState.restore_dump now c.state

/-- A device is broken straight from the healthy state, dumped, healed and restored. -/
def breakAndRestore : List Press :=
  [.set .broken 1 1, .dump, .clock 5, .set .healthy 0 0, .restore 0, .set .broken 1 1]

theorem timestamps_of_run_breakAndRestore : ∃ c,
    Run (Graph Console.step) (boot .healthy 0) breakAndRestore c ∧
      ∃ d b, c.state.degradedSince = some d ∧ c.state.brokenSince = some b ∧ d ≤ b := by
  have hsome : (Transition.execute Console.step (boot .healthy 0) breakAndRestore).map
      (fun c => c.state.state) = some .broken := by
    decide +kernel
  obtain ⟨c, hexecute, hbroken⟩ := Option.map_eq_some_iff.mp hsome
  have hrun := Transition.run_of_execute hexecute
  exact ⟨c, hrun, (timestamps_of_run hrun).2.2.1 hbroken⟩

end Console

end Netsim
end DemoEstate
