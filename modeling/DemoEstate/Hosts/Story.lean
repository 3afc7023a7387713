import DemoEstate.Hosts.DiskFill

/-!
# The incidents of the hosts

Each of the hosts with a story is healthy, degraded or broken, and remembers when it left the
healthy state and when it broke.  What a poll shows follows two ramps that start at these times: a
climb while the host is no longer healthy, and a faster one behind the break.  Requests and the
watchdog toggle the state, and a new process reads it from what an earlier one saved.

Main definitions:

- Definitions {lit}`Process.dump` and {lit}`load`: the variables as they are saved and read.
- Definitions {lit}`climb` and {lit}`pressure`: the ramps.
- Definition {lit}`Machine.step`: time, toggles, saves and new processes.
- Structure {lit}`Announces`: an alarm that comes with its stage of the incident, and not before.

Main results:

- Theorem {lit}`Machine.Inv.of_run`: the timestamps in every state of a run.
- Theorem {lit}`Alarm.announces`: what holds at each moment holds along every run.
- Theorem {lit}`Machine.later_of_run`: while an incident gets no better, its timestamps stay.
- Theorem {lit}`pressure_mono`: and then the pressure does not fall.
-/

namespace DemoEstate
namespace Hosts
namespace Story

open Netsim (Consistent DeviceState int readIncident readTime timeJson wobble)
open TickBudget.DbPostgres (breakRamp)
open Transition (Graph Meeting Run)
open WinDc (readNum secondsSince severity)

/-! ## The variables of a process -/

/-- The minutes that the two ramps take, and the state that a process starts in. -/
structure Config where
  climbMin : ℚ
  breakRampMin : ℚ
  startState : Netsim.Incident

/-- The variables of the incident. -/
structure Process where
  start : ℚ
  incident : DeviceState

/-- The variables of a process that starts now. -/
def boot (cfg : Config) (now : ℚ) : Process where
  start := now
  incident := DeviceState.started cfg.startState now

/-- The variables as `save_state` writes them. -/
def Process.dump (p : Process) : Json :=
  .obj [("version".toList, .num 1), ("start".toList, .num p.start),
    ("state".toList, .str p.incident.state.name),
    ("degraded_since".toList, timeJson p.incident.degradedSince),
    ("broken_since".toList, timeJson p.incident.brokenSince),
    ("state_since".toList, .num p.incident.stateSince)]

/-- `load_state`, in a process that has just started. -/
def load (fresh : Process) (now : ℚ) (data : Json) : Option Process := do
  let start ← (← data.index "start".toList) |> readNum
  let state ← (← data.get "state".toList (.str fresh.incident.state.name)) |> readIncident
  let degradedSince ← (← data.get "degraded_since".toList .null) |> readTime
  let brokenSince ← (← data.get "broken_since".toList .null) |> readTime
  let stateSince ← (← data.get "state_since".toList (.num now)) |> readNum
  pure { start, incident := { state, stateSince, degradedSince, brokenSince } }

/-- What was saved is read back. -/
theorem load_dump (fresh : Process) (now : ℚ) (p : Process) : load fresh now p.dump = some p := by
  have hstart : p.dump.index "start".toList = some (.num p.start) := rfl
  have hstate : p.dump.get "state".toList (.str fresh.incident.state.name) =
      some (.str p.incident.state.name) := rfl
  have hdegraded : p.dump.get "degraded_since".toList .null =
      some (timeJson p.incident.degradedSince) := rfl
  have hbroken : p.dump.get "broken_since".toList .null =
      some (timeJson p.incident.brokenSince) := rfl
  have hsince : p.dump.get "state_since".toList (.num now) =
      some (.num p.incident.stateSince) := rfl
  simp only [load, hstart, hstate, hdegraded, hbroken, hsince, readNum,
    DeviceState.readIncident_name, DeviceState.readTime_timeJson, Option.bind_eq_bind,
    Option.bind_some, Option.pure_def]

theorem dump_injective {p q : Process} (h : p.dump = q.dump) : p = q := by
  have hread := load_dump p 0 p
  rw [h, load_dump] at hread
  exact (Option.some.inj hread).symm

/-! ## The stages of an incident -/

/-- An incident begins when the host leaves its healthy state, and may break. -/
inductive Stage
  | begun
  | broken
deriving DecidableEq

/-- The time at which a stage began. -/
def Stage.since : Stage → DeviceState → Option ℚ
  | .begun, s => s.degradedSince
  | .broken, s => s.brokenSince

/-- The states of a stage. -/
def Stage.Reached : Stage → DeviceState → Prop
  | .begun, s => s.state ≠ .healthy
  | .broken, s => s.state = .broken

instance (stage : Stage) (s : DeviceState) : Decidable (stage.Reached s) :=
  match stage with
  | .begun => inferInstanceAs (Decidable (s.state ≠ .healthy))
  | .broken => inferInstanceAs (Decidable (s.state = .broken))

section Stages

variable {stage : Stage} {now later : ℚ} {s s' : DeviceState} {p : Process}

theorem reached_iff (h : Consistent now s) : stage.Reached s ↔ stage.since s ≠ none := by
  cases stage with
  | begun => exact not_congr h.healthy_iff.symm
  | broken => exact h.broken_iff.symm

theorem reached_of_severity (hworse : severity s.state ≤ severity s'.state)
    (h : stage.Reached s) : stage.Reached s' := by
  cases stage with
  | begun =>
      intro hhealthy
      rw [hhealthy] at hworse
      cases hstate : s.state <;> simp [hstate, severity] at hworse
      exact h hstate
  | broken =>
      rw [show s.state = .broken from h] at hworse
      cases hstate : s'.state <;> simp [hstate, severity] at hworse
      exact hstate

/-- A toggle within a stage keeps its time. -/
theorem since_setAt {value : Netsim.Incident} {t t₁ t₂ t₃ : ℚ} (h : stage.since s = some t)
    (hreached : stage.Reached (s.setAt value t₁ t₂ t₃)) :
    stage.since (s.setAt value t₁ t₂ t₃) = some t := by
  cases stage with
  | begun =>
      have hvalue : value ≠ .healthy := hreached
      have hsince : s.degradedSince = some t := h
      simp [Stage.since, DeviceState.setAt, hvalue, hsince]
  | broken =>
      have hvalue : value = .broken := hreached
      have hsince : s.brokenSince = some t := h
      simp [Stage.since, DeviceState.setAt, hvalue, hsince]

/-- Every time is a past one. -/
structure Valid (now : ℚ) (p : Process) : Prop where
  timestamps : Consistent now p.incident
  past : ∀ stage : Stage, ∀ t ∈ stage.since p.incident, t ≤ now
  started : p.start ≤ now

/-- An incident that has not begun has not broken. -/
theorem Valid.not_broken (h : Valid now p) (hnone : p.incident.degradedSince = none) :
    p.incident.brokenSince = none := by
  by_contra hne
  have hbroken := h.timestamps.broken_iff.mp hne
  rw [h.timestamps.healthy_iff.mp hnone] at hbroken
  cases hbroken

/-- A broken incident began no later than it broke. -/
theorem Valid.exists_begun (h : Valid now p) {b : ℚ} (hsince : p.incident.brokenSince = some b) :
    ∃ d, p.incident.degradedSince = some d ∧ d ≤ b := by
  have hstate := h.timestamps.broken_iff.mp (by rw [hsince]; exact Option.some_ne_none b)
  have hbegun : p.incident.degradedSince ≠ none := by
    rw [Ne, h.timestamps.healthy_iff, hstate]
    decide
  rcases Option.ne_none_iff_exists'.mp hbegun with ⟨d, hd⟩
  exact ⟨d, hd, h.timestamps.ordered d hd b hsince⟩

theorem valid_boot (cfg : Config) (now : ℚ) : Valid now (boot cfg now) where
  timestamps := Netsim.consistent_started cfg.startState now
  past := by
    rintro (_ | _) t ht <;> simp only [Stage.since, boot, DeviceState.started] at ht <;> grind
  started := le_rfl

theorem Valid.mono (h : Valid now p) (hle : now ≤ later) : Valid later p where
  timestamps := h.timestamps.mono hle
  past := fun stage t ht => (h.past stage t ht).trans hle
  started := h.started.trans hle

theorem Valid.setAt (h : Valid now p) (value : Netsim.Incident) {t₁ t₂ t₃ : ℚ} (h₂ : now ≤ t₂)
    (h₃ : t₂ ≤ t₃) : Valid t₃ { p with incident := p.incident.setAt value t₁ t₂ t₃ } where
  timestamps := h.timestamps.setAt value h₂ h₃
  past := by
    rintro (_ | _) t ht
    · exact (h.timestamps.setAt value h₂ h₃).past t ht
    · have hpast := h.past .broken
      simp only [Stage.since, DeviceState.setAt] at ht hpast
      grind
  started := h.started.trans (h₂.trans h₃)

end Stages

/-! ## Ramps -/

/-- The part of the climb that is done. -/
def climb (cfg : Config) (s : DeviceState) (now : ℚ) : ℚ :=
  let ds := secondsSince s.degradedSince now
  if ds ≤ 0 then 0
  else if cfg.climbMin ≤ 0 then 1
  else min 1 (ds / (cfg.climbMin * 60))

/-- `break_ramp`, at its full length. -/
def ramp (cfg : Config) (s : DeviceState) (now : ℚ) : ℚ :=
  breakRamp cfg.breakRampMin 1 s.brokenSince now

/-- `pressure`: the climb leads up to the knee, and the break over the rest. -/
def pressure (knee rest : ℚ) (cfg : Config) (s : DeviceState) (now : ℚ) : ℚ :=
  let p := knee * climb cfg s now
  let p := if 0 < secondsSince s.brokenSince now then max p (knee + rest * ramp cfg s now) else p
  max 0 (min 1 p)

/-- `gauge`, with an absolute amplitude. -/
def gauge (base ampAbs raw : ℚ) : ℚ :=
  base + ampAbs * wobble raw

/-- The seconds that a part of a ramp takes. -/
def partOf (c minutes : ℚ) : ℚ :=
  max 0 (c * (minutes * 60))

/-- The later timestamps hold all the earlier ones. -/
def Later (s s' : DeviceState) : Prop :=
  ∀ stage : Stage, ∀ t, stage.since s = some t → stage.since s' = some t

section Ramps

variable {cfg : Config} {s s' : DeviceState} {now later d b c knee rest : ℚ}

theorem gauge_mem (base : ℚ) {ampAbs : ℚ} (hamp : 0 ≤ ampAbs) (raw : ℚ) :
    base - ampAbs ≤ gauge base ampAbs raw ∧ gauge base ampAbs raw ≤ base + ampAbs := by
  have hlow := mul_le_mul_of_nonneg_left (Netsim.neg_one_le_wobble raw) hamp
  have hhigh := mul_le_mul_of_nonneg_left (Netsim.wobble_le_one raw) hamp
  constructor <;> simp only [gauge] <;> linarith

theorem lt_int_add_one (q : ℚ) : q < int q + 1 := by
  unfold int
  split
  · exact Int.lt_floor_add_one q
  · exact lt_of_le_of_lt (Int.le_ceil q) (lt_add_one _)

theorem climb_mem (cfg : Config) (s : DeviceState) (now : ℚ) :
    0 ≤ climb cfg s now ∧ climb cfg s now ≤ 1 := by
  unfold climb
  dsimp only
  split
  · exact ⟨le_rfl, zero_le_one⟩
  · rename_i hds
    split
    · exact ⟨zero_le_one, le_rfl⟩
    · rename_i hmin
      have hlength : 0 ≤ cfg.climbMin * 60 := by linarith
      exact ⟨le_min zero_le_one (div_nonneg (not_le.mp hds).le hlength), min_le_left _ _⟩

theorem ramp_mem (cfg : Config) (s : DeviceState) (now : ℚ) :
    0 ≤ ramp cfg s now ∧ ramp cfg s now ≤ 1 :=
  TickBudget.DbPostgres.breakRamp_mem zero_le_one cfg.breakRampMin s.brokenSince now

theorem secondsSince_some (t now : ℚ) : secondsSince (some t) now = now - t :=
  rfl

theorem brokenSeconds_some (t now : ℚ) : TickBudget.brokenSeconds (some t) now = now - t :=
  rfl

theorem climb_of_healthy (h : s.degradedSince = none) : climb cfg s now = 0 := by
  rw [climb, h]
  rfl

theorem secondsSince_of_none (h : s.brokenSince = none) : ¬ 0 < secondsSince s.brokenSince now := by
  rw [h]
  exact lt_irrefl 0

theorem secondsSince_pos (h : s.brokenSince = some b) (hnow : b < now) :
    0 < secondsSince s.brokenSince now := by
  rw [h]
  exact sub_pos.mpr hnow

/-- The ramp behind a break. -/
theorem ramp_of_broken (hsince : s.brokenSince = some b) (hnow : b < now) :
    ramp cfg s now =
      if cfg.breakRampMin ≤ 0 then 1 else min 1 ((now - b) / (cfg.breakRampMin * 60)) := by
  rw [ramp, breakRamp, hsince, brokenSeconds_some, if_neg (not_le.mpr (sub_pos.mpr hnow)), mul_one]

/-- A part of the climb is done after its time. -/
theorem le_climb (hsince : s.degradedSince = some d) (hc : c ≤ 1)
    (hlate : d + partOf c cfg.climbMin < now) : c ≤ climb cfg s now := by
  have hnonneg : 0 ≤ partOf c cfg.climbMin := le_max_left _ _
  have hpart : c * (cfg.climbMin * 60) ≤ partOf c cfg.climbMin := le_max_right _ _
  have hds : 0 < now - d := by linarith
  rw [climb, hsince, secondsSince_some, if_neg (not_le.mpr hds)]
  split
  · exact hc
  · rename_i hmin
    have hlength : 0 < cfg.climbMin * 60 := by linarith
    refine le_min hc ?_
    rw [le_div_iff₀ hlength]
    linarith

/-- A part of the ramp of the break is done after its time. -/
theorem le_ramp (hsince : s.brokenSince = some b) (hc : c ≤ 1)
    (hlate : b + partOf c cfg.breakRampMin < now) : c ≤ ramp cfg s now := by
  have hnonneg : 0 ≤ partOf c cfg.breakRampMin := le_max_left _ _
  have hpart : c * (cfg.breakRampMin * 60) ≤ partOf c cfg.breakRampMin := le_max_right _ _
  rw [ramp_of_broken hsince (by linarith)]
  split
  · exact hc
  · rename_i hmin
    have hlength : 0 < cfg.breakRampMin * 60 := by linarith
    refine le_min hc ?_
    rw [le_div_iff₀ hlength]
    linarith

theorem climb_mono (h : Later s s') (hle : now ≤ later) : climb cfg s now ≤ climb cfg s' later := by
  cases hsince : s.degradedSince with
  | none =>
      rw [climb_of_healthy hsince]
      exact (climb_mem cfg s' later).1
  | some d =>
      have hkept : s'.degradedSince = some d := h .begun d hsince
      rw [climb, climb, hsince, hkept, secondsSince_some, secondsSince_some]
      split
      · have hmem := (climb_mem cfg s' later).1
        rw [climb, hkept, secondsSince_some] at hmem
        exact hmem
      · rename_i hds
        have hds' : ¬ later - d ≤ 0 := by linarith
        rw [if_neg hds']
        split
        · exact le_rfl
        · rename_i hmin
          have hlength : 0 ≤ cfg.climbMin * 60 := by linarith
          exact min_le_min_left 1 (div_le_div_of_nonneg_right (by linarith) hlength)

theorem ramp_mono (h : Later s s') (hle : now ≤ later) : ramp cfg s now ≤ ramp cfg s' later := by
  cases hsince : s.brokenSince with
  | none =>
      have hzero : ramp cfg s now = 0 := by
        rw [ramp, hsince]
        rfl
      rw [hzero]
      exact (ramp_mem cfg s' later).1
  | some b =>
      have hkept : s'.brokenSince = some b := h .broken b hsince
      rw [ramp, ramp, breakRamp, breakRamp, hsince, hkept, brokenSeconds_some, brokenSeconds_some]
      split
      · have hmem := (ramp_mem cfg s' later).1
        rw [ramp, breakRamp, hkept, brokenSeconds_some] at hmem
        exact hmem
      · rename_i hbs
        have hbs' : ¬ later - b ≤ 0 := by linarith
        rw [if_neg hbs']
        split
        · exact le_rfl
        · rename_i hmin
          have hlength : 0 ≤ cfg.breakRampMin * 60 * 1 := by linarith
          exact min_le_min_left 1 (div_le_div_of_nonneg_right (by linarith) hlength)

/-! ## The pressure -/

theorem pressure_mem (knee rest : ℚ) (cfg : Config) (s : DeviceState) (now : ℚ) :
    0 ≤ pressure knee rest cfg s now ∧ pressure knee rest cfg s now ≤ 1 :=
  ⟨le_max_left _ _, max_le zero_le_one (min_le_left _ _)⟩

theorem pressure_of_healthy (hdegraded : s.degradedSince = none) (hbroken : s.brokenSince = none) :
    pressure knee rest cfg s now = 0 := by
  rw [pressure, climb_of_healthy hdegraded, if_neg (secondsSince_of_none hbroken), mul_zero,
    min_eq_right zero_le_one, max_self]

/-- Without a break the pressure stays below the knee. -/
theorem pressure_le_knee (hknee : 0 ≤ knee) (hbroken : s.brokenSince = none) :
    pressure knee rest cfg s now ≤ knee := by
  have hclimb := mul_le_of_le_one_right hknee (climb_mem cfg s now).2
  rw [pressure]
  rw [if_neg (secondsSince_of_none hbroken)]
  exact max_le hknee ((min_le_right _ _).trans hclimb)

/-- The climb counts whether the host is broken or not. -/
theorem le_pressure_of_climb (hknee : 0 ≤ knee) (hone : knee ≤ 1) :
    knee * climb cfg s now ≤ pressure knee rest cfg s now := by
  have hclimb := mul_le_of_le_one_right hknee (climb_mem cfg s now).2
  rw [pressure]
  refine le_max_of_le_right (le_min (hclimb.trans hone) ?_)
  split
  · exact le_max_left _ _
  · exact le_rfl

/-- Behind a break the pressure follows its ramp. -/
theorem le_pressure_of_ramp (hsum : knee + rest ≤ 1) (hrest : 0 ≤ rest)
    (hpos : 0 < secondsSince s.brokenSince now) :
    knee + rest * ramp cfg s now ≤ pressure knee rest cfg s now := by
  have hramp := mul_le_of_le_one_right hrest (ramp_mem cfg s now).2
  rw [pressure]
  rw [if_pos hpos]
  exact le_max_of_le_right (le_min (by linarith) (le_max_right _ _))

/-- While the timestamps stay, the pressure does not fall. -/
theorem pressure_mono (hknee : 0 ≤ knee) (hrest : 0 ≤ rest) (h : Later s s') (hle : now ≤ later) :
    pressure knee rest cfg s now ≤ pressure knee rest cfg s' later := by
  have hclimb : knee * climb cfg s now ≤ knee * climb cfg s' later :=
    mul_le_mul_of_nonneg_left (climb_mono h hle) hknee
  have hramp : knee + rest * ramp cfg s now ≤ knee + rest * ramp cfg s' later :=
    add_le_add_right (mul_le_mul_of_nonneg_left (ramp_mono h hle) hrest) knee
  rw [pressure, pressure]
  refine max_le_max_left 0 (min_le_min_left 1 ?_)
  by_cases hpos : 0 < secondsSince s.brokenSince now
  · have hpos' : 0 < secondsSince s'.brokenSince later := by
      cases hsince : s.brokenSince with
      | none => exact absurd hpos (secondsSince_of_none hsince)
      | some b =>
          rw [hsince] at hpos
          exact secondsSince_pos (h .broken b hsince) ((sub_pos.mp hpos).trans_le hle)
    rw [if_pos hpos, if_pos hpos']
    exact max_le_max hclimb hramp
  · rw [if_neg hpos]
    split
    · exact hclimb.trans (le_max_left _ _)
    · exact hclimb

end Ramps

/-! ## Runs of a host -/

/-- The clock, the variables of the running process, and what was saved. -/
structure Machine where
  now : ℚ
  process : Process
  saved : List Json

/-- Time passes, a toggle by a request or by the watchdog, a save, or a new process.  A toggle may
read the clock anew for each time that it sets.  A new process finds one of the saves in its file,
not always the last one, or it finds none. -/
inductive Op where
  | wait (d : ℚ≥0)
  | toggle (value : Netsim.Incident) (d₁ d₂ : ℚ≥0)
  | save
  | restart (file : Option ℕ)
deriving DecidableEq

namespace Machine

def step (cfg : Config) (m : Machine) : Op → Option Machine
  | .wait d => some { m with now := m.now + d }
  | .toggle value d₁ d₂ =>
      let incident := m.process.incident.setAt value m.now (m.now + d₁) (m.now + d₁ + d₂)
      some { m with now := m.now + d₁ + d₂, process := { m.process with incident := incident } }
  | .save => some { m with saved := m.process.dump :: m.saved }
  | .restart none => some { m with process := boot cfg m.now }
  | .restart (some i) => do
      let data ← m.saved[i]?
      let process ← load (boot cfg m.now) m.now data
      some { m with process := process }

/-- A process that starts for the first time. -/
def init (cfg : Config) (first : ℚ) : Machine where
  now := first
  process := boot cfg first
  saved := []

/-- The running process and all that was saved have valid times. -/
structure Inv (m : Machine) : Prop where
  process : Valid m.now m.process
  saved : ∀ data ∈ m.saved, ∃ p : Process, data = p.dump ∧ Valid m.now p

variable {cfg : Config} {first : ℚ} {m m' : Machine} {op : Op} {ops : List Op} {stage : Stage}

theorem inv_init (cfg : Config) (first : ℚ) : Inv (init cfg first) where
  process := valid_boot cfg first
  saved := fun _ h => absurd h List.not_mem_nil

/-- Nothing that is saved is lost, and the clock goes on. -/
theorem Inv.later (h : Inv m) {now : ℚ} {p : Process} (hle : m.now ≤ now) (hp : Valid now p) :
    Inv { m with now := now, process := p } where
  process := hp
  saved := fun data hdata => by
    rcases h.saved data hdata with ⟨q, hq, hvalid⟩
    exact ⟨q, hq, hvalid.mono hle⟩

/-- A process that reads a save has the variables of the process that wrote it. -/
theorem Inv.restart {i : ℕ} (h : Inv m) (hstep : m.step cfg (.restart (some i)) = some m') :
    ∃ p : Process, p.dump ∈ m.saved ∧ Valid m.now p ∧ m' = { m with process := p } := by
  simp only [step, Option.bind_eq_bind, Option.bind_eq_some_iff, Option.some.injEq] at hstep
  rcases hstep with ⟨data, hget, process, hload, rfl⟩
  have hmem := List.mem_of_getElem? hget
  rcases h.saved data hmem with ⟨p, rfl, hvalid⟩
  rw [load_dump, Option.some.injEq] at hload
  subst hload
  exact ⟨p, hmem, hvalid, rfl⟩

theorem le_toggle (now : ℚ) (d₁ d₂ : ℚ≥0) : now ≤ now + d₁ ∧ now + d₁ ≤ now + d₁ + d₂ :=
  ⟨le_add_of_nonneg_right d₁.2, le_add_of_nonneg_right d₂.2⟩

theorem Inv.step (h : Inv m) (hstep : m.step cfg op = some m') : Inv m' := by
  cases op with
  | wait d =>
      simp only [Machine.step, Option.some.injEq] at hstep
      subst hstep
      have hle : m.now ≤ m.now + d := le_add_of_nonneg_right d.2
      exact h.later hle (h.process.mono hle)
  | toggle value d₁ d₂ =>
      simp only [Machine.step, Option.some.injEq] at hstep
      subst hstep
      have hle := le_toggle m.now d₁ d₂
      exact h.later (hle.1.trans hle.2) (h.process.setAt value hle.1 hle.2)
  | save =>
      simp only [Machine.step, Option.some.injEq] at hstep
      subst hstep
      refine ⟨h.process, fun data hdata => ?_⟩
      rcases List.mem_cons.mp hdata with rfl | hdata
      · exact ⟨m.process, rfl, h.process⟩
      · exact h.saved data hdata
  | restart file =>
      cases file with
      | none =>
          simp only [Machine.step, Option.some.injEq] at hstep
          subst hstep
          exact ⟨valid_boot cfg m.now, h.saved⟩
      | some i =>
          rcases h.restart hstep with ⟨p, -, hvalid, rfl⟩
          exact ⟨hvalid, h.saved⟩

/-- In every state of a run the times are valid. -/
theorem Inv.of_run (h : Run (Graph (Machine.step cfg)) (init cfg first) ops m) : Inv m :=
  h.invariant (fun _ _ _ hinv hstep => hinv.step hstep) (inv_init cfg first)

/-! ## Runs within a stage -/

/-- A step that is no fresh start, and after which the host is still in the stage. -/
def Stays (cfg : Config) (stage : Stage) (m : Machine) (op : Op) : Prop :=
  op ≠ .restart none ∧ ∀ m' ∈ m.step cfg op, stage.Reached m'.process.incident

instance (cfg : Config) (stage : Stage) (m : Machine) (op : Op) :
    Decidable (Stays cfg stage m op) := by
  unfold Stays
  infer_instance

/-- The stage began up to some time, in the running process and wherever it was saved. -/
structure BegunBy (stage : Stage) (bound : ℚ) (m : Machine) : Prop where
  process : ∃ t, stage.since m.process.incident = some t ∧ t ≤ bound
  saved : ∀ p : Process, p.dump ∈ m.saved → ∀ t ∈ stage.since p.incident, t ≤ bound

/-- A stage that is reached began in the past. -/
theorem Inv.begunBy (h : Inv m) (hreached : stage.Reached m.process.incident) :
    BegunBy stage m.now m where
  process := by
    have hsince := (reached_iff h.process.timestamps).mp hreached
    rcases Option.ne_none_iff_exists'.mp hsince with ⟨t, ht⟩
    exact ⟨t, ht, h.process.past stage t ht⟩
  saved := by
    intro p hp t ht
    rcases h.saved p.dump hp with ⟨q, hq, hvalid⟩
    obtain rfl := dump_injective hq
    exact hvalid.past stage t ht

/-- Within a stage no step sets its time. -/
theorem BegunBy.step {bound : ℚ} (h : BegunBy stage bound m) (hinv : Inv m)
    (hstays : Stays cfg stage m op) (hstep : m.step cfg op = some m') :
    BegunBy stage bound m' := by
  have hreached : stage.Reached m'.process.incident := hstays.2 m' hstep
  rcases h.process with ⟨t, hsince, hle⟩
  cases op with
  | wait d =>
      simp only [Machine.step, Option.some.injEq] at hstep
      subst hstep
      exact ⟨⟨t, hsince, hle⟩, h.saved⟩
  | toggle value d₁ d₂ =>
      simp only [Machine.step, Option.some.injEq] at hstep
      subst hstep
      exact ⟨⟨t, since_setAt hsince hreached, hle⟩, h.saved⟩
  | save =>
      simp only [Machine.step, Option.some.injEq] at hstep
      subst hstep
      refine ⟨⟨t, hsince, hle⟩, fun p hp t' ht' => ?_⟩
      rcases List.mem_cons.mp hp with hsaved | hp
      · obtain rfl := dump_injective hsaved
        obtain rfl := Option.some.inj (hsince.symm.trans ht')
        exact hle
      · exact h.saved p hp t' ht'
  | restart file =>
      cases file with
      | none => exact absurd rfl hstays.1
      | some i =>
          rcases hinv.restart hstep with ⟨p, hmem, hvalid, rfl⟩
          have hne := (reached_iff hvalid.timestamps).mp hreached
          rcases Option.ne_none_iff_exists'.mp hne with ⟨t', ht'⟩
          exact ⟨⟨t', ht', h.saved p hmem t' ht'⟩, h.saved⟩

/-- Along a run within a stage its time stays in the past of the first state. -/
theorem begunBy_of_run (hinv : Inv m) (hreached : stage.Reached m.process.incident)
    (hrun : Run (Meeting (Graph (step cfg)) (Stays cfg stage)) m ops m') :
    Inv m' ∧ BegunBy stage m.now m' := by
  refine Run.invariant (I := fun n => Inv n ∧ BegunBy stage m.now n) ?_ hrun
    ⟨hinv, hinv.begunBy hreached⟩
  rintro n op n' ⟨hinv', hbegun⟩ ⟨hstep, hstays⟩
  exact ⟨hinv'.step hstep, hbegun.step hinv' hstays hstep⟩

end Machine

/-! ## Alarms -/

section Alarms

variable {Noise : Type} {cfg : Config} {stage : Stage} {shows : Process → ℚ → Noise → Prop}
  {delay first : ℚ} {ops : List Op} {m : Machine}

/-- At no moment is an alarm shown before its stage began, and from some time after that it is shown
at every one. -/
structure Alarm (stage : Stage) (shows : Process → ℚ → Noise → Prop) (delay : ℚ) : Prop where
  quiet : ∀ now p noise, Valid now p → stage.since p.incident = none → ¬ shows p now noise
  loud : ∀ now p noise t, Valid now p → stage.since p.incident = some t → t + delay < now →
    shows p now noise

/-- A poll that shows the alarm has reached its stage, whatever its noise.  Once the stage is
reached, then after the delay, and until the stage is left or the host starts afresh, every poll
shows it. -/
structure Announces (cfg : Config) (stage : Stage) (shows : Process → ℚ → Noise → Prop) (delay : ℚ)
    (m : Machine) : Prop where
  sound : ∀ noise, shows m.process m.now noise → stage.Reached m.process.incident
  complete : stage.Reached m.process.incident → ∀ ops m',
    Run (Meeting (Graph (Machine.step cfg)) (Machine.Stays cfg stage)) m ops m' →
      m.now + delay < m'.now → ∀ noise, shows m'.process m'.now noise

/-- What holds of an alarm at each moment holds along every run. -/
theorem Alarm.announces (h : Alarm stage shows delay)
    (hrun : Run (Graph (Machine.step cfg)) (Machine.init cfg first) ops m) :
    Announces cfg stage shows delay m := by
  have hinv := Machine.Inv.of_run hrun
  constructor
  · intro noise hshows
    by_contra hnot
    have hnone := not_not.mp (mt (reached_iff hinv.process.timestamps).mpr hnot)
    exact h.quiet m.now m.process noise hinv.process hnone hshows
  · intro hreached ops' m' hstays hlate noise
    rcases Machine.begunBy_of_run hinv hreached hstays with ⟨hinv', hbegun⟩
    rcases hbegun.process with ⟨t, hsince, hle⟩
    exact h.loud m'.now m'.process noise t hinv'.process hsince (by linarith)

end Alarms

/-! ## Incidents that get no better -/

namespace Machine

variable {cfg : Config} {first : ℚ} {m n n' : Machine} {op : Op} {ops : List Op}

/-- A step that is no fresh start, and after which the incident is as bad as before or worse. -/
def Forward (cfg : Config) (m : Machine) (op : Op) : Prop :=
  op ≠ .restart none ∧
    ∀ m' ∈ m.step cfg op,
      severity m.process.incident.state ≤ severity m'.process.incident.state

instance (cfg : Config) (m : Machine) (op : Op) : Decidable (Forward cfg m op) := by
  unfold Forward
  infer_instance

/-- The host without what was saved so far. -/
def forget (m : Machine) : Machine :=
  { m with saved := [] }

/-- A stretch in which the incident gets no better, and new processes read what was saved in it. -/
def Onward (cfg : Config) (m : Machine) (ops : List Op) (m' : Machine) : Prop :=
  Run (Meeting (Graph (Machine.step cfg)) (Forward cfg)) m.forget ops m'

/-- Two incidents in one state, with the same timestamps of their stages. -/
def SameIncident (s s' : DeviceState) : Prop :=
  s.state = s'.state ∧ ∀ stage : Stage, stage.since s = stage.since s'

/-- Behind a stretch: the clock has gone on, the timestamps stayed, and what was saved is not as
bad as the incident is now, or the same. -/
structure Behind (m n : Machine) : Prop where
  now_le : m.now ≤ n.now
  start_eq : n.process.start = m.process.start
  later : Later m.process.incident n.process.incident
  saved : ∀ p : Process, p.dump ∈ n.saved → p.start = m.process.start ∧
    (severity p.incident.state < severity n.process.incident.state ∨
      SameIncident p.incident n.process.incident)

theorem behind_forget (m : Machine) : Behind m m.forget where
  now_le := le_rfl
  start_eq := rfl
  later := fun _ _ h => h
  saved := fun _ h => absurd h List.not_mem_nil

/-- A toggle that makes it no better keeps the timestamps. -/
theorem later_setAt {now : ℚ} {s : DeviceState} (h : Consistent now s) {value : Netsim.Incident}
    {t₁ t₂ t₃ : ℚ} (hworse : severity s.state ≤ severity (s.setAt value t₁ t₂ t₃).state) :
    Later s (s.setAt value t₁ t₂ t₃) := by
  intro stage t hsince
  have hreached : stage.Reached s := (reached_iff h).mpr (by rw [hsince]; exact Option.some_ne_none t)
  exact since_setAt hsince (reached_of_severity hworse hreached)

/-- A toggle to the state that the host is in changes nothing. -/
theorem sameIncident_setAt {now : ℚ} {s : DeviceState} (h : Consistent now s)
    {value : Netsim.Incident} {t₁ t₂ t₃ : ℚ}
    (hsame : severity s.state = severity (s.setAt value t₁ t₂ t₃).state) :
    s.setAt value t₁ t₂ t₃ = s := by
  have hvalue : value = s.state := by
    have hset : (s.setAt value t₁ t₂ t₃).state = value := rfl
    rw [hset] at hsame
    cases hstate : s.state <;> cases value <;> simp [hstate, severity] at hsame ⊢
  subst hvalue
  exact h.setAt_state t₁ t₂ t₃

theorem Behind.step (h : Behind m n) (hinv : Inv n) (hforward : Forward cfg n op)
    (hstep : n.step cfg op = some n') : Behind m n' := by
  have hworse := hforward.2 n' hstep
  cases op with
  | wait d =>
      simp only [Machine.step, Option.some.injEq] at hstep
      subst hstep
      exact ⟨h.now_le.trans (le_add_of_nonneg_right d.2), h.start_eq, h.later, h.saved⟩
  | toggle value d₁ d₂ =>
      simp only [Machine.step, Option.some.injEq] at hstep
      subst hstep
      dsimp only at hworse
      have hle := le_toggle n.now d₁ d₂
      have htimes := hinv.process.timestamps
      refine ⟨h.now_le.trans (hle.1.trans hle.2), h.start_eq, ?_, fun p hp => ?_⟩
      · exact fun stage t ht => later_setAt htimes hworse stage t (h.later stage t ht)
      · rcases h.saved p hp with ⟨hstart, hless | hsame⟩
        · exact ⟨hstart, Or.inl (hless.trans_le hworse)⟩
        · rcases hworse.eq_or_lt with heq | hlt
          · rw [sameIncident_setAt htimes heq]
            exact ⟨hstart, Or.inr hsame⟩
          · exact ⟨hstart, Or.inl (hsame.1 ▸ hlt)⟩
  | save =>
      simp only [Machine.step, Option.some.injEq] at hstep
      subst hstep
      refine ⟨h.now_le, h.start_eq, h.later, fun p hp => ?_⟩
      rcases List.mem_cons.mp hp with hsaved | hp
      · obtain rfl := dump_injective hsaved
        exact ⟨h.start_eq, Or.inr ⟨rfl, fun _ => rfl⟩⟩
      · exact h.saved p hp
  | restart file =>
      cases file with
      | none => exact absurd rfl hforward.1
      | some i =>
          rcases hinv.restart hstep with ⟨p, hmem, -, rfl⟩
          rcases h.saved p hmem with ⟨hstart, hless | hsame⟩
          · exact absurd hworse hless.not_ge
          · refine ⟨h.now_le, hstart, ?_, fun q hq => ?_⟩
            · exact fun stage t ht => (hsame.2 stage).trans (h.later stage t ht)
            · rcases h.saved q hq with ⟨hstart', hless' | hsame'⟩
              · exact ⟨hstart', Or.inl (hsame.1 ▸ hless')⟩
              · exact ⟨hstart', Or.inr ⟨hsame'.1.trans hsame.1.symm,
                  fun stage => (hsame'.2 stage).trans (hsame.2 stage).symm⟩⟩

/-- From any state on, while the incident gets no better, the timestamps stay. -/
theorem later_of_run (hinv : Inv m) (hrun : Onward cfg m ops n) : Inv n ∧ Behind m n := by
  have hforget : Inv m.forget := ⟨hinv.process, fun _ h => absurd h List.not_mem_nil⟩
  refine Run.invariant (I := fun n => Inv n ∧ Behind m n) ?_ hrun ⟨hforget, behind_forget m⟩
  rintro k op k' ⟨hinv', hbehind⟩ ⟨hstep, hforward⟩
  exact ⟨hinv'.step hstep, hbehind.step hinv' hforward hstep⟩

end Machine

end Story
end Hosts
end DemoEstate
