import DemoEstate.Hosts.TickBudget
import DemoEstate.Library.Ramp
import DemoEstate.Netsim.Incidents

/-!
# The filling disk of the Windows host

The incident of the Windows host fills its disk.  A first ramp runs from the moment the host leaves
its healthy state; a second one starts at the break from wherever the fill then stands, and the
fill follows whichever is higher.  Toggles move the host between its states, and a new process
reads the variables of the incident from what an earlier one saved.

Main definitions:

- Definitions {lit}`Globals.setState` and {lit}`pressure`: a toggle, and the fill at a time.
- Definitions {lit}`Globals.dump` and {lit}`load`: the variables as they are saved and read.
- Inductive {lit}`Phase`: what the variables look like in each state.
- Definition {lit}`Machine.step`: time, toggles, saves and new processes.

Main results:

- Theorem {lit}`load_dump`: what was saved is read back.
- Theorem {lit}`Phase.of_run`: the variables in every state of a run.
- Theorem {lit}`smooth_of_run`: while the incident only gets worse, the fill grows steadily.
-/

namespace DemoEstate
namespace Hosts
namespace WinDc

open Netsim (readIncident readTime timeJson)
open TickBudget (lerp)
open Transition (Graph Meeting Run)

/-! ## Toggles -/

/-- The minutes that the two ramps take, and the state that a process starts in. -/
structure Config where
  leakFillMin : ℚ
  breakRampMin : ℚ
  startState : Netsim.Incident

/-- Both ramps take some time. -/
structure Config.Timed (cfg : Config) : Prop where
  leak_pos : 0 < cfg.leakFillMin
  break_pos : 0 < cfg.breakRampMin

/-- The defaults of the host, which starts healthy. -/
def Config.defaults : Config where
  leakFillMin := 18
  breakRampMin := 4
  startState := .healthy

/-- The variables of the incident. -/
structure Globals where
  start : ℚ
  state : Netsim.Incident
  degradedSince : Option ℚ
  brokenSince : Option ℚ
  stateSince : ℚ
  pressureAtBreak : ℚ
  backupSince : ℚ
  cleanupRan : ℚ

/-- `UPTIME_OFFSET`. -/
def uptimeOffset : ℚ := 41 * 86400

/-- The variables of a process that starts now. -/
def boot (cfg : Config) (now : ℚ) : Globals where
  start := now
  state := cfg.startState
  degradedSince := if cfg.startState = .healthy then none else some now
  brokenSince := if cfg.startState ≠ .broken then none else some now
  stateSince := now
  pressureAtBreak := 78 / 100
  backupSince := now - uptimeOffset
  cleanupRan := 0

/-- The seconds since a moment, if there was one. -/
def secondsSince : Option ℚ → ℚ → ℚ
  | none, _ => 0
  | some since, now => now - since

/-- `_deg_pressure`. -/
def degPressure (cfg : Config) (ds : ℚ) : ℚ :=
  if ds ≤ 0 then 0
  else if cfg.leakFillMin ≤ 0 then 78 / 100
  else 78 / 100 * min 1 (ds / (cfg.leakFillMin * 60))

/-- The critical section of `set_state`. -/
def Globals.setState (cfg : Config) (g : Globals) (value : Netsim.Incident) (now : ℚ) : Globals :=
  let degradedSince :=
    if value = .healthy then none
    else if g.degradedSince = none then some now else g.degradedSince
  { start := g.start
    state := value
    stateSince := if value ≠ g.state then now else g.stateSince
    backupSince := if value = .healthy ∧ g.state ≠ .healthy then now else g.backupSince
    cleanupRan := if value = .healthy ∧ g.state ≠ .healthy then now else g.cleanupRan
    degradedSince := degradedSince
    pressureAtBreak :=
      if value = .broken ∧ g.brokenSince = none then
        degPressure cfg (secondsSince degradedSince now)
      else g.pressureAtBreak
    brokenSince :=
      if value = .broken then
        if g.brokenSince = none then some now else g.brokenSince
      else none }

/-- `pressure`. -/
def pressure (cfg : Config) (g : Globals) (now : ℚ) : ℚ :=
  let bs := secondsSince g.brokenSince now
  let p := degPressure cfg (secondsSince g.degradedSince now)
  let p :=
    if 0 < bs then
      let ramp := if cfg.breakRampMin ≤ 0 then 1 else min 1 (bs / (cfg.breakRampMin * 60))
      max p (lerp g.pressureAtBreak 1 ramp)
    else p
  max 0 (min 1 p)

/-! ## Saving and reading -/

/-- The number that a value stands for. -/
def readNum : Json → Option ℚ
  | .num q => some q
  | _ => none

/-- The variables as `save_state` writes them. -/
def Globals.dump (g : Globals) : Json :=
  .obj [("version".toList, .num 2), ("start".toList, .num g.start),
    ("state".toList, .str g.state.name), ("degraded_since".toList, timeJson g.degradedSince),
    ("broken_since".toList, timeJson g.brokenSince), ("state_since".toList, .num g.stateSince),
    ("pressure_at_break".toList, .num g.pressureAtBreak),
    ("backup_since".toList, .num g.backupSince), ("cleanup_ran".toList, .num g.cleanupRan)]

/-- `load_state`, in a process that has just started. -/
def load (fresh : Globals) (now : ℚ) (data : Json) : Option Globals := do
  let start ← (← data.index "start".toList) |> readNum
  let state ← (← data.get "state".toList (.str fresh.state.name)) |> readIncident
  let degradedSince ← (← data.get "degraded_since".toList .null) |> readTime
  let brokenSince ← (← data.get "broken_since".toList .null) |> readTime
  let stateSince ← (← data.get "state_since".toList (.num now)) |> readNum
  let pressureAtBreak ← (← data.get "pressure_at_break".toList (.num (78 / 100))) |> readNum
  let backupSince ← (← data.get "backup_since".toList (.num (start - uptimeOffset))) |> readNum
  let cleanupRan ← (← data.get "cleanup_ran".toList (.num 0)) |> readNum
  pure { start, state, degradedSince, brokenSince, stateSince, pressureAtBreak, backupSince,
         cleanupRan }

/-- What was saved is read back. -/
theorem load_dump (fresh : Globals) (now : ℚ) (g : Globals) : load fresh now g.dump = some g := by
  have hstart : g.dump.index "start".toList = some (.num g.start) := rfl
  have hstate : g.dump.get "state".toList (.str fresh.state.name) = some (.str g.state.name) := rfl
  have hdegraded : g.dump.get "degraded_since".toList .null = some (timeJson g.degradedSince) := rfl
  have hbroken : g.dump.get "broken_since".toList .null = some (timeJson g.brokenSince) := rfl
  have hsince : g.dump.get "state_since".toList (.num now) = some (.num g.stateSince) := rfl
  have hpressure : g.dump.get "pressure_at_break".toList (.num (78 / 100)) =
      some (.num g.pressureAtBreak) := rfl
  have hbackup : g.dump.get "backup_since".toList (.num (g.start - uptimeOffset)) =
      some (.num g.backupSince) := rfl
  have hcleanup : g.dump.get "cleanup_ran".toList (.num 0) = some (.num g.cleanupRan) := rfl
  simp only [load, hstart, hstate, hdegraded, hbroken, hsince, hpressure, hbackup, hcleanup,
    readNum, Netsim.DeviceState.readIncident_name, Netsim.DeviceState.readTime_timeJson,
    Option.bind_eq_bind, Option.bind_some, Option.pure_def]

/-! ## The variables in each state -/

/-- What the break found: the fill at that moment, unless the process started broken. -/
def Captured (cfg : Config) (g : Globals) (d b : ℚ) : Prop :=
  g.pressureAtBreak = degPressure cfg (b - d) ∨
    (cfg.startState = .broken ∧ d = b ∧ b = g.start ∧ g.pressureAtBreak = 78 / 100)

/-- A host is healthy, left that state at some time, or broke after that. -/
inductive Phase (cfg : Config) (now : ℚ) (g : Globals) : Prop
  | healthy (hstate : g.state = .healthy) (hdegraded : g.degradedSince = none)
      (hbroken : g.brokenSince = none)
  | degraded (d : ℚ) (hstate : g.state = .degraded) (hdegraded : g.degradedSince = some d)
      (hbroken : g.brokenSince = none) (hpast : d ≤ now)
  | broken (d b : ℚ) (hstate : g.state = .broken) (hdegraded : g.degradedSince = some d)
      (hbroken : g.brokenSince = some b) (hdb : d ≤ b) (hpast : b ≤ now)
      (hcaptured : Captured cfg g d b)

section Phase

variable {cfg : Config} {now later : ℚ} {g : Globals}

theorem phase_boot (cfg : Config) (now : ℚ) : Phase cfg now (boot cfg now) := by
  cases hstart : cfg.startState with
  | healthy => exact .healthy hstart (by simp [boot, hstart]) (by simp [boot, hstart])
  | degraded =>
      exact .degraded now hstart (by simp [boot, hstart]) (by simp [boot, hstart]) le_rfl
  | broken =>
      exact .broken now now hstart (by simp [boot, hstart]) (by simp [boot, hstart]) le_rfl le_rfl
        (Or.inr ⟨hstart, rfl, rfl, rfl⟩)

theorem Phase.mono (h : Phase cfg now g) (hle : now ≤ later) : Phase cfg later g := by
  cases h with
  | healthy hstate hdegraded hbroken => exact .healthy hstate hdegraded hbroken
  | degraded d hstate hdegraded hbroken hpast =>
      exact .degraded d hstate hdegraded hbroken (hpast.trans hle)
  | broken d b hstate hdegraded hbroken hdb hpast hcaptured =>
      exact .broken d b hstate hdegraded hbroken hdb (hpast.trans hle) hcaptured

/-- A host that leaves its healthy state does so now, and one that has left it keeps the time. -/
theorem Phase.exists_degradedSince (h : Phase cfg now g) {value : Netsim.Incident}
    (hvalue : value ≠ .healthy) :
    ∃ d, d ≤ now ∧ (g.setState cfg value now).degradedSince = some d := by
  cases h with
  | healthy hstate hdegraded hbroken =>
      exact ⟨now, le_rfl, by simp [Globals.setState, hvalue, hdegraded]⟩
  | degraded d hstate hdegraded hbroken hpast =>
      exact ⟨d, hpast, by simp [Globals.setState, hvalue, hdegraded]⟩
  | broken d b hstate hdegraded hbroken hdb hpast hcaptured =>
      exact ⟨d, hdb.trans hpast, by simp [Globals.setState, hvalue, hdegraded]⟩

/-- A toggle leads to the phase of its state. -/
theorem Phase.setState (h : Phase cfg now g) (value : Netsim.Incident) :
    Phase cfg now (g.setState cfg value now) := by
  cases value with
  | healthy => exact .healthy rfl (by simp [Globals.setState]) (by simp [Globals.setState])
  | degraded =>
      obtain ⟨d, hd, hsince⟩ := h.exists_degradedSince (show Netsim.Incident.degraded ≠ .healthy by decide)
      exact .degraded d rfl hsince (by simp [Globals.setState]) hd
  | broken =>
      obtain ⟨d, hd, hsince⟩ := h.exists_degradedSince (show Netsim.Incident.broken ≠ .healthy by decide)
      have hbreak : g.brokenSince = none →
          Phase cfg now (g.setState cfg .broken now) := by
        intro hnone
        refine .broken d now rfl hsince (by simp [Globals.setState, hnone]) hd le_rfl (Or.inl ?_)
        have hfound : (g.setState cfg .broken now).pressureAtBreak =
            degPressure cfg (secondsSince (g.setState cfg .broken now).degradedSince now) := by
          simp [Globals.setState, hnone]
        rw [hfound, hsince, secondsSince]
      cases h with
      | healthy _ _ hbroken => exact hbreak hbroken
      | degraded _ _ _ hbroken _ => exact hbreak hbroken
      | broken d' b hstate hdegraded hbroken hdb hpast hcaptured =>
          -- it was broken before, and nothing that counts changes
          have hkept : (g.setState cfg .broken now).pressureAtBreak = g.pressureAtBreak := by
            simp [Globals.setState, hbroken]
          refine .broken d' b rfl (by simp [Globals.setState, hdegraded])
            (by simp [Globals.setState, hbroken]) hdb hpast ?_
          rw [Captured, hkept]
          exact hcaptured

end Phase

/-! ## The curve of the fill -/

section Curve

variable {cfg : Config} {g : Globals} {now d b t t' : ℚ}

/-- The ramp of the leak, from the moment the host left its healthy state. -/
def leakRamp (hcfg : cfg.Timed) (d : ℚ) : Ramp ℚ where
  low := 0
  high := 78 / 100
  start := d
  length := cfg.leakFillMin * 60
  low_le_high := by norm_num
  length_pos := mul_pos hcfg.leak_pos (by norm_num)

/-- The ramp of a break, from the fill that it found. -/
def breakRamp (hcfg : cfg.Timed) {p₀ : ℚ} (hp₀ : p₀ ≤ 1) (b : ℚ) : Ramp ℚ where
  low := p₀
  high := 1
  start := b
  length := cfg.breakRampMin * 60
  low_le_high := hp₀
  length_pos := mul_pos hcfg.break_pos (by norm_num)

theorem degPressure_eq (hcfg : cfg.Timed) (d t : ℚ) :
    degPressure cfg (t - d) = (leakRamp hcfg d).value t := by
  unfold degPressure
  split
  · rename_i hbefore
    exact (Ramp.value_of_le (r := leakRamp hcfg d) (sub_nonpos.mp hbefore)).symm
  · rename_i hafter
    have hfraction : 0 ≤ (t - d) / (cfg.leakFillMin * 60) :=
      div_nonneg (not_le.mp hafter).le (leakRamp hcfg d).length_pos.le
    rw [if_neg (not_le.mpr hcfg.leak_pos), Ramp.value]
    simp only [leakRamp, sub_zero, zero_add]
    rw [max_eq_right (le_min zero_le_one hfraction)]

/-- Past the break, the second ramp as the code computes it. -/
theorem lerp_eq_value (hcfg : cfg.Timed) {p₀ : ℚ} (hp₀ : p₀ ≤ 1) (hbt : b ≤ t) :
    lerp p₀ 1 (min 1 ((t - b) / (cfg.breakRampMin * 60))) = (breakRamp hcfg hp₀ b).value t := by
  have hfraction : 0 ≤ (t - b) / (cfg.breakRampMin * 60) :=
    div_nonneg (sub_nonneg.mpr hbt) (breakRamp hcfg hp₀ b).length_pos.le
  rw [Ramp.value, lerp]
  simp only [breakRamp]
  rw [max_eq_right (le_min zero_le_one hfraction)]

theorem leak_nonneg (hcfg : cfg.Timed) (d t : ℚ) : 0 ≤ (leakRamp hcfg d).value t :=
  (leakRamp hcfg d).low_le_value t

theorem leak_le (hcfg : cfg.Timed) (d t : ℚ) : (leakRamp hcfg d).value t ≤ 78 / 100 :=
  (leakRamp hcfg d).value_le_high t

theorem Captured.nonneg (hcfg : cfg.Timed) (h : Captured cfg g d b) : 0 ≤ g.pressureAtBreak := by
  rcases h with h | ⟨-, -, -, h⟩
  · rw [h, degPressure_eq hcfg]
    exact leak_nonneg hcfg d b
  · rw [h]
    norm_num

theorem Captured.le (hcfg : cfg.Timed) (h : Captured cfg g d b) :
    g.pressureAtBreak ≤ 78 / 100 := by
  rcases h with h | ⟨-, -, -, h⟩
  · rw [h, degPressure_eq hcfg]
    exact leak_le hcfg d b
  · rw [h]

theorem Captured.le_one (hcfg : cfg.Timed) (h : Captured cfg g d b) : g.pressureAtBreak ≤ 1 :=
  (h.le hcfg).trans (by norm_num)

/-- The pressure lies between 0 and 1, whatever the variables are. -/
theorem pressure_mem (cfg : Config) (g : Globals) (t : ℚ) :
    0 ≤ pressure cfg g t ∧ pressure cfg g t ≤ 1 :=
  ⟨le_max_left _ _, max_le zero_le_one (min_le_left _ _)⟩

theorem pressure_healthy (hdegraded : g.degradedSince = none) (hbroken : g.brokenSince = none)
    (t : ℚ) : pressure cfg g t = 0 := by
  simp [pressure, hdegraded, hbroken, secondsSince, degPressure]

/-- Up to a break the fill follows the ramp of the leak. -/
theorem pressure_leak (hcfg : cfg.Timed) (hdegraded : g.degradedSince = some d)
    (hbroken : ∀ b ∈ g.brokenSince, t ≤ b) : pressure cfg g t = (leakRamp hcfg d).value t := by
  have hnot : ¬ 0 < secondsSince g.brokenSince t := by
    cases hb : g.brokenSince with
    | none => exact lt_irrefl 0
    | some b => exact not_lt.mpr (sub_nonpos.mpr (hbroken b hb))
  have hleak : degPressure cfg (secondsSince g.degradedSince t) = (leakRamp hcfg d).value t := by
    rw [hdegraded]
    exact degPressure_eq hcfg d t
  have hhigh : (leakRamp hcfg d).value t ≤ 1 := (leak_le hcfg d t).trans (by norm_num)
  unfold pressure
  dsimp only
  rw [if_neg hnot, hleak, min_eq_right hhigh, max_eq_right (leak_nonneg hcfg d t)]

/-- After a break the fill follows the higher one of both ramps. -/
theorem pressure_break (hcfg : cfg.Timed) (hdegraded : g.degradedSince = some d)
    (hbroken : g.brokenSince = some b) (hp₀ : g.pressureAtBreak ≤ 1) (hbt : b < t) :
    pressure cfg g t = max ((leakRamp hcfg d).value t) ((breakRamp hcfg hp₀ b).value t) := by
  have hpos : 0 < secondsSince g.brokenSince t := by
    rw [hbroken]
    exact sub_pos.mpr hbt
  have hleak : degPressure cfg (secondsSince g.degradedSince t) = (leakRamp hcfg d).value t := by
    rw [hdegraded]
    exact degPressure_eq hcfg d t
  have hhigh : max ((leakRamp hcfg d).value t) ((breakRamp hcfg hp₀ b).value t) ≤ 1 :=
    max_le ((leak_le hcfg d t).trans (by norm_num)) ((breakRamp hcfg hp₀ b).value_le_high t)
  unfold pressure
  dsimp only
  rw [if_pos hpos, if_neg (not_le.mpr hcfg.break_pos), hleak, hbroken, secondsSince,
    lerp_eq_value hcfg hp₀ hbt.le, min_eq_right hhigh,
    max_eq_right ((leak_nonneg hcfg d t).trans (le_max_left _ _))]

/-- While the state stays, the fill does not fall. -/
theorem Phase.pressure_mono (hcfg : cfg.Timed) (h : Phase cfg now g) (htt' : t ≤ t') :
    pressure cfg g t ≤ pressure cfg g t' := by
  cases h with
  | healthy _ hdegraded hbroken =>
      rw [pressure_healthy hdegraded hbroken, pressure_healthy hdegraded hbroken]
  | degraded d _ hdegraded hbroken _ =>
      have hleak : ∀ u, pressure cfg g u = (leakRamp hcfg d).value u := fun u =>
        pressure_leak hcfg hdegraded (by simp [hbroken])
      rw [hleak, hleak]
      exact (leakRamp hcfg d).value_mono htt'
  | broken d b _ hdegraded hbroken _ hpast hcaptured =>
      have hp₀ := hcaptured.le_one hcfg
      have hleak : ∀ u, u ≤ b → pressure cfg g u = (leakRamp hcfg d).value u := fun u hu =>
        pressure_leak hcfg hdegraded (by simpa [hbroken] using hu)
      have hmono := (leakRamp hcfg d).value_mono htt'
      by_cases hbt : b < t
      · rw [pressure_break hcfg hdegraded hbroken hp₀ hbt,
          pressure_break hcfg hdegraded hbroken hp₀ (hbt.trans_le htt')]
        exact max_le_max hmono ((breakRamp hcfg hp₀ b).value_mono htt')
      · rw [hleak t (not_lt.mp hbt)]
        by_cases hbt' : b < t'
        · rw [pressure_break hcfg hdegraded hbroken hp₀ hbt']
          exact hmono.trans (le_max_left _ _)
        · rw [hleak t' (not_lt.mp hbt')]
          exact hmono

/-- A bound on how fast the fill can grow. -/
def steepest (cfg : Config) : ℚ :=
  78 / 100 / (cfg.leakFillMin * 60) + 1 / (cfg.breakRampMin * 60)

theorem leak_sub_le (hcfg : cfg.Timed) (d : ℚ) (htt' : t ≤ t') :
    (leakRamp hcfg d).value t' - (leakRamp hcfg d).value t ≤ steepest cfg * (t' - t) := by
  have hsteep : (leakRamp hcfg d).steepness ≤ steepest cfg := by
    have hother : 0 ≤ 1 / (cfg.breakRampMin * 60) :=
      div_nonneg zero_le_one (mul_nonneg hcfg.break_pos.le (by norm_num))
    simpa [Ramp.steepness, leakRamp, steepest] using hother
  exact ((leakRamp hcfg d).value_sub_le htt').trans
    (mul_le_mul_of_nonneg_right hsteep (sub_nonneg.mpr htt'))

theorem break_sub_le (hcfg : cfg.Timed) {p₀ : ℚ} (hnonneg : 0 ≤ p₀) (hp₀ : p₀ ≤ 1) (b : ℚ)
    (htt' : t ≤ t') : (breakRamp hcfg hp₀ b).value t' - (breakRamp hcfg hp₀ b).value t ≤
      steepest cfg * (t' - t) := by
  have hsteep : (breakRamp hcfg hp₀ b).steepness ≤ steepest cfg := by
    have hlength := (breakRamp hcfg hp₀ b).length_pos
    have hother : 0 ≤ 78 / 100 / (cfg.leakFillMin * 60) :=
      div_nonneg (by norm_num) (mul_nonneg hcfg.leak_pos.le (by norm_num))
    have hrise : (1 - p₀) / (cfg.breakRampMin * 60) ≤ 1 / (cfg.breakRampMin * 60) :=
      div_le_div_of_nonneg_right (by linarith) hlength.le
    simp only [Ramp.steepness, breakRamp, steepest]
    linarith
  exact ((breakRamp hcfg hp₀ b).value_sub_le htt').trans
    (mul_le_mul_of_nonneg_right hsteep (sub_nonneg.mpr htt'))

/-- While the state stays, the fill makes no jump; only at the start of a process that starts broken
it does. -/
theorem Phase.pressure_sub_le (hcfg : cfg.Timed) (h : Phase cfg now g) (ht : now ≤ t)
    (htt' : t ≤ t') (hlate : cfg.startState = .broken → g.start < t) :
    pressure cfg g t' - pressure cfg g t ≤ steepest cfg * (t' - t) := by
  cases h with
  | healthy _ hdegraded hbroken =>
      -- a ramp that starts later has not risen yet
      have hbound := leak_sub_le hcfg t' htt'
      rw [Ramp.value_of_le (r := leakRamp hcfg t') htt',
        Ramp.value_of_le (r := leakRamp hcfg t') (le_refl t'), sub_self] at hbound
      rw [pressure_healthy hdegraded hbroken, pressure_healthy hdegraded hbroken, sub_self]
      exact hbound
  | degraded d _ hdegraded hbroken _ =>
      have hleak : ∀ u, pressure cfg g u = (leakRamp hcfg d).value u := fun u =>
        pressure_leak hcfg hdegraded (by simp [hbroken])
      rw [hleak, hleak]
      exact leak_sub_le hcfg d htt'
  | broken d b _ hdegraded hbroken _ hpast hcaptured =>
      have hp₀ := hcaptured.le_one hcfg
      have hleak := leak_sub_le hcfg d htt'
      have hbreak := break_sub_le hcfg (hcaptured.nonneg hcfg) hp₀ b htt'
      by_cases hbt : b < t
      · rw [pressure_break hcfg hdegraded hbroken hp₀ hbt,
          pressure_break hcfg hdegraded hbroken hp₀ (hbt.trans_le htt'), sub_le_iff_le_add]
        apply max_le
        · linarith [le_max_left ((leakRamp hcfg d).value t) ((breakRamp hcfg hp₀ b).value t)]
        · linarith [le_max_right ((leakRamp hcfg d).value t) ((breakRamp hcfg hp₀ b).value t)]
      · have htb : t = b := le_antisymm (not_lt.mp hbt) (hpast.trans ht)
        subst htb
        rw [pressure_leak hcfg hdegraded (by simp [hbroken] : ∀ b ∈ g.brokenSince, t ≤ b)]
        rcases htt'.eq_or_lt with rfl | hlt
        · rw [pressure_leak hcfg hdegraded (by simp [hbroken] : ∀ b ∈ g.brokenSince, t ≤ b)]
          exact hleak
        · -- at the break both ramps stand where the fill stood
          have hfound : g.pressureAtBreak = (leakRamp hcfg d).value t := by
            rcases hcaptured with hfound | ⟨hstart, -, hthen, -⟩
            · rw [hfound, degPressure_eq hcfg]
            · exact absurd hthen (hlate hstart).ne'
          have hstand : (breakRamp hcfg hp₀ t).value t = g.pressureAtBreak :=
            (breakRamp hcfg hp₀ t).value_start
          rw [pressure_break hcfg hdegraded hbroken hp₀ hlt, sub_le_iff_le_add]
          apply max_le
          · linarith
          · linarith

/-! ## Toggles that make it no better -/

/-- How bad a state is. -/
def severity : Netsim.Incident → ℕ
  | .healthy => 0
  | .degraded => 1
  | .broken => 2

/-- The variables that the fill depends on are the same. -/
structure SameIncident (g g' : Globals) : Prop where
  state : g.state = g'.state
  degradedSince : g.degradedSince = g'.degradedSince
  brokenSince : g.brokenSince = g'.brokenSince
  pressureAtBreak : g.pressureAtBreak = g'.pressureAtBreak

variable {g' g₁ : Globals} {value : Netsim.Incident}

theorem SameIncident.symm (h : SameIncident g g') : SameIncident g' g :=
  ⟨h.state.symm, h.degradedSince.symm, h.brokenSince.symm, h.pressureAtBreak.symm⟩

theorem SameIncident.trans (h : SameIncident g g') (h' : SameIncident g' g₁) : SameIncident g g₁ :=
  ⟨h.state.trans h'.state, h.degradedSince.trans h'.degradedSince,
    h.brokenSince.trans h'.brokenSince, h.pressureAtBreak.trans h'.pressureAtBreak⟩

theorem SameIncident.pressure_eq (h : SameIncident g g') (t : ℚ) :
    pressure cfg g t = pressure cfg g' t := by
  unfold pressure
  rw [h.degradedSince, h.brokenSince, h.pressureAtBreak]

/-- Setting the state again changes nothing that the fill depends on. -/
theorem Phase.sameIncident_setState (h : Phase cfg now g) (hvalue : severity g.state = severity value) :
    SameIncident g (g.setState cfg value now) := by
  have hsame : g.state = value := by
    cases hstate : g.state <;> cases value <;> simp [hstate, severity] at hvalue ⊢
  subst hsame
  cases h with
  | healthy hstate hdegraded hbroken =>
      constructor <;> simp [Globals.setState, hstate, hdegraded, hbroken]
  | degraded d hstate hdegraded hbroken _ =>
      constructor <;> simp [Globals.setState, hstate, hdegraded, hbroken]
  | broken d b hstate hdegraded hbroken _ _ _ =>
      constructor <;> simp [Globals.setState, hstate, hdegraded, hbroken]

/-- A toggle to the same or a worse state leaves the fill where it stands. -/
theorem Phase.pressure_setState (hcfg : cfg.Timed) (h : Phase cfg now g)
    (hworse : severity g.state ≤ severity value) :
    pressure cfg (g.setState cfg value now) now = pressure cfg g now := by
  rcases hworse.eq_or_lt with hsame | hlt
  · exact (h.sameIncident_setState hsame).pressure_eq now |>.symm
  · -- the toggle begins a ramp, which has not risen yet
    have hbegins : ∀ b ∈ (g.setState cfg value now).brokenSince, now ≤ b := by
      intro b hb
      have hnone : g.brokenSince = none := by
        cases h with
        | healthy _ _ hbroken => exact hbroken
        | degraded _ _ _ hbroken _ => exact hbroken
        | broken _ _ hstate _ _ _ _ _ =>
            rw [hstate] at hlt
            cases value <;> simp [severity] at hlt
      simp only [Globals.setState, hnone, if_true] at hb
      split at hb
      · cases hb
        exact le_rfl
      · cases hb
    have hvalue : value ≠ .healthy := by
      rintro rfl
      simp [severity] at hlt
    cases h with
    | healthy hstate hdegraded hbroken =>
        have hnow : (g.setState cfg value now).degradedSince = some now := by
          simp [Globals.setState, hvalue, hdegraded]
        rw [pressure_leak hcfg hnow hbegins, pressure_healthy hdegraded hbroken]
        exact (leakRamp hcfg now).value_start
    | degraded d hstate hdegraded hbroken _ =>
        have hkept : (g.setState cfg value now).degradedSince = some d := by
          simp [Globals.setState, hvalue, hdegraded]
        rw [pressure_leak hcfg hkept hbegins, pressure_leak hcfg hdegraded (by simp [hbroken])]
    | broken d b hstate hdegraded hbroken _ _ _ =>
        rw [hstate] at hlt
        cases value <;> simp [severity] at hlt

end Curve

/-! ## Runs of the host -/

/-- The clock, the variables of the running process, and what was saved. -/
structure Machine where
  now : ℚ
  globals : Globals
  saved : List Json

/-- Time passes, a toggle, a save, or a new process.  A new process finds one of the saves in its
file, not always the last one, as the saves of several threads may overtake each other; or it
finds none. -/
inductive Op where
  | wait (d : ℚ≥0)
  | toggle (value : Netsim.Incident)
  | save
  | restart (file : Option ℕ)
deriving DecidableEq

namespace Machine

def step (cfg : Config) (m : Machine) : Op → Option Machine
  | .wait d => some { m with now := m.now + d }
  | .toggle value => some { m with globals := m.globals.setState cfg value m.now }
  | .save => some { m with saved := m.globals.dump :: m.saved }
  | .restart none => some { m with globals := boot cfg m.now }
  | .restart (some i) => do
      let data ← m.saved[i]?
      let globals ← load (boot cfg m.now) m.now data
      some { m with globals := globals }

/-- A process that starts for the first time. -/
def init (cfg : Config) (first : ℚ) : Machine where
  now := first
  globals := boot cfg first
  saved := []

/-- The fill that a poll sees. -/
def fill (cfg : Config) (m : Machine) : ℚ :=
  pressure cfg m.globals m.now

/-- The host and all that it saved are in a phase. -/
structure Inv (cfg : Config) (m : Machine) : Prop where
  phase : Phase cfg m.now m.globals
  saved : ∀ data ∈ m.saved, ∃ g : Globals, data = g.dump ∧ Phase cfg m.now g

variable {cfg : Config} {first : ℚ} {m m' : Machine} {op : Op} {ops : List Op}

theorem inv_init (cfg : Config) (first : ℚ) : Inv cfg (init cfg first) where
  phase := phase_boot cfg first
  saved := fun _ h => absurd h List.not_mem_nil

/-- A process that reads a save has the variables of the process that wrote it. -/
theorem Inv.restart {i : ℕ} (h : Inv cfg m) (hstep : m.step cfg (.restart (some i)) = some m') :
    ∃ g : Globals, g.dump ∈ m.saved ∧ Phase cfg m.now g ∧ m' = { m with globals := g } := by
  simp only [step, Option.bind_eq_bind, Option.bind_eq_some_iff, Option.some.injEq] at hstep
  obtain ⟨data, hget, globals, hload, rfl⟩ := hstep
  have hmem := List.mem_of_getElem? hget
  obtain ⟨g, rfl, hphase⟩ := h.saved data hmem
  rw [load_dump, Option.some.injEq] at hload
  subst hload
  exact ⟨g, hmem, hphase, rfl⟩

theorem Inv.step (h : Inv cfg m) (hstep : m.step cfg op = some m') : Inv cfg m' := by
  cases op with
  | wait d =>
      simp only [Machine.step, Option.some.injEq] at hstep
      subst hstep
      have hle : m.now ≤ m.now + d := le_add_of_nonneg_right d.2
      refine ⟨h.phase.mono hle, fun data hdata => ?_⟩
      obtain ⟨g, hg, hphase⟩ := h.saved data hdata
      exact ⟨g, hg, hphase.mono hle⟩
  | toggle value =>
      simp only [Machine.step, Option.some.injEq] at hstep
      subst hstep
      exact ⟨h.phase.setState value, h.saved⟩
  | save =>
      simp only [Machine.step, Option.some.injEq] at hstep
      subst hstep
      refine ⟨h.phase, fun data hdata => ?_⟩
      rcases List.mem_cons.mp hdata with rfl | hdata
      · exact ⟨m.globals, rfl, h.phase⟩
      · exact h.saved data hdata
  | restart file =>
      cases file with
      | none =>
          simp only [Machine.step, Option.some.injEq] at hstep
          subst hstep
          exact ⟨phase_boot cfg m.now, h.saved⟩
      | some i =>
          obtain ⟨g, -, hphase, rfl⟩ := h.restart hstep
          exact ⟨hphase, h.saved⟩

/-- In every state of a run the variables are in a phase. -/
theorem Inv.of_run (h : Run (Graph (Machine.step cfg)) (init cfg first) ops m) : Inv cfg m :=
  h.invariant (fun _ _ _ hinv hstep => hinv.step hstep) (inv_init cfg first)

/-! ## Runs in which the incident only gets worse -/

/-- A step that is no fresh start, and after which the incident is as bad as before or worse. -/
def Forward (cfg : Config) (m : Machine) (op : Op) : Prop :=
  op ≠ .restart none ∧
    ∀ m' ∈ m.step cfg op, severity m.globals.state ≤ severity m'.globals.state

instance (cfg : Config) (m : Machine) (op : Op) : Decidable (Forward cfg m op) := by
  unfold Forward
  infer_instance

/-- The process started at the first time, and what it saved earlier is not as bad, or the same. -/
structure Worsening (first : ℚ) (m : Machine) : Prop where
  started : m.globals.start = first
  begun : first ≤ m.now
  earlier : ∀ g : Globals, g.dump ∈ m.saved → g.start = first ∧
    (severity g.state < severity m.globals.state ∨ SameIncident g m.globals)

theorem dump_injective {g g' : Globals} (h : g.dump = g'.dump) : g = g' := by
  have hread := load_dump g 0 g
  rw [h, load_dump] at hread
  exact (Option.some.inj hread).symm

theorem worsening_init (cfg : Config) (first : ℚ) : Worsening first (init cfg first) where
  started := rfl
  begun := le_rfl
  earlier := fun _ h => absurd h List.not_mem_nil

theorem Worsening.step (h : Worsening first m) (hinv : Inv cfg m) (hforward : Forward cfg m op)
    (hstep : m.step cfg op = some m') : Worsening first m' := by
  have hworse : severity m.globals.state ≤ severity m'.globals.state := hforward.2 m' hstep
  cases op with
  | wait d =>
      simp only [Machine.step, Option.some.injEq] at hstep
      subst hstep
      exact ⟨h.started, h.begun.trans (le_add_of_nonneg_right d.2), h.earlier⟩
  | toggle value =>
      simp only [Machine.step, Option.some.injEq] at hstep
      subst hstep
      refine ⟨h.started, h.begun, fun g hg => ?_⟩
      obtain ⟨hstart, hearlier⟩ := h.earlier g hg
      refine ⟨hstart, ?_⟩
      rcases hearlier with hless | hsame
      · exact Or.inl (hless.trans_le hworse)
      · rcases hworse.eq_or_lt with heq | hlt
        · exact Or.inr (hsame.trans (hinv.phase.sameIncident_setState heq))
        · exact Or.inl (hsame.state ▸ hlt)
  | save =>
      simp only [Machine.step, Option.some.injEq] at hstep
      subst hstep
      refine ⟨h.started, h.begun, fun g hg => ?_⟩
      rcases List.mem_cons.mp hg with hsaved | hg
      · rw [dump_injective hsaved]
        exact ⟨h.started, Or.inr ⟨rfl, rfl, rfl, rfl⟩⟩
      · exact h.earlier g hg
  | restart file =>
      cases file with
      | none => exact absurd rfl hforward.1
      | some i =>
          obtain ⟨g, hmem, -, rfl⟩ := hinv.restart hstep
          obtain ⟨hstart, hearlier⟩ := h.earlier g hmem
          have hsame : SameIncident g m.globals := hearlier.resolve_left hworse.not_gt
          refine ⟨hstart, h.begun, fun g' hg' => ?_⟩
          obtain ⟨hstart', hearlier'⟩ := h.earlier g' hg'
          refine ⟨hstart', ?_⟩
          rcases hearlier' with hless | hsame'
          · exact Or.inl (hless.trans_le hworse)
          · exact Or.inr (hsame'.trans hsame.symm)

/-- From one state to a later one the fill does not fall, and it makes no jump after the start. -/
structure Rises (cfg : Config) (first : ℚ) (m m' : Machine) : Prop where
  now_le : m.now ≤ m'.now
  fill_le : m.fill cfg ≤ m'.fill cfg
  fill_sub_le : (cfg.startState = .broken → first < m.now) →
    m'.fill cfg - m.fill cfg ≤ steepest cfg * (m'.now - m.now)

theorem Rises.refl (cfg : Config) (first : ℚ) (m : Machine) : Rises cfg first m m :=
  ⟨le_rfl, le_rfl, fun _ => by rw [sub_self, sub_self, mul_zero]⟩

theorem Rises.trans {m₁ : Machine} (h : Rises cfg first m m₁) (h' : Rises cfg first m₁ m') :
    Rises cfg first m m' where
  now_le := h.now_le.trans h'.now_le
  fill_le := h.fill_le.trans h'.fill_le
  fill_sub_le := by
    intro hlate
    have hleft := h.fill_sub_le hlate
    have hright := h'.fill_sub_le fun hstart => (hlate hstart).trans_le h.now_le
    linarith

/-- Other steps than the passing of time leave the fill where it stands. -/
theorem fill_eq (hcfg : cfg.Timed) (hinv : Inv cfg m) (h : Worsening first m)
    (hforward : Forward cfg m op) (hstep : m.step cfg op = some m') (hop : ∀ d, op ≠ .wait d) :
    m'.now = m.now ∧ m'.fill cfg = m.fill cfg := by
  have hworse : severity m.globals.state ≤ severity m'.globals.state := hforward.2 m' hstep
  cases op with
  | wait d => exact absurd rfl (hop d)
  | toggle value =>
      simp only [Machine.step, Option.some.injEq] at hstep
      subst hstep
      exact ⟨rfl, hinv.phase.pressure_setState hcfg hworse⟩
  | save =>
      simp only [Machine.step, Option.some.injEq] at hstep
      subst hstep
      exact ⟨rfl, rfl⟩
  | restart file =>
      cases file with
      | none => exact absurd rfl hforward.1
      | some i =>
          obtain ⟨g, hmem, -, rfl⟩ := hinv.restart hstep
          have hsame := (h.earlier g hmem).2.resolve_left hworse.not_gt
          exact ⟨rfl, hsame.pressure_eq m.now⟩

theorem Rises.of_step (hcfg : cfg.Timed) (hinv : Inv cfg m) (h : Worsening first m)
    (hforward : Forward cfg m op) (hstep : m.step cfg op = some m') : Rises cfg first m m' := by
  by_cases hwait : ∃ d, op = .wait d
  · obtain ⟨d, rfl⟩ := hwait
    simp only [Machine.step, Option.some.injEq] at hstep
    subst hstep
    have hle : m.now ≤ m.now + d := le_add_of_nonneg_right d.2
    refine ⟨hle, hinv.phase.pressure_mono hcfg hle, fun hlate => ?_⟩
    exact hinv.phase.pressure_sub_le hcfg le_rfl hle fun hstart => h.started ▸ hlate hstart
  · obtain ⟨hnow, hfill⟩ := fill_eq hcfg hinv h hforward hstep fun d hd => hwait ⟨d, hd⟩
    refine ⟨hnow.ge, hfill.ge, fun _ => ?_⟩
    rw [hnow, hfill, sub_self, sub_self, mul_zero]

/-- A run in which the incident only gets worse. -/
def Onward (cfg : Config) (m : Machine) (ops : List Op) (m' : Machine) : Prop :=
  Run (Meeting (Graph (Machine.step cfg)) (Forward cfg)) m ops m'

theorem onward_invariant (hcfg : cfg.Timed) (hinv : Inv cfg m) (h : Worsening first m)
    (hrun : Onward cfg m ops m') : (Inv cfg m' ∧ Worsening first m') ∧ Rises cfg first m m' := by
  refine Run.invariant (I := fun n => (Inv cfg n ∧ Worsening first n) ∧ Rises cfg first m n)
    ?_ hrun ⟨⟨hinv, h⟩, Rises.refl cfg first m⟩
  rintro n op' n' ⟨⟨hinv', h'⟩, hrises⟩ ⟨hstep, hforward⟩
  exact ⟨⟨hinv'.step hstep, h'.step hinv' hforward hstep⟩,
    hrises.trans (Rises.of_step hcfg hinv' h' hforward hstep)⟩

/-- The fill lies between 0 and 1, does not fall as long as the incident gets no better, and is the
same before and after each toggle; up to each later moment it grows by a bounded rate, so that
it has no jump there, unless a process that starts broken is looked at when it starts. -/
structure Smooth (cfg : Config) (first : ℚ) (m : Machine) : Prop where
  bounded : 0 ≤ m.fill cfg ∧ m.fill cfg ≤ 1
  rising : ∀ ops m', Onward cfg m ops m' → m.fill cfg ≤ m'.fill cfg
  unchanged : ∀ value m', Forward cfg m (.toggle value) → m.step cfg (.toggle value) = some m' →
    m'.fill cfg = m.fill cfg
  gentle : (cfg.startState = .broken → first < m.now) → ∀ ops m', Onward cfg m ops m' →
    m'.fill cfg - m.fill cfg ≤ steepest cfg * (m'.now - m.now)

/-- In every run of toggles, saves and restarts in which the incident only gets worse, from any
state that a process may start in, the fill grows smoothly. -/
theorem smooth_of_run (hcfg : cfg.Timed) (hrun : Onward cfg (init cfg first) ops m) :
    Smooth cfg first m := by
  obtain ⟨⟨hinv, h⟩, -⟩ :=
    onward_invariant hcfg (inv_init cfg first) (worsening_init cfg first) hrun
  constructor
  · exact pressure_mem cfg m.globals m.now
  · intro ops' m' honward
    exact (onward_invariant hcfg hinv h honward).2.fill_le
  · intro value m' hforward hstep
    exact (fill_eq hcfg hinv h hforward hstep fun d hd => by cases hd).2
  · intro hlate ops' m' honward
    exact (onward_invariant hcfg hinv h honward).2.fill_sub_le hlate

/-- Nine minutes of the leak, a break, and a new process a minute later, which breaks again. -/
def breakAndRestart : List Op :=
  [.toggle .degraded, .wait 540, .toggle .broken, .wait 60, .save, .restart (some 0),
    .toggle .broken, .wait 60]

theorem smooth_of_run_breakAndRestart :
    ∃ m, Onward .defaults (init .defaults 0) breakAndRestart m ∧ m.fill .defaults = 139 / 200 ∧
      Smooth .defaults 0 m := by
  have hsome : (Transition.execute (Transition.guarded (step .defaults) (Forward .defaults))
      (init .defaults 0) breakAndRestart).map (fill .defaults) = some (139 / 200) := by
    decide +kernel
  obtain ⟨m, hexecute, hfill⟩ := Option.map_eq_some_iff.mp hsome
  have hrun := Transition.meeting_of_execute hexecute
  exact ⟨m, hrun, hfill, smooth_of_run ⟨by norm_num [Config.defaults], by norm_num [Config.defaults]⟩ hrun⟩

end Machine

end WinDc
end Hosts
end DemoEstate
