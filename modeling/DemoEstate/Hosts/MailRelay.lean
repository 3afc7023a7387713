import DemoEstate.Hosts.Story

/-!
# The deferred queue of the mail relay

A few mails are always deferred.  While its peer answers only now and then, the queue climbs to a
plateau, and while nobody answers it grows by the mails of every second, as fast as a ramp lets it.
A monitoring server warns at ten deferred mails, and alarms at twenty.

Main definitions:

- Definition {lit}`deferredCount`: the length of the queue.
- Structure {lit}`BacksUp`: what the polls of the queue tell.

Main results:

- Theorems {lit}`alarm_warn` and {lit}`alarm_length`: when the queue reaches a length.
- Theorem {lit}`deferredCount_mono`: behind a break it does not shrink.
- Theorem {lit}`backsUp_of_run`: what the polls of every run tell.
-/

namespace DemoEstate
namespace Hosts
namespace MailRelay

open Netsim (DeviceState)
open Story
open TickBudget (lerp lerp_le)
open Transition (Graph Run)
open WinDc (secondsSince)

/-! ## The queue -/

/-- `DEFER_DEGRADED_PLATEAU`. -/
def plateau : ℚ := 18

/-- `DEFER_BROKEN_RATE`, in mails a second. -/
def brokenRate : ℚ := 80 / 100

/-- What is always deferred. -/
def base (raw : ℚ) : ℚ :=
  max 0 (gauge 2 (12 / 10) raw)

/-- `deferred_count`. -/
def deferredCount (cfg : Config) (s : DeviceState) (now raw : ℚ) : ℤ :=
  let deferred :=
    if 0 < secondsSince s.degradedSince now then lerp (base raw) plateau (climb cfg s now)
    else base raw
  let bs := secondsSince s.brokenSince now
  let deferred :=
    if 0 < bs then max deferred (plateau + brokenRate * bs * ramp cfg s now) else deferred
  round deferred

/-- A poll shows a length of the queue. -/
def Shows (cfg : Config) (length : ℤ) (p : Process) (now raw : ℚ) : Prop :=
  length ≤ deferredCount cfg p.incident now raw

/-! ## The length of the queue -/

section Length

variable {cfg : Config} {s s' : DeviceState} {now later d b raw raw' : ℚ}

theorem base_mem (raw : ℚ) : 8 / 10 ≤ base raw ∧ base raw ≤ 32 / 10 := by
  have hgauge := gauge_mem 2 (show (0 : ℚ) ≤ 12 / 10 by norm_num) raw
  exact ⟨le_max_of_le_right (by linarith), max_le (by norm_num) (by linarith)⟩

theorem climbed_le (cfg : Config) (s : DeviceState) (now raw : ℚ) :
    lerp (base raw) plateau (climb cfg s now) ≤ plateau := by
  have hbase := (base_mem raw).2
  refine lerp_le (climb_mem cfg s now) ?_ le_rfl
  rw [plateau]
  linarith

theorem deferredCount_of_unbroken (h : s.brokenSince = none) :
    deferredCount cfg s now raw =
      round (if 0 < secondsSince s.degradedSince now then
        lerp (base raw) plateau (climb cfg s now) else base raw) := by
  rw [deferredCount, if_neg (secondsSince_of_none h)]

/-- Behind a break neither the noise nor the climb counts. -/
theorem deferredCount_of_broken (h : s.brokenSince = some b) (hnow : b < now) :
    deferredCount cfg s now raw = round (plateau + brokenRate * (now - b) * ramp cfg s now) := by
  have hgrown : 0 ≤ brokenRate * (now - b) * ramp cfg s now := by
    refine mul_nonneg (mul_nonneg (by norm_num [brokenRate]) ?_) (ramp_mem cfg s now).1
    linarith
  have hplateau : base raw ≤ plateau := by
    have hbase := (base_mem raw).2
    rw [plateau]
    linarith
  rw [deferredCount, if_pos (secondsSince_pos h hnow), h, secondsSince_some, max_eq_right]
  split
  · exact (climbed_le cfg s now raw).trans (le_add_of_nonneg_right hgrown)
  · exact hplateau.trans (le_add_of_nonneg_right hgrown)

theorem deferredCount_le_plateau (h : s.brokenSince = none) : deferredCount cfg s now raw ≤ 18 := by
  rw [deferredCount_of_unbroken h]
  refine round_le ?_
  split
  · exact climbed_le cfg s now raw
  · have hbase := (base_mem raw).2
    push_cast
    linarith

/-- The mails of the seconds since the break, as many as the ramp lets through. -/
theorem le_grown {length : ℤ} {delay : ℚ} (hsince : s.brokenSince = some b) (hnonneg : 0 ≤ delay)
    (hfull : (length - 18) * (5 / 4) ≤ delay)
    (hramped : 75 * cfg.breakRampMin * (length - 18) ≤ delay ^ 2) (hlate : b + delay < now) :
    (length : ℚ) ≤ plateau + brokenRate * (now - b) * ramp cfg s now := by
  have hdelay : delay ≤ now - b := by linarith
  have hramp : (length - 18 : ℚ) * (5 / 4) ≤ (now - b) * ramp cfg s now := by
    rw [ramp_of_broken hsince (by linarith)]
    split
    · rw [mul_one]
      linarith
    · rename_i hmin
      have hlength : 0 < cfg.breakRampMin * 60 := by linarith
      have hsquare : delay ^ 2 ≤ (now - b) * (now - b) := by
        rw [sq]
        exact mul_le_mul hdelay hdelay hnonneg (hnonneg.trans hdelay)
      rcases min_choice 1 ((now - b) / (cfg.breakRampMin * 60)) with hone | hpart
      · rw [hone, mul_one]
        linarith
      · rw [hpart, ← mul_div_assoc (now - b) (now - b), le_div_iff₀ hlength]
        linarith
  rw [plateau, brokenRate]
  linarith

/-- Behind a break the queue does not shrink. -/
theorem deferredCount_mono (h : Later s s') (hle : now ≤ later) (hsince : s.brokenSince = some b)
    (hnow : b < now) (raw raw' : ℚ) :
    deferredCount cfg s now raw ≤ deferredCount cfg s' later raw' := by
  have hsince' : s'.brokenSince = some b := h .broken b hsince
  rw [deferredCount_of_broken hsince hnow, deferredCount_of_broken hsince' (hnow.trans_le hle)]
  refine round_mono (add_le_add_right ?_ plateau)
  have hrate : (0 : ℚ) ≤ brokenRate := by norm_num [brokenRate]
  have hseconds : brokenRate * (now - b) ≤ brokenRate * (later - b) :=
    mul_le_mul_of_nonneg_left (by linarith) hrate
  have hlater : 0 ≤ brokenRate * (later - b) := mul_nonneg hrate (by linarith)
  exact mul_le_mul hseconds (ramp_mono h hle) (ramp_mem cfg s now).1 hlater

end Length

/-! ## The levels -/

/-- The queue warns only once the incident has begun, and does so in the middle of the climb. -/
theorem alarm_warn (cfg : Config) :
    Alarm .begun (Shows cfg 10) (partOf (54 / 100) cfg.climbMin) where
  quiet := by
    intro now p raw hvalid hnone hshows
    have hbegun : ¬ 0 < secondsSince p.incident.degradedSince now := by
      rw [show p.incident.degradedSince = none from hnone]
      exact lt_irrefl 0
    have hbase := (base_mem raw).2
    have hcount : deferredCount cfg p.incident now raw ≤ 4 := by
      rw [deferredCount_of_unbroken (hvalid.not_broken hnone), if_neg hbegun]
      refine round_le ?_
      push_cast
      linarith
    rw [Shows] at hshows
    omega
  loud := by
    intro now p raw d hvalid hsince hlate
    have hnonneg : 0 ≤ partOf (54 / 100) cfg.climbMin := le_max_left _ _
    have hclimb := le_climb hsince (show (54 / 100 : ℚ) ≤ 1 by norm_num) hlate
    have hbegun : 0 < secondsSince p.incident.degradedSince now := by
      rw [show p.incident.degradedSince = some d from hsince, secondsSince_some]
      linarith
    have hbase := base_mem raw
    -- the part that is left of the noise is smaller than what the climb has added
    have hclimbed : 10 ≤ lerp (base raw) plateau (climb cfg p.incident now) := by
      have hrest := mul_le_mul_of_nonneg_left hclimb
        (show 0 ≤ plateau - base raw by rw [plateau]; linarith)
      rw [lerp]
      rw [plateau] at hrest ⊢
      linarith
    rw [Shows, deferredCount, if_pos hbegun]
    refine le_round ?_
    push_cast
    split
    · exact hclimbed.trans (le_max_left _ _)
    · exact hclimbed

/-- The queue is longer than the plateau only behind a break, and reaches every length there. -/
theorem alarm_length {cfg : Config} {length : ℤ} (hlength : 18 < length) {delay : ℚ}
    (hnonneg : 0 ≤ delay) (hfull : (length - 18) * (5 / 4) ≤ delay)
    (hramped : 75 * cfg.breakRampMin * (length - 18) ≤ delay ^ 2) :
    Alarm .broken (Shows cfg length) delay where
  quiet := by
    intro now p raw hvalid hnone hshows
    have hcount : deferredCount cfg p.incident now raw ≤ 18 := deferredCount_le_plateau hnone
    rw [Shows] at hshows
    omega
  loud := by
    intro now p raw b hvalid hsince hlate
    have hgrown := le_grown hsince hnonneg hfull hramped hlate
    rw [Shows, deferredCount_of_broken hsince (by linarith)]
    exact le_round hgrown

/-! ## Runs -/

/-- The queue warns with the incident, and is longer than its plateau only behind a break, where it
reaches every length: after the seconds that so many mails take at the full rate, or up the ramp.
It does not shrink there, from poll to poll and from process to process, while the host stays
broken. -/
structure BacksUp (cfg : Config) (m : Machine) : Prop where
  warns : Announces cfg .begun (Shows cfg 10) (partOf (54 / 100) cfg.climbMin) m
  alarms : ∀ length : ℤ, 18 < length → ∀ delay : ℚ, 0 ≤ delay → (length - 18) * (5 / 4) ≤ delay →
    75 * cfg.breakRampMin * (length - 18) ≤ delay ^ 2 →
      Announces cfg .broken (Shows cfg length) delay m
  grows : ∀ b, m.process.incident.brokenSince = some b → b < m.now →
    ∀ ops m', m.Onward cfg ops m' → ∀ raw raw',
      deferredCount cfg m.process.incident m.now raw ≤
        deferredCount cfg m'.process.incident m'.now raw'

/-- In every run of toggles, saves and new processes the polls tell of the incident. -/
theorem backsUp_of_run {cfg : Config} {first : ℚ} {ops : List Op} {m : Machine}
    (hrun : Run (Graph (Machine.step cfg)) (Machine.init cfg first) ops m) : BacksUp cfg m where
  warns := (alarm_warn cfg).announces hrun
  alarms := fun _ hlength _ hnonneg hfull hramped =>
    (alarm_length hlength hnonneg hfull hramped).announces hrun
  grows := by
    intro b hsince hnow ops' m' honward raw raw'
    rcases Machine.later_of_run (Machine.Inv.of_run hrun) honward with ⟨-, hbehind⟩
    exact deferredCount_mono hbehind.later hbehind.now_le hsince hnow raw raw'

/-- The default ramps of the mail relay, which starts healthy. -/
def defaults : Config where
  climbMin := 16
  breakRampMin := 3
  startState := .healthy

/-- The host breaks straight from its healthy state, and a new process reads a save. -/
def breakAndRestart : List Op :=
  [.toggle .broken 0 0, .save, .wait 10, .restart (some 0), .wait 20]

theorem backsUp_of_run_breakAndRestart :
    ∃ m, Run (Graph (Machine.step defaults)) (Machine.init defaults 0) breakAndRestart m ∧
      m.process.incident.brokenSince = some 0 ∧ BacksUp defaults m := by
  have hsome : (Transition.execute (Machine.step defaults) (Machine.init defaults 0)
      breakAndRestart).map (fun m => m.process.incident.brokenSince) = some (some 0) := by
    decide +kernel
  rcases Option.map_eq_some_iff.mp hsome with ⟨m, hexecute, hbroken⟩
  have hrun := Transition.run_of_execute hexecute
  exact ⟨m, hrun, hbroken, backsUp_of_run hrun⟩

end MailRelay
end Hosts
end DemoEstate
