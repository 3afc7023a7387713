import DemoEstate.Fleet.MemInfo
import DemoEstate.Hosts.Story

/-!
# The filling volume of the file server

The data volume of the file server has a slow growth, a cleanup every half hour and some noise.
The incident fills it on top of that, and the more it does, the less is cleaned up.  A monitoring
server warns at four fifths of the volume, and alarms at nine tenths.

Main definitions:

- Definition {lit}`srvUsedKb`: the used space of the volume.
- Structure {lit}`FillsUp`: what the polls of the volume tell.

Main results:

- Theorems {lit}`alarm_warn` and {lit}`alarm_crit`: when the levels are reached.
- Theorem {lit}`srvUsed_mono`: when the volume no longer empties.
- Theorem {lit}`fillsUp_of_run`: what the polls of every run tell.
-/

namespace DemoEstate
namespace Hosts
namespace Fileserver

open Fleet (int_le)
open Netsim (DeviceState int int_mono)
open Story
open Transition (Graph Run)

/-! ## The volume -/

/-- `pressure`, with the knee of the file server. -/
def pressure (cfg : Config) (s : DeviceState) (now : ℚ) : ℚ :=
  Story.pressure (74 / 100) (26 / 100) cfg s now

/-- The size of the volume in kilobytes. -/
def srvSize : ℤ := 2147483648

/-- `UPTIME_OFFSET`. -/
def uptimeOffset : ℚ := 12 * 86400

/-- The remainder of a division, for a divisor that is positive. -/
def mod (q divisor : ℚ) : ℚ :=
  q - divisor * ⌊q / divisor⌋

/-- What the cleanup still does, by the pressure. -/
def quiet (p : ℚ) : ℚ :=
  max 0 (1 - p / (30 / 100))

/-- The growth that nothing cleans up. -/
def secular (start now : ℚ) : ℚ :=
  min (12 / 1000) ((now - start + uptimeOffset) * (1 / 100000000))

/-- The used part of the volume. -/
def usedFrac (p start now raw : ℚ) : ℚ :=
  let sawtooth := 10 / 1000 * (1 - mod now 1800 / 1800) * quiet p
  let wobble := gauge 0 (15 / 10000) raw * quiet p
  let incident := (97 / 100 - 55 / 100) * p
  max (50 / 100) (min (995 / 1000)
    (55 / 100 + secular start now + sawtooth + wobble + incident))

/-- `srv_used_kb`; the pressure reads the clock itself. -/
def srvUsedKb (cfg : Config) (p : Process) (clock now raw : ℚ) : ℤ :=
  int (srvSize * usedFrac (pressure cfg p.incident clock) p.start now raw)

/-- What a poll shows, with the whole seconds of the clock. -/
def srvUsed (cfg : Config) (p : Process) (clock raw : ℚ) : ℤ :=
  srvUsedKb cfg p clock (int clock) raw

/-- A poll shows a level of the volume, in percent. -/
def Shows (cfg : Config) (level : ℤ) (p : Process) (clock raw : ℚ) : Prop :=
  level * srvSize ≤ 100 * srvUsed cfg p clock raw

/-! ## Bounds of the used part -/

section Bounds

variable {cfg : Config} {p : Process} {pr pr' start now later clock raw raw' : ℚ}

theorem mod_mem (q : ℚ) {divisor : ℚ} (h : 0 < divisor) : 0 ≤ mod q divisor ∧ mod q divisor < divisor := by
  have hfloor : (⌊q / divisor⌋ : ℚ) * divisor ≤ q := (le_div_iff₀ h).mp (Int.floor_le _)
  have hnext : q < (⌊q / divisor⌋ + 1) * divisor := (div_lt_iff₀ h).mp (Int.lt_floor_add_one _)
  constructor <;> simp only [mod] <;> linarith

/-- The cleanup and the noise, which fade out together. -/
theorem normal_life_mem (pr now raw : ℚ) :
    -(15 / 10000) * quiet pr ≤
        10 / 1000 * (1 - mod now 1800 / 1800) * quiet pr + gauge 0 (15 / 10000) raw * quiet pr ∧
      10 / 1000 * (1 - mod now 1800 / 1800) * quiet pr + gauge 0 (15 / 10000) raw * quiet pr ≤
        115 / 10000 * quiet pr := by
  have hquiet : 0 ≤ quiet pr := le_max_left _ _
  have hmod := mod_mem now (show (0 : ℚ) < 1800 by norm_num)
  have hgauge := gauge_mem 0 (show (0 : ℚ) ≤ 15 / 10000 by norm_num) raw
  have hlow : -(15 / 10000) ≤ 10 / 1000 * (1 - mod now 1800 / 1800) + gauge 0 (15 / 10000) raw := by
    linarith
  have hhigh : 10 / 1000 * (1 - mod now 1800 / 1800) + gauge 0 (15 / 10000) raw ≤ 115 / 10000 := by
    linarith
  rw [← add_mul]
  exact ⟨mul_le_mul_of_nonneg_right hlow hquiet, mul_le_mul_of_nonneg_right hhigh hquiet⟩

/-- Past three tenths of the pressure nothing is cleaned up any more. -/
theorem quiet_eq_zero (h : 30 / 100 ≤ pr) : quiet pr = 0 := by
  refine max_eq_left ?_
  linarith

theorem quiet_le_one (h : 0 ≤ pr) : quiet pr ≤ 1 := by
  refine max_le zero_le_one ?_
  linarith

theorem usedFrac_mem (pr start now raw : ℚ) :
    50 / 100 ≤ usedFrac pr start now raw ∧ usedFrac pr start now raw ≤ 995 / 1000 :=
  ⟨le_max_left _ _, max_le (by norm_num) (min_le_left _ _)⟩

theorem usedFrac_le (h : 0 ≤ pr) (start now raw : ℚ) :
    usedFrac pr start now raw ≤ 562 / 1000 + 115 / 10000 * quiet pr + 42 / 100 * pr := by
  have hquiet : 0 ≤ quiet pr := le_max_left _ _
  have hlife := (normal_life_mem pr now raw).2
  have hsecular : secular start now ≤ 12 / 1000 := min_le_left _ _
  refine max_le (by linarith) ((min_le_right _ _).trans ?_)
  linarith

/-- Without its cleanup the volume shows the growth and the incident. -/
theorem usedFrac_of_full (h : 30 / 100 ≤ pr) :
    usedFrac pr start now raw =
      max (50 / 100) (min (995 / 1000) (55 / 100 + secular start now + 42 / 100 * pr)) := by
  have hincident : (97 / 100 - 55 / 100) * pr = 42 / 100 * pr := by ring
  rw [usedFrac, quiet_eq_zero h, mul_zero, mul_zero, add_zero, add_zero, hincident]

theorem secular_nonneg (h : start ≤ now + uptimeOffset) : 0 ≤ secular start now := by
  refine le_min (by norm_num) (mul_nonneg ?_ (by norm_num))
  linarith

/-- A process did not start long after the second of a poll. -/
theorem started_le (h : Valid clock p) : p.start ≤ (int clock : ℚ) + uptimeOffset := by
  have hstart := h.started
  have hint := lt_int_add_one clock
  rw [uptimeOffset]
  linarith

theorem le_usedFrac (hvalid : Valid clock p) (h : 30 / 100 ≤ pr) (hone : pr ≤ 1) (raw : ℚ) :
    55 / 100 + 42 / 100 * pr ≤ usedFrac pr p.start (int clock) raw := by
  have hsecular := secular_nonneg (started_le hvalid)
  rw [usedFrac_of_full h]
  refine le_max_of_le_right (le_min ?_ ?_)
  · linarith
  · linarith

theorem srvUsed_le (cfg : Config) (p : Process) (clock raw : ℚ) :
    (srvUsed cfg p clock raw : ℚ) ≤
      srvSize * usedFrac (pressure cfg p.incident clock) p.start (int clock) raw := by
  have hfrac := (usedFrac_mem (pressure cfg p.incident clock) p.start (int clock) raw).1
  refine int_le (mul_nonneg ?_ (le_trans (by norm_num) hfrac))
  norm_num [srvSize]

theorem lt_srvUsed (cfg : Config) (p : Process) (clock raw : ℚ) :
    srvSize * usedFrac (pressure cfg p.incident clock) p.start (int clock) raw <
      srvUsed cfg p clock raw + 1 :=
  lt_int_add_one _

/-- A part of the volume that stays below a level does not show it. -/
theorem not_shows {level : ℤ}
    (h : 100 * usedFrac (pressure cfg p.incident clock) p.start (int clock) raw < level) :
    ¬ Shows cfg level p clock raw := by
  intro hshows
  have hshows' : (level : ℚ) * srvSize ≤ 100 * srvUsed cfg p clock raw := by exact_mod_cast hshows
  have hused := srvUsed_le cfg p clock raw
  have hsize : (0 : ℚ) < srvSize := by norm_num [srvSize]
  have hlevel := mul_lt_mul_of_pos_right h hsize
  linarith

/-- A part a little above a level shows it. -/
theorem shows_of_le {level : ℤ}
    (h : level + 1 / 100 ≤ 100 * usedFrac (pressure cfg p.incident clock) p.start (int clock) raw) :
    Shows cfg level p clock raw := by
  have hused := lt_srvUsed cfg p clock raw
  have hsize : (0 : ℚ) ≤ srvSize := by norm_num [srvSize]
  have hlevel := mul_le_mul_of_nonneg_right h hsize
  have hmargin : (100 : ℚ) ≤ 1 / 100 * srvSize := by norm_num [srvSize]
  have hreached : (level : ℚ) * srvSize ≤ 100 * srvUsed cfg p clock raw := by linarith
  exact_mod_cast hreached

end Bounds

/-! ## The levels -/

section Levels

variable {cfg : Config} {s s' : DeviceState} {p p' : Process} {now later : ℚ}

theorem pressure_nonneg (cfg : Config) (s : DeviceState) (now : ℚ) : 0 ≤ pressure cfg s now :=
  (pressure_mem _ _ cfg s now).1

theorem pressure_le_one (cfg : Config) (s : DeviceState) (now : ℚ) : pressure cfg s now ≤ 1 :=
  (pressure_mem _ _ cfg s now).2

/-- The volume warns only once the incident has begun, and does so when most of the climb is done. -/
theorem alarm_warn (cfg : Config) :
    Alarm .begun (Shows cfg 80) (partOf (81 / 100) cfg.climbMin) where
  quiet := by
    intro now p raw hvalid hnone
    have hzero : pressure cfg p.incident now = 0 :=
      pressure_of_healthy hnone (hvalid.not_broken hnone)
    apply not_shows
    rw [hzero]
    have hfrac := usedFrac_le (le_refl 0) p.start (int now) raw
    have hquiet := quiet_le_one (le_refl 0)
    push_cast
    linarith
  loud := by
    intro now p raw d hvalid hsince hlate
    have hclimb := le_climb hsince (show (81 / 100 : ℚ) ≤ 1 by norm_num) hlate
    have hpressure : 74 / 100 * climb cfg p.incident now ≤ pressure cfg p.incident now :=
      le_pressure_of_climb (by norm_num) (by norm_num)
    have hfrac := le_usedFrac hvalid
      (show 30 / 100 ≤ pressure cfg p.incident now by linarith) (pressure_le_one cfg _ _) raw
    apply shows_of_le
    push_cast
    linarith

/-- The volume alarms only behind a break, and does so after a part of its ramp. -/
theorem alarm_crit (cfg : Config) :
    Alarm .broken (Shows cfg 90) (partOf (36 / 100) cfg.breakRampMin) where
  quiet := by
    intro now p raw hvalid hnone
    have hknee : pressure cfg p.incident now ≤ 74 / 100 := pressure_le_knee (by norm_num) hnone
    have hnonneg := pressure_nonneg cfg p.incident now
    have hfrac := usedFrac_le hnonneg p.start (int now) raw
    apply not_shows
    push_cast
    by_cases hfull : 30 / 100 ≤ pressure cfg p.incident now
    · rw [quiet_eq_zero hfull] at hfrac
      linarith
    · have hquiet := quiet_le_one hnonneg
      linarith
  loud := by
    intro now p raw b hvalid hsince hlate
    have hnonneg : 0 ≤ partOf (36 / 100) cfg.breakRampMin := le_max_left _ _
    have hramp := le_ramp hsince (show (36 / 100 : ℚ) ≤ 1 by norm_num) hlate
    have hpos : 0 < WinDc.secondsSince p.incident.brokenSince now :=
      secondsSince_pos hsince (by linarith)
    have hpressure : 74 / 100 + 26 / 100 * ramp cfg p.incident now ≤ pressure cfg p.incident now :=
      le_pressure_of_ramp (by norm_num) (by norm_num) hpos
    have hfrac := le_usedFrac hvalid
      (show 30 / 100 ≤ pressure cfg p.incident now by linarith) (pressure_le_one cfg _ _) raw
    apply shows_of_le
    push_cast
    linarith

/-- Past three tenths of the pressure the volume no longer empties, whatever the noise. -/
theorem srvUsed_mono (h : Later p.incident p'.incident) (hstart : p'.start = p.start)
    (hle : now ≤ later) (hfull : 30 / 100 ≤ pressure cfg p.incident now) (raw raw' : ℚ) :
    srvUsed cfg p now raw ≤ srvUsed cfg p' later raw' := by
  have hpressure : pressure cfg p.incident now ≤ pressure cfg p'.incident later :=
    pressure_mono (by norm_num) (by norm_num) h hle
  have hint : (int now : ℚ) ≤ int later := by exact_mod_cast int_mono hle
  have hsecular : secular p.start (int now) ≤ secular p.start (int later) := by
    refine min_le_min_left _ (mul_le_mul_of_nonneg_right ?_ (by norm_num))
    linarith
  refine int_mono (mul_le_mul_of_nonneg_left ?_ (by norm_num [srvSize]))
  rw [usedFrac_of_full hfull, usedFrac_of_full (hfull.trans hpressure), hstart]
  refine max_le_max_left _ (min_le_min_left _ ?_)
  linarith

end Levels

/-! ## Runs -/

/-- The volume warns with the incident and alarms with the break.  Once the cleanup has stopped,
the volume does not empty, from poll to poll and from process to process, while the incident gets
no better. -/
structure FillsUp (cfg : Config) (m : Machine) : Prop where
  warns : Announces cfg .begun (Shows cfg 80) (partOf (81 / 100) cfg.climbMin) m
  alarms : Announces cfg .broken (Shows cfg 90) (partOf (36 / 100) cfg.breakRampMin) m
  fills : 30 / 100 ≤ pressure cfg m.process.incident m.now → ∀ ops m', m.Onward cfg ops m' →
    ∀ raw raw', srvUsed cfg m.process m.now raw ≤ srvUsed cfg m'.process m'.now raw'

/-- In every run of toggles, saves and new processes the polls tell of the incident. -/
theorem fillsUp_of_run {cfg : Config} {first : ℚ} {ops : List Op} {m : Machine}
    (hrun : Run (Graph (Machine.step cfg)) (Machine.init cfg first) ops m) : FillsUp cfg m where
  warns := (alarm_warn cfg).announces hrun
  alarms := (alarm_crit cfg).announces hrun
  fills := by
    intro hfull ops' m' honward raw raw'
    rcases Machine.later_of_run (Machine.Inv.of_run hrun) honward with ⟨-, hbehind⟩
    exact srvUsed_mono hbehind.later hbehind.start_eq hbehind.now_le hfull raw raw'

/-- The default ramps of the file server, which starts healthy. -/
def defaults : Config where
  climbMin := 16
  breakRampMin := 4
  startState := .healthy

/-- The climb is over when the host breaks; a new process reads what was saved at the break. -/
def breakAndRestart : List Op :=
  [.toggle .degraded 0 0, .wait 1000, .save, .toggle .broken 0 0, .save, .wait 30,
    .restart (some 0)]

theorem fillsUp_of_run_breakAndRestart :
    ∃ m, Run (Graph (Machine.step defaults)) (Machine.init defaults 0) breakAndRestart m ∧
      m.process.incident.state = .broken ∧ FillsUp defaults m := by
  have hsome : (Transition.execute (Machine.step defaults) (Machine.init defaults 0)
      breakAndRestart).map (fun m => m.process.incident.state) = some .broken := by
    decide +kernel
  rcases Option.map_eq_some_iff.mp hsome with ⟨m, hexecute, hstate⟩
  have hrun := Transition.run_of_execute hexecute
  exact ⟨m, hrun, hstate, fillsUp_of_run hrun⟩

end Fileserver
end Hosts
end DemoEstate
