import Mathlib.Order.Bounds.Basic
import DemoEstate.Netsim.Counter

/-!
# The daily jobs of a host

The database host shows when its daily jobs last ran.  A job has a time of the day, and each host
adds a jitter of its own, so that the jobs of an estate do not all run in the same second.

Main definitions:

- Definition {lit}`Runs`: the times at which a daily job runs.
- Definition {lit}`lastScheduled`: the time that the host shows.
- Structure {lit}`MostRecent`: what the shown time should be.

Main results:

- Theorem {lit}`isGreatest_runs_iff`: the last run up to now is the one less than a day ago.
- Theorem {lit}`mostRecent_iff`: the host shows the last run unless the jitter takes the run of
  the day before past midnight and that run is still to come.
- Theorem {lit}`mostRecent_always_iff`: the schedules for which it always does.
-/

namespace DemoEstate
namespace Hosts

open Netsim (int)

/-! ## Runs of a daily job -/

/-- The seconds of a day. -/
def day : ℤ := 86400

/-- The times at which a daily job runs that is due some seconds after a midnight. -/
def Runs (offset : ℤ) : Set ℤ :=
  {t | t % day = offset % day}

theorem mem_runs {offset t : ℤ} : t ∈ Runs offset ↔ t % day = offset % day :=
  Iff.rfl

/-- The last run up to now is the one less than a day ago. -/
theorem isGreatest_runs_iff {offset r : ℤ} {now : ℚ} (hr : r ∈ Runs offset) :
    IsGreatest {t | t ∈ Runs offset ∧ (t : ℚ) ≤ now} r ↔ (r : ℚ) ≤ now ∧ now - r < day := by
  have hrun := mem_runs.mp hr
  constructor
  · rintro ⟨⟨-, hpast⟩, hlast⟩
    refine ⟨hpast, ?_⟩
    by_contra hold
    -- a whole day later there would have been another run
    have hnext : r + day ∈ {t | t ∈ Runs offset ∧ (t : ℚ) ≤ now} := by
      refine ⟨mem_runs.mpr ((Int.add_emod_right r day).trans hrun), ?_⟩
      push_cast
      linarith
    have hle : r + day ≤ r := hlast hnext
    unfold day at hle
    omega
  · rintro ⟨hpast, hrecent⟩
    refine ⟨⟨hr, hpast⟩, ?_⟩
    rintro t ⟨ht, htnow⟩
    have hmod : t % day = r % day := (mem_runs.mp ht).trans hrun.symm
    have hlt : (t : ℚ) < (r + day : ℤ) := by
      push_cast
      linarith
    have hlt' : t < r + day := by exact_mod_cast hlt
    unfold day at hmod hlt'
    omega

/-! ## The time that the host shows -/

section LastScheduled

variable (checksum hour minute : ℕ) (now : ℚ)

/-- `HOST_PHASE`, from the checksum of the host's name. -/
def hostPhase : ℕ :=
  checksum % 86400

/-- The seconds from midnight to the run of a job, with the jitter. -/
def offset : ℤ :=
  hour * 3600 + minute * 60 + (hostPhase checksum % 1740 : ℕ)

/-- `last_scheduled`. -/
def lastScheduled : ℤ :=
  let t := int now / day * day + offset checksum hour minute
  if (t : ℚ) > now then t - day else t

/-- The seconds since midnight. -/
def sinceMidnight : ℚ :=
  now - (int now / day * day : ℤ)

/-- What the shown time should be: past, less than a day ago, and at the same time of the day
whenever it is shown. -/
structure MostRecent : Prop where
  past : (lastScheduled checksum hour minute now : ℚ) ≤ now
  recent : now - lastScheduled checksum hour minute now < day
  sameTime : ∀ other : ℚ,
    lastScheduled checksum hour minute other % day = lastScheduled checksum hour minute now % day

end LastScheduled

variable {checksum hour minute : ℕ} {now : ℚ}

theorem sinceMidnight_lt : sinceMidnight now < day := by
  have hint : now < int now + 1 := by
    unfold int
    split
    · exact Int.lt_floor_add_one now
    · exact lt_of_le_of_lt (Int.le_ceil now) (lt_add_one _)
  have hday : int now + 1 ≤ int now / day * day + day := by
    unfold day
    omega
  have hday' : ((int now : ℚ) + 1) ≤ (int now / day * day : ℤ) + day := by exact_mod_cast hday
  rw [sinceMidnight, sub_lt_iff_lt_add']
  exact hint.trans_le hday'

theorem sinceMidnight_nonneg (h : 0 ≤ now) : 0 ≤ sinceMidnight now := by
  have hint : (int now : ℚ) ≤ now := by
    rw [int, if_pos h]
    exact Int.floor_le now
  have hday : int now / day * day ≤ int now := by
    unfold day
    omega
  have hday' : ((int now / day * day : ℤ) : ℚ) ≤ int now := by exact_mod_cast hday
  exact sub_nonneg.mpr (hday'.trans hint)

/-- The shown time is a run of the job. -/
theorem lastScheduled_mem_runs :
    lastScheduled checksum hour minute now ∈ Runs (offset checksum hour minute) := by
  have hshift : ∀ k : ℤ, (k * day + offset checksum hour minute) % day =
      offset checksum hour minute % day := fun k => Int.mul_add_emod_self_right k day _
  unfold lastScheduled
  dsimp only
  split
  · rw [mem_runs, Int.sub_emod_right, hshift]
  · rw [mem_runs, hshift]

/-- The shown time lies less than a day back. -/
theorem lastScheduled_recent : now - lastScheduled checksum hour minute now < day := by
  have hday : sinceMidnight now < day := sinceMidnight_lt
  unfold sinceMidnight at hday
  unfold lastScheduled
  dsimp only
  split
  · rename_i hlater
    push_cast at hlater ⊢
    linarith
  · have hoffset : (0 : ℚ) ≤ offset checksum hour minute := by
      unfold offset
      positivity
    push_cast at hday ⊢
    linarith

/-- One day of correction reaches the past unless the run of the day before is still to come. -/
theorem lastScheduled_le_iff : (lastScheduled checksum hour minute now : ℚ) ≤ now ↔
    (offset checksum hour minute : ℚ) ≤ day + sinceMidnight now := by
  unfold lastScheduled sinceMidnight
  dsimp only
  split
  · push_cast
    constructor <;> intro h <;> linarith
  · rename_i hpast
    have hday : (0 : ℚ) ≤ day := by norm_num [day]
    push_cast at hpast ⊢
    constructor <;> intro h <;> linarith

/-- The host shows the last run exactly if the run of the day before is not still to come. -/
theorem mostRecent_iff : MostRecent checksum hour minute now ↔
    (offset checksum hour minute : ℚ) ≤ day + sinceMidnight now := by
  constructor
  · intro h
    exact lastScheduled_le_iff.mp h.past
  · intro h
    refine ⟨lastScheduled_le_iff.mpr h, lastScheduled_recent, fun other => ?_⟩
    exact (mem_runs.mp lastScheduled_mem_runs).trans (mem_runs.mp lastScheduled_mem_runs).symm

/-- A run at 23:59 with the largest jitter, shown at midnight, is in the future. -/
theorem not_mostRecent_lateJob : ¬ ∀ (checksum hour minute : ℕ) (now : ℚ), 86400 ≤ now →
    hour < 24 → minute < 60 → MostRecent checksum hour minute now := by
  intro h
  have hpast := (h 1739 23 59 86400 (by norm_num) (by decide) (by decide)).past
  have hshown : lastScheduled 1739 23 59 86400 = 88079 := by decide +kernel
  rw [hshown] at hpast
  norm_num at hpast

/-- Where the condition holds, the shown time is the last run up to now. -/
theorem lastScheduled_isGreatest
    (h : (offset checksum hour minute : ℚ) ≤ day + sinceMidnight now) :
    IsGreatest {t | t ∈ Runs (offset checksum hour minute) ∧ (t : ℚ) ≤ now}
      (lastScheduled checksum hour minute now) :=
  (isGreatest_runs_iff lastScheduled_mem_runs).mpr
    ⟨lastScheduled_le_iff.mpr h, lastScheduled_recent⟩

/-- A schedule is shown right at all times exactly if the jitter does not take it past
midnight. -/
theorem mostRecent_always_iff : (∀ now : ℚ, 86400 ≤ now → MostRecent checksum hour minute now) ↔
    offset checksum hour minute ≤ day := by
  constructor
  · intro h
    have hmidnight : sinceMidnight 86400 = 0 := by decide +kernel
    have hle := lastScheduled_le_iff.mp (h 86400 le_rfl).past
    rw [hmidnight, add_zero] at hle
    exact_mod_cast hle
  · intro h now hnow
    have hle : (offset checksum hour minute : ℚ) ≤ day := by exact_mod_cast h
    refine mostRecent_iff.mpr (hle.trans ?_)
    exact le_add_of_nonneg_right (sinceMidnight_nonneg (by linarith))

/-- Up to 23:31 the jitter of no host takes a run past midnight. -/
theorem offset_le_day (h : hour * 60 + minute ≤ 23 * 60 + 31) :
    offset checksum hour minute ≤ day := by
  have hjitter : hostPhase checksum % 1740 < 1740 := Nat.mod_lt _ (by decide)
  unfold offset day
  omega

end Hosts
end DemoEstate
