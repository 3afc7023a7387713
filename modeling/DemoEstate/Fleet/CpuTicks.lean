import Mathlib.Algebra.BigOperators.Ring.List
import DemoEstate.Netsim.Counter

/-!
# The processor times of a fleet host

A Linux host of the fleet splits the ticks of its cores over four fields by its load.  A build
samples the counter of each field with its own reading of the clock and its own wobble, the idle
field among them.

Main definitions:

- Definition {lit}`Processor.rate`: the rate of each field.
- Definition {lit}`CpuCounters.build`: what a build does to the counters.
- Definition {lit}`Conserved`: between two builds the fields grow by the ticks of the cores.
- Definition {lit}`Balanced`: the delays and wobbles of the fields cancel.

Main results:

- Theorem {lit}`Processor.rate_eq`: each field has a fixed share of the ticks.
- Theorem {lit}`ticks_conserved_iff`: the pairs of builds that conserve the ticks.
- Theorem {lit}`ticks_conserved_all_iff`: no time passes between builds that do so for every wobble.
-/

namespace DemoEstate
namespace Fleet

open Netsim (Counter wobble)

/-! ## The split of the ticks -/

/-- The fields of the processor times. -/
inductive CpuField where
  | user
  | system
  | idle
  | iowait
deriving DecidableEq

namespace CpuField

/-- All fields, in the order in which a build samples them. -/
def all : List CpuField :=
  [.user, .system, .idle, .iowait]

/-- The amplitude of the wobble of a field. -/
def amp : CpuField → ℚ
  | .idle => 2 / 100
  | _ => 30 / 100

theorem amp_pos (f : CpuField) : 0 < f.amp := by
  cases f <;> norm_num [amp]

theorem amp_le_one (f : CpuField) : f.amp ≤ 1 := by
  cases f <;> norm_num [amp]

end CpuField

/-- The cores of a host and its load. -/
structure Processor where
  ncpu : ℕ
  load1 : ℚ
  cores : 0 < ncpu

namespace Processor

variable (cpu : Processor)

/-- The ticks of all cores in a second. -/
def totalTicks : ℚ := cpu.ncpu * 100

/-- The busy fraction of the cores. -/
def util : ℚ := max (2 / 100) (min (80 / 100) (cpu.load1 / cpu.ncpu * (75 / 100)))

def rUser : ℚ := cpu.totalTicks * cpu.util * (72 / 100)

def rSystem : ℚ := cpu.totalTicks * cpu.util * (22 / 100)

def rIowait : ℚ := cpu.totalTicks * (15 / 1000)

def rIdle : ℚ := max 5 (cpu.totalTicks - cpu.rUser - cpu.rSystem - cpu.rIowait)

/-- The rate of a field in ticks for each second. -/
def rate : CpuField → ℚ
  | .user => cpu.rUser
  | .system => cpu.rSystem
  | .idle => cpu.rIdle
  | .iowait => cpu.rIowait

/-- The share of a field in the ticks. -/
def share : CpuField → ℚ
  | .user => cpu.util * (72 / 100)
  | .system => cpu.util * (22 / 100)
  | .idle => 1 - cpu.util * (72 / 100) - cpu.util * (22 / 100) - 15 / 1000
  | .iowait => 15 / 1000

theorem le_util : 2 / 100 ≤ cpu.util :=
  le_max_left _ _

theorem util_le : cpu.util ≤ 80 / 100 :=
  max_le (by norm_num) (min_le_left _ _)

theorem le_totalTicks : 100 ≤ cpu.totalTicks := by
  have hcores : (1 : ℚ) ≤ cpu.ncpu := by exact_mod_cast cpu.cores
  unfold totalTicks
  linarith only [hcores]

theorem share_pos (f : CpuField) : 0 < cpu.share f := by
  have hlow := cpu.le_util
  have hhigh := cpu.util_le
  cases f <;> unfold share <;> linarith only [hlow, hhigh]

theorem sum_share : (CpuField.all.map cpu.share).sum = 1 := by
  simp only [CpuField.all, share, List.map_cons, List.map_nil, List.sum_cons, List.sum_nil]
  ring

/-- The floor of the idle rate is never reached. -/
theorem rIdle_eq : cpu.rIdle = cpu.totalTicks * cpu.share .idle := by
  have hrest : cpu.totalTicks - cpu.rUser - cpu.rSystem - cpu.rIowait =
      cpu.totalTicks * cpu.share .idle := by
    unfold rUser rSystem rIowait share
    ring
  have hshare : 5 / 100 ≤ cpu.share .idle := by
    have hhigh := cpu.util_le
    unfold share
    linarith only [hhigh]
  have hfloor : 5 ≤ cpu.totalTicks * cpu.share .idle := by
    calc (5 : ℚ) = 100 * (5 / 100) := by norm_num
      _ ≤ cpu.totalTicks * cpu.share .idle :=
        mul_le_mul cpu.le_totalTicks hshare (by norm_num) (by linarith only [cpu.le_totalTicks])
  rw [rIdle, hrest, max_eq_right hfloor]

/-- Each field gets its share of the ticks. -/
theorem rate_eq (f : CpuField) : cpu.rate f = cpu.totalTicks * cpu.share f := by
  cases f with
  | user => simp only [rate, rUser, share, mul_assoc]
  | system => simp only [rate, rSystem, share, mul_assoc]
  | idle => exact cpu.rIdle_eq
  | iowait => rfl

end Processor

/-! ## Builds -/

/-- The counters of the fields. -/
structure CpuCounters where
  counter : CpuField → Counter
  amp_eq : ∀ f, (counter f).amp = f.amp

/-- What a build reads: the time at its start, and for each field the time of its sample and the
noise of its wobble. -/
structure Readings where
  nowf : ℚ
  now : CpuField → ℚ
  raw : CpuField → ℚ

namespace CpuCounters

/-- The counters of a host that pretends to have been up for some time. -/
def init (cpu : Processor) (uptimeOffset now : ℚ) : CpuCounters where
  counter f :=
    { acc := cpu.rate f * uptimeOffset
      last := now
      amp := f.amp
      amp_nonneg := f.amp_pos.le
      amp_le_one := f.amp_le_one }
  amp_eq _ := rfl

/-- Sample every field. -/
def build (cpu : Processor) (c : CpuCounters) (r : Readings) : CpuCounters where
  counter f := (c.counter f).sample (cpu.rate f) none (r.raw f) (r.now f)
  amp_eq := c.amp_eq

/-- How much a field has grown. -/
def increase (c c' : CpuCounters) (f : CpuField) : ℚ :=
  (c'.counter f).acc - (c.counter f).acc

end CpuCounters

/-- From one build to the next the fields together grow by the ticks of the time between them. -/
def Conserved (cpu : Processor) (c : CpuCounters) (r r' : Readings) : Prop :=
  let first := c.build cpu r
  (CpuField.all.map (first.increase (first.build cpu r'))).sum =
    cpu.ncpu * 100 * (r'.nowf - r.nowf)

/-- The time from one sample of a field to the next. -/
def elapsed (r r' : Readings) (f : CpuField) : ℚ :=
  max 0 (r'.now f - r.now f)

/-- How far a field strays: by the time between its own samples, and by its wobble over it. -/
def stray (r r' : Readings) (f : CpuField) : ℚ :=
  (elapsed r r' f - (r'.nowf - r.nowf)) + f.amp * wobble (r'.raw f) * elapsed r r' f

/-- What the fields stray by, each by its share in the ticks, cancels. -/
def Balanced (cpu : Processor) (r r' : Readings) : Prop :=
  (CpuField.all.map fun f => cpu.share f * stray r r' f).sum = 0

section Builds

variable {cpu : Processor} {c : CpuCounters} {r r' : Readings}

theorem increase_build (f : CpuField) :
    (c.build cpu r).increase ((c.build cpu r).build cpu r') f =
      cpu.totalTicks * cpu.share f * (r'.nowf - r.nowf) +
        cpu.totalTicks * (cpu.share f * stray r r' f) := by
  have hsample : (c.build cpu r).increase ((c.build cpu r).build cpu r') f =
      cpu.rate f * (1 + f.amp * wobble (r'.raw f)) * elapsed r r' f := by
    simp only [CpuCounters.increase, CpuCounters.build, Counter.sample, Counter.inst, c.amp_eq,
      elapsed, add_sub_cancel_left]
  rw [hsample, cpu.rate_eq, stray]
  ring

theorem sum_increase :
    (CpuField.all.map ((c.build cpu r).increase ((c.build cpu r).build cpu r'))).sum =
      cpu.ncpu * 100 * (r'.nowf - r.nowf) +
        cpu.totalTicks * (CpuField.all.map fun f => cpu.share f * stray r r' f).sum := by
  have hshare := congrArg (fun x => cpu.totalTicks * (r'.nowf - r.nowf) * x) cpu.sum_share
  simp only [CpuField.all, List.map_cons, List.map_nil, List.sum_cons, List.sum_nil,
    increase_build] at hshare ⊢
  rw [mul_one, Processor.totalTicks] at hshare
  unfold Processor.totalTicks
  linarith only [hshare]

/-- Two builds conserve the ticks exactly if the delays and the wobbles of the fields cancel. -/
theorem ticks_conserved_iff : Conserved cpu c r r' ↔ Balanced cpu r r' := by
  have hticks : cpu.totalTicks ≠ 0 := by
    linarith only [cpu.le_totalTicks]
  unfold Conserved Balanced
  dsimp only
  rw [sum_increase, add_eq_left, mul_eq_zero, or_iff_right hticks]

/-- Where all fields are sampled with one reading of the clock, only the wobbles have to cancel. -/
theorem balanced_iff_of_sameClock {dt : ℚ} (hdt : 0 < dt) (hnowf : r'.nowf - r.nowf = dt)
    (hnow : ∀ f, r'.now f - r.now f = dt) :
    Balanced cpu r r' ↔
      (CpuField.all.map fun f => cpu.share f * (f.amp * wobble (r'.raw f))).sum = 0 := by
  have hstray (f : CpuField) : cpu.share f * stray r r' f =
      dt * (cpu.share f * (f.amp * wobble (r'.raw f))) := by
    rw [stray, elapsed, hnow, hnowf, max_eq_right hdt.le]
    ring
  unfold Balanced
  rw [funext hstray, List.sum_map_mul_left, mul_eq_zero, or_iff_right hdt.ne']

/-- What the fields stray by, with the wobbles apart. -/
theorem sum_stray :
    (CpuField.all.map fun f => cpu.share f * stray r r' f).sum =
      (CpuField.all.map fun f => cpu.share f * elapsed r r' f).sum - (r'.nowf - r.nowf) +
        (CpuField.all.map fun f => wobble (r'.raw f) * (cpu.share f * f.amp * elapsed r r' f)).sum := by
  have hshare := congrArg (fun x => (r'.nowf - r.nowf) * x) cpu.sum_share
  simp only [CpuField.all, List.map_cons, List.map_nil, List.sum_cons, List.sum_nil, stray]
    at hshare ⊢
  linarith only [hshare]

/-- A field wobbles alone. -/
theorem sum_wobble_alone (weight : CpuField → ℚ) (f : CpuField) :
    (CpuField.all.map fun g => wobble (if g = f then 1 else 0) * weight g).sum = weight f := by
  cases f <;> simp [CpuField.all, wobble]

theorem sum_wobble_zero (weight : CpuField → ℚ) :
    (CpuField.all.map fun g => wobble 0 * weight g).sum = 0 := by
  norm_num [CpuField.all, wobble]

/-- Noise of every size cancels exactly if there is none to cancel. -/
theorem forall_noise_iff {lead : ℚ} {weight : CpuField → ℚ} :
    (∀ raw : CpuField → ℚ, lead + (CpuField.all.map fun f => wobble (raw f) * weight f).sum = 0) ↔
      lead = 0 ∧ ∀ f, weight f = 0 := by
  constructor
  · intro hall
    have hlead : lead = 0 := by
      have hcalm := hall fun _ => 0
      rwa [sum_wobble_zero, add_zero] at hcalm
    refine ⟨hlead, fun f => ?_⟩
    have hpeak := hall fun g => if g = f then 1 else 0
    rwa [sum_wobble_alone, hlead, zero_add] at hpeak
  · rintro ⟨rfl, hweight⟩ raw
    simp [hweight]

/-- Two builds conserve the ticks for every wobble exactly if no time passes between them. -/
theorem ticks_conserved_all_iff :
    (∀ raw, Conserved cpu c r { r' with raw := raw }) ↔
      (∀ f, elapsed r r' f = 0) ∧ r'.nowf = r.nowf := by
  have hnoise (raw : CpuField → ℚ) : Conserved cpu c r { r' with raw := raw } ↔
      (CpuField.all.map fun f => cpu.share f * elapsed r r' f).sum - (r'.nowf - r.nowf) +
        (CpuField.all.map fun f => wobble (raw f) * (cpu.share f * f.amp * elapsed r r' f)).sum =
          0 := by
    rw [ticks_conserved_iff, Balanced, sum_stray]
    rfl
  simp only [hnoise, forall_noise_iff]
  have hweight (f : CpuField) : cpu.share f * f.amp ≠ 0 :=
    (mul_pos (cpu.share_pos f) f.amp_pos).ne'
  simp only [mul_eq_zero, hweight, false_or]
  constructor
  · rintro ⟨hlead, hnone⟩
    simp only [hnone, mul_zero, List.sum_map_zero, zero_sub, neg_sub] at hlead
    exact ⟨hnone, by linarith only [hlead]⟩
  · rintro ⟨hnone, hnowf⟩
    exact ⟨by simp [hnone, hnowf], hnone⟩

end Builds

/-! ## A wobble of the user field -/

/-- Four cores at their usual load. -/
def fourCores : Processor := ⟨4, 3 / 10, by decide⟩

/-- Every sample takes place at the same time, and only the user field wobbles. -/
def userPeak (now : ℚ) : Readings where
  nowf := now
  now := fun _ => now
  raw
    | .user => 1
    | _ => 0

/-- The user field grows faster, and the idle field does not make room for it. -/
theorem not_conserved_userPeak :
    ¬ ∀ (cpu : Processor) (c : CpuCounters) (r r' : Readings), Conserved cpu c r r' := by
  intro hclaim
  have hconserved := hclaim fourCores (CpuCounters.init fourCores 0 0) (userPeak 0) (userPeak 60)
  have hminute : (0 : ℚ) < 60 := by norm_num
  have hwobbles := (balanced_iff_of_sameClock hminute (by norm_num [userPeak])
    (by norm_num [userPeak])).mp (ticks_conserved_iff.mp hconserved)
  norm_num [CpuField.all, userPeak, wobble, CpuField.amp, Processor.share, Processor.util,
    fourCores] at hwobbles

end Fleet
end DemoEstate
