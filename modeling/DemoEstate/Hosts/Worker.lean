import DemoEstate.Fleet.MemInfo
import DemoEstate.Hosts.Story

/-!
# The leaking memory of the worker

A leak fills the memory of the worker and takes it from the page cache, and later from the swap
space.  A monitoring server warns when more memory is promised than there is, and alarms when nine
tenths of memory and swap space are used.

Main definitions:

- Definition {lit}`memory`: the lines of the memory section that the check reads.
- Structure {lit}`Leaks`: what the polls of the memory tell.

Main results:

- Theorem {lit}`alarm_overcommit`: when more is promised than there is.
- Theorems {lit}`virtualUsed_le` and {lit}`le_virtualUsed`: the memory used at a pressure.
- Theorem {lit}`alarm_virtual`: when memory and swap space are nearly used up.
- Theorem {lit}`leaks_of_run`: what the polls of every run tell.
-/

namespace DemoEstate
namespace Hosts
namespace Worker

open Fleet (int_gauge_le int_le int_nonneg)
open Netsim (DeviceState int)
open Story
open TickBudget (lerp)
open Transition (Graph Run)

/-! ## The memory section -/

/-- The lines that the check reads, in kilobytes. -/
structure Memory where
  memTotal : ℤ
  memFree : ℤ
  buffers : ℤ
  cached : ℤ
  swapCached : ℤ
  swapTotal : ℤ
  swapFree : ℤ
  sReclaimable : ℤ
  commitLimit : ℤ
  committedAS : ℤ

/-- The noise of the two gauges. -/
structure Noise where
  cached : ℚ
  committed : ℚ

/-- `pressure`, with the knee of the worker. -/
def pressure (cfg : Config) (s : DeviceState) (now : ℚ) : ℚ :=
  Story.pressure (78 / 100) (22 / 100) cfg s now

/-- How far the swap space is in use. -/
def swapping (p : ℚ) : ℚ :=
  (p - 35 / 100) / (65 / 100)

def cachedAt (p raw : ℚ) : ℤ :=
  int (Fleet.gauge (lerp 6000000 900000 p) (2 / 100) raw)

def buffersAt (p : ℚ) : ℤ :=
  int (lerp 180000 40000 p)

def sreclaimAt (p : ℚ) : ℤ :=
  int (lerp 488256 144000 p)

def swapCachedAt (p : ℚ) : ℤ :=
  int (lerp 0 120000 (max 0 (swapping p)))

/-- What the memory holds besides the leak. -/
def cachesAt (p raw : ℚ) : ℤ :=
  cachedAt p raw + buffersAt p + swapCachedAt p + sreclaimAt p

def memUsedAt (p : ℚ) : ℤ :=
  int (lerp 6500000 15200000 p)

def swapUsedAt (p : ℚ) : ℤ :=
  int (lerp 0 3950000 (max 0 (min 1 (swapping p))))

def committedAt (p raw : ℚ) : ℤ :=
  int (Fleet.gauge (lerp 7000000 16800000 p) (1 / 100) raw)

/-- The memory section at a pressure. -/
def memoryAt (p : ℚ) (noise : Noise) : Memory where
  memTotal := 16384000
  memFree := max 120000 (16384000 - memUsedAt p - cachesAt p noise.cached)
  buffers := buffersAt p
  cached := cachedAt p noise.cached
  swapCached := swapCachedAt p
  swapTotal := 4194300
  swapFree := max 40000 (4194300 - swapUsedAt p)
  sReclaimable := sreclaimAt p
  commitLimit := 4194300 + 16384000 / 2
  committedAS := committedAt p noise.committed

/-- The part of `build_agent_output` that fills the memory section. -/
def memory (cfg : Config) (p : Process) (now : ℚ) (noise : Noise) : Memory :=
  memoryAt (pressure cfg p.incident now) noise

/-- The used memory and swap space, as the check works them out. -/
def Memory.virtualUsed (mem : Memory) : ℤ :=
  mem.memTotal - mem.memFree -
      (mem.cached + mem.buffers + mem.swapCached + mem.sReclaimable) +
    (mem.swapTotal - mem.swapFree)

/-- More memory is promised than there is. -/
def Memory.Overcommits (mem : Memory) : Prop :=
  mem.commitLimit ≤ mem.committedAS

/-- A level of memory and swap space is used, in percent. -/
def Memory.Fills (mem : Memory) (level : ℤ) : Prop :=
  level * (mem.memTotal + mem.swapTotal) ≤ 100 * mem.virtualUsed

/-! ## The memory at a pressure -/

section Pressure

variable {p : ℚ}

theorem committedAt_le (h : 0 ≤ p) (raw : ℚ) :
    (committedAt p raw : ℚ) ≤ lerp 7000000 16800000 p * (1 + 1 / 100) := by
  refine int_gauge_le ?_ (by norm_num) (by norm_num)
  rw [lerp]
  linarith

theorem lt_committedAt (h : 0 ≤ p) (raw : ℚ) :
    lerp 7000000 16800000 p * (1 - 1 / 100) < committedAt p raw + 1 := by
  have hbase : 0 ≤ lerp 7000000 16800000 p := by
    rw [lerp]
    linarith
  have hwobble := Netsim.neg_one_le_wobble raw
  have hgauge : lerp 7000000 16800000 p * (1 - 1 / 100) ≤
      Fleet.gauge (lerp 7000000 16800000 p) (1 / 100) raw :=
    mul_le_mul_of_nonneg_left (by linarith) hbase
  exact hgauge.trans_lt (lt_int_add_one _)

theorem swapping_le_one (hone : p ≤ 1) : swapping p ≤ 1 := by
  rw [swapping]
  linarith

/-- Up to the knee the swap space is in use for two thirds at most. -/
theorem swapUsedAt_le (h : p ≤ 78 / 100) : (swapUsedAt p : ℚ) ≤ 2613077 := by
  have hpart : max 0 (min 1 (swapping p)) ≤ 43 / 65 := by
    refine max_le (by norm_num) ((min_le_right _ _).trans ?_)
    rw [swapping]
    linarith
  have hnonneg : 0 ≤ max 0 (min 1 (swapping p)) := le_max_left _ _
  have hint := int_le (show 0 ≤ lerp 0 3950000 (max 0 (min 1 (swapping p))) by rw [lerp]; linarith)
  rw [swapUsedAt]
  rw [lerp] at hint ⊢
  linarith

theorem lt_swapUsedAt (hone : p ≤ 1) : 3950000 * swapping p < swapUsedAt p + 1 := by
  have hint := lt_int_add_one (lerp 0 3950000 (max 0 (min 1 (swapping p))))
  have hpart : swapping p ≤ max 0 (min 1 (swapping p)) :=
    le_max_of_le_right (le_min (swapping_le_one hone) le_rfl)
  rw [swapUsedAt]
  rw [lerp] at hint ⊢
  linarith

theorem memUsedAt_le (h : 0 ≤ p) : (memUsedAt p : ℚ) ≤ 6500000 + 8700000 * p := by
  have hint := int_le (show 0 ≤ lerp 6500000 15200000 p by rw [lerp]; linarith)
  rw [memUsedAt]
  rw [lerp] at hint ⊢
  linarith

theorem lt_memUsedAt (p : ℚ) : 6500000 + 8700000 * p < memUsedAt p + 1 := by
  have hint := lt_int_add_one (lerp 6500000 15200000 p)
  rw [memUsedAt]
  rw [lerp] at hint ⊢
  linarith

/-- The more the leak takes, the less is cached. -/
theorem cachesAt_le (hlow : 35 / 100 ≤ p) (hone : p ≤ 1) (raw : ℚ) :
    (cachesAt p raw : ℚ) ≤
      (6000000 - 5100000 * p) * (102 / 100) + (180000 - 140000 * p) + 120000 * swapping p +
        (488256 - 344256 * p) := by
  have hswap : 0 ≤ swapping p := by
    rw [swapping]
    exact div_nonneg (by linarith) (by norm_num)
  have hcached : (cachedAt p raw : ℚ) ≤ (6000000 + (900000 - 6000000) * p) * (1 + 2 / 100) := by
    refine int_gauge_le ?_ (by norm_num) (by norm_num)
    rw [lerp]
    linarith
  have hbuffers : (buffersAt p : ℚ) ≤ 180000 + (40000 - 180000) * p :=
    int_le (show 0 ≤ lerp 180000 40000 p by rw [lerp]; linarith)
  have hsreclaim : (sreclaimAt p : ℚ) ≤ 488256 + (144000 - 488256) * p :=
    int_le (show 0 ≤ lerp 488256 144000 p by rw [lerp]; linarith)
  have hswapCached : (swapCachedAt p : ℚ) ≤ 0 + (120000 - 0) * max 0 (swapping p) :=
    int_le (show 0 ≤ lerp 0 120000 (max 0 (swapping p)) by
      rw [lerp, max_eq_right hswap]
      linarith)
  rw [max_eq_right hswap] at hswapCached
  rw [cachesAt]
  push_cast
  linarith

theorem virtualUsed_eq (p : ℚ) (noise : Noise) :
    (memoryAt p noise).virtualUsed =
      min (16264000 - cachesAt p noise.cached) (memUsedAt p) + min 4154300 (swapUsedAt p) := by
  simp only [Memory.virtualUsed, memoryAt, cachesAt]
  omega

/-- Up to the knee less than four fifths are used. -/
theorem virtualUsed_le (h : 0 ≤ p) (hknee : p ≤ 78 / 100) (noise : Noise) :
    ((memoryAt p noise).virtualUsed : ℚ) ≤ 15899077 := by
  have hmem := memUsedAt_le h
  have hswap := swapUsedAt_le hknee
  have hleft : min (16264000 - cachesAt p noise.cached) (memUsedAt p) ≤ memUsedAt p :=
    min_le_right _ _
  have hright : min 4154300 (swapUsedAt p) ≤ swapUsedAt p := min_le_right _ _
  have hsum : (memoryAt p noise).virtualUsed ≤ memUsedAt p + swapUsedAt p := by
    rw [virtualUsed_eq]
    omega
  have hsum' : ((memoryAt p noise).virtualUsed : ℚ) ≤ memUsedAt p + swapUsedAt p := by
    exact_mod_cast hsum
  linarith

/-- Near the top more than nine tenths are used. -/
theorem le_virtualUsed (hlow : 9604 / 10000 ≤ p) (hone : p ≤ 1) (noise : Noise) :
    18520470 ≤ (memoryAt p noise).virtualUsed := by
  have hmem := lt_memUsedAt p
  have hswap := lt_swapUsedAt hone
  have hcaches := cachesAt_le (by linarith) hone noise.cached
  rw [swapping] at hswap hcaches
  have htop : (18520470 : ℚ) ≤ 16264000 - cachesAt p noise.cached + 4154300 := by linarith
  have hcapped : (18520470 : ℚ) ≤ memUsedAt p + 4154300 := by linarith
  have hroom : (18520469 : ℚ) < 16264000 - cachesAt p noise.cached + swapUsedAt p := by linarith
  have hleak : (18520469 : ℚ) < memUsedAt p + swapUsedAt p := by linarith
  have htop' : 18520470 ≤ 16264000 - cachesAt p noise.cached + 4154300 := by exact_mod_cast htop
  have hcapped' : 18520470 ≤ memUsedAt p + 4154300 := by exact_mod_cast hcapped
  have hroom' : 18520469 < 16264000 - cachesAt p noise.cached + swapUsedAt p := by
    exact_mod_cast hroom
  have hleak' : 18520469 < memUsedAt p + swapUsedAt p := by exact_mod_cast hleak
  rw [virtualUsed_eq]
  omega

end Pressure

/-! ## The levels -/

/-- More is promised than there is only once the incident has begun, and from the later part of the
climb on. -/
theorem alarm_overcommit (cfg : Config) :
    Alarm .begun (fun p now noise => (memory cfg p now noise).Overcommits)
      (partOf (73 / 100) cfg.climbMin) where
  quiet := by
    intro now p noise hvalid hnone hover
    have hzero : pressure cfg p.incident now = 0 :=
      pressure_of_healthy hnone (hvalid.not_broken hnone)
    have hcommitted := committedAt_le (le_refl 0) noise.committed
    have hover' : ((4194300 + 16384000 / 2 : ℤ) : ℚ) ≤ committedAt 0 noise.committed := by
      rw [← hzero]
      exact_mod_cast hover
    rw [lerp] at hcommitted
    norm_num at hover' hcommitted
    linarith
  loud := by
    intro now p noise d _ hsince hlate
    have hclimb := le_climb hsince (show (73 / 100 : ℚ) ≤ 1 by norm_num) hlate
    have hpressure : 78 / 100 * climb cfg p.incident now ≤ pressure cfg p.incident now :=
      le_pressure_of_climb (by norm_num) (by norm_num)
    have hcommitted := lt_committedAt (show 0 ≤ pressure cfg p.incident now by linarith)
      noise.committed
    rw [lerp] at hcommitted
    have hlimit : ((12386300 : ℤ) : ℚ) ≤
        committedAt (pressure cfg p.incident now) noise.committed := by
      push_cast
      linarith
    exact_mod_cast hlimit

/-- Up to a break not even four fifths are used. -/
theorem not_fills {cfg : Config} {p : Process} {now : ℚ} (hnone : p.incident.brokenSince = none)
    (noise : Noise) : ¬ (memory cfg p now noise).Fills 80 := by
  intro hfills
  have hknee : pressure cfg p.incident now ≤ 78 / 100 := pressure_le_knee (by norm_num) hnone
  have hused := virtualUsed_le (pressure_mem _ _ cfg p.incident now).1 hknee noise
  have hused' : (memory cfg p now noise).virtualUsed ≤ 15899077 := by exact_mod_cast hused
  have hlevel : (80 : ℤ) * (16384000 + 4194300) ≤ 100 * (memory cfg p now noise).virtualUsed :=
    hfills
  omega

/-- Nine tenths are used only behind a break, and from the later part of its ramp on. -/
theorem alarm_virtual (cfg : Config) :
    Alarm .broken (fun p now noise => (memory cfg p now noise).Fills 90)
      (partOf (82 / 100) cfg.breakRampMin) where
  quiet := by
    intro now p noise _ hnone hfills
    refine not_fills hnone noise (le_trans ?_ hfills)
    exact mul_le_mul_of_nonneg_right (by norm_num)
      (show (0 : ℤ) ≤ 16384000 + 4194300 by norm_num)
  loud := by
    intro now p noise b _ hsince hlate
    have hnonneg : 0 ≤ partOf (82 / 100) cfg.breakRampMin := le_max_left _ _
    have hramp := le_ramp hsince (show (82 / 100 : ℚ) ≤ 1 by norm_num) hlate
    have hpos : 0 < WinDc.secondsSince p.incident.brokenSince now :=
      secondsSince_pos hsince (by linarith)
    have hpressure : 78 / 100 + 22 / 100 * ramp cfg p.incident now ≤ pressure cfg p.incident now :=
      le_pressure_of_ramp (by norm_num) (by norm_num) hpos
    have hused := le_virtualUsed (show 9604 / 10000 ≤ pressure cfg p.incident now by linarith)
      (pressure_mem _ _ cfg p.incident now).2 noise
    have hlevel : (90 : ℤ) * (16384000 + 4194300) ≤
        100 * (memory cfg p now noise).virtualUsed := by
      have hmemory : (memory cfg p now noise).virtualUsed =
          (memoryAt (pressure cfg p.incident now) noise).virtualUsed := rfl
      omega
    exact hlevel

/-! ## Runs -/

/-- The memory is overcommitted with the incident.  With the break, and only then, memory and swap
space fill up; up to a break not even four fifths of them are used. -/
structure Leaks (cfg : Config) (m : Machine) : Prop where
  warns : Announces cfg .begun (fun p now noise => (memory cfg p now noise).Overcommits)
    (partOf (73 / 100) cfg.climbMin) m
  alarms : Announces cfg .broken (fun p now noise => (memory cfg p now noise).Fills 90)
    (partOf (82 / 100) cfg.breakRampMin) m
  calm : ∀ noise, (memory cfg m.process m.now noise).Fills 80 →
    m.process.incident.state = .broken

/-- In every run of toggles, saves and new processes the polls tell of the leak. -/
theorem leaks_of_run {cfg : Config} {first : ℚ} {ops : List Op} {m : Machine}
    (hrun : Run (Graph (Machine.step cfg)) (Machine.init cfg first) ops m) : Leaks cfg m where
  warns := (alarm_overcommit cfg).announces hrun
  alarms := (alarm_virtual cfg).announces hrun
  calm := by
    intro noise hfills
    have hvalid := (Machine.Inv.of_run hrun).process
    refine hvalid.timestamps.broken_iff.mp fun hnone => ?_
    exact not_fills hnone noise hfills

/-- The default ramps of the worker, which starts healthy. -/
def defaults : Config where
  climbMin := 18
  breakRampMin := 4
  startState := .healthy

/-- The host is degraded, breaks, and is healed and degraded again. -/
def breakAndHeal : List Op :=
  [.toggle .degraded 0 0, .wait 900, .toggle .broken 0 0, .save, .wait 300, .toggle .healthy 0 0,
    .toggle .degraded 0 0, .wait 60, .restart (some 0)]

theorem leaks_of_run_breakAndHeal :
    ∃ m, Run (Graph (Machine.step defaults)) (Machine.init defaults 0) breakAndHeal m ∧
      m.process.incident.state = .broken ∧ Leaks defaults m := by
  have hsome : (Transition.execute (Machine.step defaults) (Machine.init defaults 0)
      breakAndHeal).map (fun m => m.process.incident.state) = some .broken := by
    decide +kernel
  rcases Option.map_eq_some_iff.mp hsome with ⟨m, hexecute, hstate⟩
  have hrun := Transition.run_of_execute hexecute
  exact ⟨m, hrun, hstate, leaks_of_run hrun⟩

end Worker
end Hosts
end DemoEstate
