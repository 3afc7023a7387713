import DemoEstate.Fleet.MemInfo
import DemoEstate.Hosts.Story

/-!
# The attributes of the dying disk

The disk of the database host gets warmer as soon as it begins to die, but its error counters stay
clean until some minutes behind the break.  Then it admits pending sectors first, uncorrectable
ones next, and reallocated ones last, and each reallocation takes some of the pending ones.

Main definitions:

- Definition {lit}`smartAttrs`: the counters and the temperature.
- Structure {lit}`Confesses`: what the polls of the disk tell.

Main results:

- Theorem {lit}`alarm_pending` and its siblings: when a counter is no longer clean.
- Theorem {lit}`alarm_warm`: when the temperature warns.
- Theorems {lit}`realloc_mono` and {lit}`uncorrect_mono`: what was admitted is not taken back.
- Theorem {lit}`confesses_of_run`: what the polls of every run tell.
-/

namespace DemoEstate
namespace Hosts
namespace DyingDisk

open Fleet (int_le int_nonneg)
open Netsim (DeviceState int int_mono)
open Story
open Transition (Graph Run)
open WinDc (secondsSince)

/-! ## The attributes -/

/-- The attributes that matter. -/
structure Smart where
  pending : ℤ
  realloc : ℤ
  uncorrect : ℤ
  temp : ℚ
deriving DecidableEq

/-- The minutes since the disk confessed; `SMART_CONFESSION_MIN` is a variable. -/
def cascadeAge (confessionMin : ℚ) (s : DeviceState) (now : ℚ) : ℚ :=
  secondsSince s.brokenSince now / 60 - confessionMin

/-- The temperature after some minutes of dying. -/
def warmed (minutes : ℚ) : ℚ :=
  roundTenth (30 + min 8 (minutes * (14 / 10)))

/-- The sectors that the disk can no longer read, by the age of its confession. -/
def uncorrectAt (c : ℚ) : ℤ :=
  if c < 5 then 0 else min 6 (1 + int ((c - 5) / 7))

/-- The sectors that the disk has replaced. -/
def reallocAt (c : ℚ) : ℤ :=
  if c < 10 then 0 else min 12 (int ((c - 10) * (3 / 2)))

/-- The sectors that the disk watches: those it has found, less what it replaced. -/
def pendingAt (c : ℚ) : ℤ :=
  max 2 (min 24 (4 + int (c / 3) - reallocAt c / 3))

/-- `smart_attrs`. -/
def smartAttrs (confessionMin : ℚ) (s : DeviceState) (now : ℚ) : Smart :=
  let m := secondsSince s.degradedSince now / 60
  if m ≤ 0 then { pending := 0, realloc := 0, uncorrect := 0, temp := 30 }
  else
    let temp := warmed m
    let c := cascadeAge confessionMin s now
    if c ≤ 0 then { pending := 0, realloc := 0, uncorrect := 0, temp }
    else { pending := pendingAt c, realloc := reallocAt c, uncorrect := uncorrectAt c, temp }

/-- The temperature that a poll shows. -/
def sdbTemp (confessionMin : ℚ) (s : DeviceState) (now raw : ℚ) : ℤ :=
  round (gauge (smartAttrs confessionMin s now).temp (13 / 10) raw)

/-- A poll shows a counter that is no longer clean. -/
def Admits (confessionMin : ℚ) (counter : Smart → ℤ) (p : Process) (now : ℚ) (_noise : Unit) :
    Prop :=
  counter (smartAttrs confessionMin p.incident now) ≠ 0

/-- A poll shows a temperature. -/
def Warms (confessionMin : ℚ) (level : ℤ) (p : Process) (now raw : ℚ) : Prop :=
  level ≤ sdbTemp confessionMin p.incident now raw

/-! ## The confession -/

section Confession

variable {confessionMin c c' now later b d : ℚ} {s s' : DeviceState} {p : Process}

theorem reallocAt_nonneg (c : ℚ) : 0 ≤ reallocAt c := by
  unfold reallocAt
  split
  · exact le_rfl
  · exact le_min (by norm_num) (int_nonneg (by linarith))

theorem reallocAt_mono (h : c ≤ c') : reallocAt c ≤ reallocAt c' := by
  unfold reallocAt
  split
  · exact reallocAt_nonneg c'
  · rename_i hc
    rw [if_neg (by linarith)]
    exact min_le_min_left 12 (int_mono (by linarith))

theorem uncorrectAt_mono (h : c ≤ c') : uncorrectAt c ≤ uncorrectAt c' := by
  unfold uncorrectAt
  by_cases hc' : c' < 5
  · rw [if_pos (h.trans_lt hc'), if_pos hc']
  · rw [if_neg hc']
    split
    · have hgrown : 0 ≤ int ((c' - 5) / 7) :=
        int_nonneg (div_nonneg (by linarith) (by norm_num))
      exact le_min (by norm_num) (by linarith)
    · have hgrown : int ((c - 5) / 7) ≤ int ((c' - 5) / 7) :=
        int_mono (div_le_div_of_nonneg_right (by linarith) (by norm_num))
      exact min_le_min_left 6 (by linarith)

theorem uncorrectAt_nonneg (c : ℚ) : 0 ≤ uncorrectAt c := by
  unfold uncorrectAt
  split
  · exact le_rfl
  · have hgrown : 0 ≤ int ((c - 5) / 7) := int_nonneg (div_nonneg (by linarith) (by norm_num))
    exact le_min (by norm_num) (by omega)

theorem uncorrectAt_pos (h : 5 ≤ c) : 0 < uncorrectAt c := by
  have hgrown : 0 ≤ int ((c - 5) / 7) := int_nonneg (div_nonneg (by linarith) (by norm_num))
  rw [uncorrectAt, if_neg (not_lt.mpr h)]
  exact lt_min (by norm_num) (by omega)

theorem uncorrectAt_ne_zero_iff : uncorrectAt c ≠ 0 ↔ 5 ≤ c := by
  constructor
  · intro h
    by_contra hc
    exact h (if_pos (not_le.mp hc))
  · exact fun h => (uncorrectAt_pos h).ne'

theorem pendingAt_pos (c : ℚ) : 0 < pendingAt c :=
  lt_max_of_lt_left (by norm_num)

/-- Sectors are replaced once the first one is due. -/
theorem reallocAt_ne_zero_iff : reallocAt c ≠ 0 ↔ 32 / 3 ≤ c := by
  constructor
  · intro h
    by_contra hc
    refine h ?_
    unfold reallocAt
    split
    · rfl
    · rename_i hten
      have hlow : 0 ≤ int ((c - 10) * (3 / 2)) := int_nonneg (by linarith)
      have hhigh : int ((c - 10) * (3 / 2)) < 1 := by
        have hint := int_le (show 0 ≤ (c - 10) * (3 / 2) by linarith)
        have hlt : (int ((c - 10) * (3 / 2)) : ℚ) < 1 := by linarith
        exact_mod_cast hlt
      omega
  · intro h
    have hone : int 1 ≤ int ((c - 10) * (3 / 2)) := int_mono (by linarith)
    rw [show int 1 = 1 by decide +kernel] at hone
    rw [reallocAt, if_neg (by linarith)]
    omega

/-- The disk is dying, and its confession is some time ago. -/
structure Confessed (confessionMin : ℚ) (s : DeviceState) (now : ℚ) : Prop where
  dying : 0 < secondsSince s.degradedSince now
  confessed : 0 < cascadeAge confessionMin s now

/-- The counters are clean until the disk has confessed. -/
theorem clean_of_not (h : ¬ Confessed confessionMin s now) :
    (smartAttrs confessionMin s now).pending = 0 ∧ (smartAttrs confessionMin s now).realloc = 0 ∧
      (smartAttrs confessionMin s now).uncorrect = 0 := by
  unfold smartAttrs
  dsimp only
  split
  · exact ⟨rfl, rfl, rfl⟩
  · rename_i hdying
    rw [if_pos]
    · exact ⟨rfl, rfl, rfl⟩
    · by_contra hage
      exact h ⟨by linarith, not_le.mp hage⟩

/-- After that they are those of the age of the confession. -/
theorem counters_of_confessed (h : Confessed confessionMin s now) :
    (smartAttrs confessionMin s now).pending = pendingAt (cascadeAge confessionMin s now) ∧
      (smartAttrs confessionMin s now).realloc = reallocAt (cascadeAge confessionMin s now) ∧
      (smartAttrs confessionMin s now).uncorrect =
        uncorrectAt (cascadeAge confessionMin s now) := by
  have hdying : ¬ secondsSince s.degradedSince now / 60 ≤ 0 := by
    have hpos := h.dying
    linarith
  unfold smartAttrs
  dsimp only
  rw [if_neg hdying, if_neg (not_le.mpr h.confessed)]
  exact ⟨rfl, rfl, rfl⟩

/-- A disk that has not broken has not confessed. -/
theorem not_confessed_of_unbroken (hconfession : 0 ≤ confessionMin) (hnone : s.brokenSince = none) :
    ¬ Confessed confessionMin s now := by
  rintro ⟨-, hage⟩
  rw [cascadeAge, hnone, show secondsSince none now = 0 from rfl] at hage
  linarith

theorem cascadeAge_of_broken (hsince : s.brokenSince = some b) :
    cascadeAge confessionMin s now = (now - b) / 60 - confessionMin := by
  rw [cascadeAge, hsince, secondsSince_some]

/-- A disk confesses some minutes behind its break. -/
theorem confessed_of_broken (hvalid : Valid now p) (hconfession : 0 ≤ confessionMin)
    (hsince : p.incident.brokenSince = some b) (hlate : b + 60 * confessionMin < now) :
    Confessed confessionMin p.incident now := by
  rcases hvalid.exists_begun hsince with ⟨d, hbegun, hdb⟩
  constructor
  · rw [hbegun, secondsSince_some]
    linarith
  · rw [cascadeAge_of_broken hsince]
    linarith

/-- What was confessed is not taken back, as long as the timestamps stay. -/
theorem Confessed.kept (h : Confessed confessionMin s now) (hlater : Later s s') (hle : now ≤ later)
    (hconfession : 0 ≤ confessionMin) :
    Confessed confessionMin s' later ∧
      cascadeAge confessionMin s now ≤ cascadeAge confessionMin s' later := by
  have hage : cascadeAge confessionMin s now ≤ cascadeAge confessionMin s' later := by
    cases hsince : s.brokenSince with
    | none => exact absurd h (not_confessed_of_unbroken hconfession hsince)
    | some b =>
        have hsince' : s'.brokenSince = some b := hlater .broken b hsince
        rw [cascadeAge_of_broken hsince, cascadeAge_of_broken hsince']
        linarith
  refine ⟨⟨?_, h.confessed.trans_le hage⟩, hage⟩
  have hdying := h.dying
  cases hsince : s.degradedSince with
  | none =>
      rw [hsince] at hdying
      exact absurd hdying (lt_irrefl 0)
  | some d =>
      have hsince' : s'.degradedSince = some d := hlater .begun d hsince
      rw [hsince, secondsSince_some] at hdying
      rw [hsince', secondsSince_some]
      linarith

/-- Reallocated sectors come with uncorrectable ones, and these with pending ones. -/
theorem cascade (confessionMin : ℚ) (s : DeviceState) (now : ℚ) :
    ((smartAttrs confessionMin s now).realloc ≠ 0 →
        (smartAttrs confessionMin s now).uncorrect ≠ 0) ∧
      ((smartAttrs confessionMin s now).uncorrect ≠ 0 →
        (smartAttrs confessionMin s now).pending ≠ 0) := by
  by_cases hconfessed : Confessed confessionMin s now
  · rcases counters_of_confessed hconfessed with ⟨hpending, hrealloc, huncorrect⟩
    rw [hpending, hrealloc, huncorrect, reallocAt_ne_zero_iff, uncorrectAt_ne_zero_iff]
    exact ⟨fun h => by linarith, fun _ => (pendingAt_pos _).ne'⟩
  · rcases clean_of_not hconfessed with ⟨-, hrealloc, huncorrect⟩
    exact ⟨fun h => absurd hrealloc h, fun h => absurd huncorrect h⟩

theorem realloc_mono (hconfession : 0 ≤ confessionMin) (h : Later s s') (hle : now ≤ later) :
    (smartAttrs confessionMin s now).realloc ≤ (smartAttrs confessionMin s' later).realloc := by
  by_cases hconfessed : Confessed confessionMin s now
  · rcases hconfessed.kept h hle hconfession with ⟨hconfessed', hage⟩
    rw [(counters_of_confessed hconfessed).2.1, (counters_of_confessed hconfessed').2.1]
    exact reallocAt_mono hage
  · rw [(clean_of_not hconfessed).2.1]
    by_cases hconfessed' : Confessed confessionMin s' later
    · rw [(counters_of_confessed hconfessed').2.1]
      exact reallocAt_nonneg _
    · rw [(clean_of_not hconfessed').2.1]

theorem uncorrect_mono (hconfession : 0 ≤ confessionMin) (h : Later s s') (hle : now ≤ later) :
    (smartAttrs confessionMin s now).uncorrect ≤ (smartAttrs confessionMin s' later).uncorrect := by
  by_cases hconfessed : Confessed confessionMin s now
  · rcases hconfessed.kept h hle hconfession with ⟨hconfessed', hage⟩
    rw [(counters_of_confessed hconfessed).2.2, (counters_of_confessed hconfessed').2.2]
    exact uncorrectAt_mono hage
  · rw [(clean_of_not hconfessed).2.2]
    by_cases hconfessed' : Confessed confessionMin s' later
    · rw [(counters_of_confessed hconfessed').2.2]
      exact uncorrectAt_nonneg _
    · rw [(clean_of_not hconfessed').2.2]

/-! ## The temperature -/

theorem warmed_mem {m : ℚ} (h : 0 ≤ m) : 30 ≤ warmed m ∧ warmed m ≤ 38 := by
  have hlow : (0 : ℚ) ≤ min 8 (m * (14 / 10)) := le_min (by norm_num) (by linarith)
  have hhigh : min 8 (m * (14 / 10)) ≤ 8 := min_le_left _ _
  have hround := @le_roundTenth (30 + min 8 (m * (14 / 10))) 300 (by push_cast; linarith)
  have hround' := @roundTenth_le (30 + min 8 (m * (14 / 10))) 380 (by push_cast; linarith)
  push_cast at hround hround'
  rw [warmed]
  constructor <;> linarith

theorem temp_cases (confessionMin : ℚ) (s : DeviceState) (now : ℚ) :
    (secondsSince s.degradedSince now / 60 ≤ 0 ∧ (smartAttrs confessionMin s now).temp = 30) ∨
      (0 < secondsSince s.degradedSince now / 60 ∧ (smartAttrs confessionMin s now).temp =
        warmed (secondsSince s.degradedSince now / 60)) := by
  unfold smartAttrs
  dsimp only
  split
  · rename_i hdying
    exact Or.inl ⟨hdying, rfl⟩
  · rename_i hdying
    refine Or.inr ⟨not_le.mp hdying, ?_⟩
    split <;> rfl

/-- The temperature stays below the level of an alarm, whatever its noise. -/
theorem sdbTemp_lt (confessionMin : ℚ) (s : DeviceState) (now raw : ℚ) :
    sdbTemp confessionMin s now raw < 40 := by
  have hgauge := (gauge_mem (smartAttrs confessionMin s now).temp
    (show (0 : ℚ) ≤ 13 / 10 by norm_num) raw).2
  have htemp : (smartAttrs confessionMin s now).temp ≤ 38 := by
    rcases temp_cases confessionMin s now with ⟨-, htemp⟩ | ⟨hdying, htemp⟩
    · rw [htemp]
      norm_num
    · rw [htemp]
      exact (warmed_mem hdying.le).2
  have hround : sdbTemp confessionMin s now raw ≤ 39 := by
    refine round_le_of_lt ?_
    push_cast
    linarith
  omega

end Confession

/-! ## When the attributes tell -/

section Alarms

variable {confessionMin : ℚ}

/-- A counter is clean until the disk has confessed, and no longer from an age of that on. -/
theorem alarm_counter {counter : Smart → ℤ} {age : ℚ} (hconfession : 0 ≤ confessionMin)
    (hage : 0 ≤ age)
    (hclean : ∀ s now, ¬ Confessed confessionMin s now →
      counter (smartAttrs confessionMin s now) = 0)
    (hadmits : ∀ s now, Confessed confessionMin s now → age < cascadeAge confessionMin s now →
      counter (smartAttrs confessionMin s now) ≠ 0) :
    Alarm .broken (Admits confessionMin counter) (60 * (confessionMin + age)) where
  quiet := by
    intro now p noise _ hnone hadmitted
    exact hadmitted (hclean _ _ (not_confessed_of_unbroken hconfession hnone))
  loud := by
    intro now p noise b hvalid hsince hlate
    refine hadmits _ _ (confessed_of_broken hvalid hconfession hsince (by linarith)) ?_
    rw [cascadeAge_of_broken hsince]
    linarith

theorem alarm_pending (hconfession : 0 ≤ confessionMin) :
    Alarm .broken (Admits confessionMin Smart.pending) (60 * confessionMin) := by
  have hcounter :
      Alarm .broken (Admits confessionMin Smart.pending) (60 * (confessionMin + 0)) := by
    refine alarm_counter hconfession le_rfl (fun s now h => (clean_of_not h).1) fun s now h _ => ?_
    rw [(counters_of_confessed h).1]
    exact (pendingAt_pos _).ne'
  rwa [add_zero] at hcounter

theorem alarm_uncorrect (hconfession : 0 ≤ confessionMin) :
    Alarm .broken (Admits confessionMin Smart.uncorrect) (60 * (confessionMin + 5)) := by
  refine alarm_counter hconfession (by norm_num) (fun s now h => (clean_of_not h).2.2)
    fun s now h hage => ?_
  rw [(counters_of_confessed h).2.2, uncorrectAt_ne_zero_iff]
  exact hage.le

theorem alarm_realloc (hconfession : 0 ≤ confessionMin) :
    Alarm .broken (Admits confessionMin Smart.realloc) (60 * (confessionMin + 32 / 3)) := by
  refine alarm_counter hconfession (by norm_num) (fun s now h => (clean_of_not h).2.1)
    fun s now h hage => ?_
  rw [(counters_of_confessed h).2.1, reallocAt_ne_zero_iff]
  exact hage.le

/-- The temperature warns only when the disk is dying, and does so after four and a half minutes. -/
theorem alarm_warm (confessionMin : ℚ) : Alarm .begun (Warms confessionMin 35) 270 where
  quiet := by
    intro now p raw _ hnone hwarm
    have hhealthy : secondsSince p.incident.degradedSince now = 0 := by
      rw [show p.incident.degradedSince = none from hnone]
      rfl
    have htemp : (smartAttrs confessionMin p.incident now).temp = 30 := by
      rcases temp_cases confessionMin p.incident now with ⟨-, htemp⟩ | ⟨hdying, -⟩
      · exact htemp
      · rw [hhealthy] at hdying
        norm_num at hdying
    have hgauge := (gauge_mem 30 (show (0 : ℚ) ≤ 13 / 10 by norm_num) raw).2
    have hround : sdbTemp confessionMin p.incident now raw ≤ 32 := by
      rw [sdbTemp, htemp]
      refine round_le ?_
      push_cast
      linarith
    rw [Warms] at hwarm
    omega
  loud := by
    intro now p raw d _ hsince hlate
    have hdying : 9 / 2 < secondsSince p.incident.degradedSince now / 60 := by
      rw [show p.incident.degradedSince = some d from hsince, secondsSince_some]
      linarith
    have htemp : 363 / 10 ≤ (smartAttrs confessionMin p.incident now).temp := by
      rcases temp_cases confessionMin p.incident now with ⟨hcold, -⟩ | ⟨-, htemp⟩
      · linarith
      · have hrise : 63 / 10 ≤
            min 8 (secondsSince p.incident.degradedSince now / 60 * (14 / 10)) :=
          le_min (by norm_num) (by linarith)
        rw [htemp, warmed]
        exact le_roundTenth (by push_cast; linarith)
    have hgauge := (gauge_mem (smartAttrs confessionMin p.incident now).temp
      (show (0 : ℚ) ≤ 13 / 10 by norm_num) raw).1
    rw [Warms, sdbTemp]
    refine le_round ?_
    push_cast
    linarith

end Alarms

/-! ## Runs -/

/-- The disk gets warm as it begins to die, and its counters stay clean up to its confession behind
the break: then it admits one kind of sectors after the other, each kind along with the one
before it, and takes back neither replaced nor unreadable ones while the incident gets no better.
Its temperature never reaches the level of an alarm. -/
structure Confesses (cfg : Config) (confessionMin : ℚ) (m : Machine) : Prop where
  pending : Announces cfg .broken (Admits confessionMin Smart.pending) (60 * confessionMin) m
  uncorrect :
    Announces cfg .broken (Admits confessionMin Smart.uncorrect) (60 * (confessionMin + 5)) m
  realloc :
    Announces cfg .broken (Admits confessionMin Smart.realloc) (60 * (confessionMin + 32 / 3)) m
  cascades : ((smartAttrs confessionMin m.process.incident m.now).realloc ≠ 0 →
      (smartAttrs confessionMin m.process.incident m.now).uncorrect ≠ 0) ∧
    ((smartAttrs confessionMin m.process.incident m.now).uncorrect ≠ 0 →
      (smartAttrs confessionMin m.process.incident m.now).pending ≠ 0)
  kept : ∀ ops m', m.Onward cfg ops m' →
    (smartAttrs confessionMin m.process.incident m.now).realloc ≤
        (smartAttrs confessionMin m'.process.incident m'.now).realloc ∧
      (smartAttrs confessionMin m.process.incident m.now).uncorrect ≤
        (smartAttrs confessionMin m'.process.incident m'.now).uncorrect
  warms : Announces cfg .begun (Warms confessionMin 35) 270 m
  cool : ∀ raw, sdbTemp confessionMin m.process.incident m.now raw < 40

/-- In every run of toggles, saves and new processes the polls tell of the dying disk. -/
theorem confesses_of_run {cfg : Config} {confessionMin first : ℚ} {ops : List Op} {m : Machine}
    (hconfession : 0 ≤ confessionMin)
    (hrun : Run (Graph (Machine.step cfg)) (Machine.init cfg first) ops m) :
    Confesses cfg confessionMin m where
  pending := (alarm_pending hconfession).announces hrun
  uncorrect := (alarm_uncorrect hconfession).announces hrun
  realloc := (alarm_realloc hconfession).announces hrun
  cascades := cascade confessionMin m.process.incident m.now
  kept := by
    intro ops' m' honward
    rcases Machine.later_of_run (Machine.Inv.of_run hrun) honward with ⟨-, hbehind⟩
    exact ⟨realloc_mono hconfession hbehind.later hbehind.now_le,
      uncorrect_mono hconfession hbehind.later hbehind.now_le⟩
  warms := (alarm_warm confessionMin).announces hrun
  cool := fun raw => sdbTemp_lt confessionMin m.process.incident m.now raw

/-- The ramp of the database host, which has no climb and starts healthy. -/
def defaults : Config where
  climbMin := 0
  breakRampMin := 4
  startState := .healthy

/-- The disk dies for twenty minutes, breaks, and is polled by a new process. -/
def breakAndRestart : List Op :=
  [.toggle .degraded 0 0, .wait 1200, .toggle .broken 0 0, .save, .restart (some 0), .wait 700]

theorem confesses_of_run_breakAndRestart :
    ∃ m, Run (Graph (Machine.step defaults)) (Machine.init defaults 0) breakAndRestart m ∧
      (smartAttrs 8 m.process.incident m.now).pending = 5 ∧ Confesses defaults 8 m := by
  have hsome : (Transition.execute (Machine.step defaults) (Machine.init defaults 0)
      breakAndRestart).map (fun m => (smartAttrs 8 m.process.incident m.now).pending) =
        some 5 := by
    decide +kernel
  rcases Option.map_eq_some_iff.mp hsome with ⟨m, hexecute, hpending⟩
  have hrun := Transition.run_of_execute hexecute
  exact ⟨m, hrun, hpending, confesses_of_run (by norm_num) hrun⟩

end DyingDisk
end Hosts
end DemoEstate
