import DemoEstate.Library.Transition
import DemoEstate.Netsim.Counter

/-!
# One counter under concurrent polls

Every poll reads the clock, then waits for the counter's lock, and integrates with the time it
read.  Calls may enter in another order than they read the clock, and each one leaves its own
time as that of the last sample.

Main definitions:

- Definition {lit}`Counter.add`: integrate a rate that was computed before.
- Structure {lit}`Polls`: a counter, the clock, the calls that wait, and what was integrated.
- Definition {lit}`OnTime`: no call enters after a call that was overtaken.

Main results:

- Theorem {lit}`Polls.slack_of_step`: what one step adds to the time counted twice.
- Theorem {lit}`Polls.conserved_iff`: no time is counted twice in exactly the runs on time.
-/

namespace DemoEstate
namespace Netsim

open Transition (Run Meeting)

/-! ## The calls of a counter -/

namespace Counter

/-- Integrate an instantaneous rate over the time since the last sample. -/
def add (c : Counter) (inst now : ℚ) : Counter :=
  { c with
    acc := c.acc + inst * max 0 (now - c.last)
    last := now }

theorem sample_eq_add (c : Counter) (rate : ℚ) (cap : Option ℚ) (raw now : ℚ) :
    c.sample rate cap raw now = c.add (c.inst rate cap raw) now :=
  rfl

end Counter

/-- A call that takes the lock: a sample at a base rate, the wobbled rate alone, or the
integration of a rate that was computed before. -/
inductive Call where
  | sample (rate : ℚ) (cap : Option ℚ)
  | inst (rate : ℚ)
  | add (inst : ℚ)
deriving DecidableEq

/-- The rate a call integrates, if it integrates at all. -/
def Call.integrates (c : Counter) (raw : ℚ) : Call → Option ℚ
  | .sample rate cap => some (c.inst rate cap raw)
  | .inst _ => none
  | .add rate => some rate

/-! ## Polls -/

/-- A counter with the calls that have read the clock and wait for its lock.  The last three
fields only record: the time integrated, the largest time a call integrated with, and the
rates integrated. -/
structure Polls where
  counter : Counter
  clock : ℚ
  waiting : List (ℚ × Call)
  integrated : ℚ
  highest : ℚ
  rates : List ℚ
deriving DecidableEq

/-- The clock goes on, a call reads it, or a waiting call gets the lock. -/
inductive Poll where
  | tick (now : ℚ)
  | read (call : Call)
  | enter (i : Nat) (raw : ℚ)

namespace Polls

/-- A counter nobody polls yet. -/
def start (c : Counter) (now : ℚ) : Polls where
  counter := c
  clock := now
  waiting := []
  integrated := 0
  highest := c.last
  rates := []

/-- The critical section of a call, with the time it read. -/
def enter (s : Polls) (now : ℚ) (call : Call) (raw : ℚ) : Polls :=
  match call.integrates s.counter raw with
  | none => s
  | some inst =>
      { s with
        counter := s.counter.add inst now
        integrated := s.integrated + max 0 (now - s.counter.last)
        highest := max s.highest now
        rates := inst :: s.rates }

def step (s : Polls) : Poll → Option Polls
  | .tick now => if s.clock ≤ now then some { s with clock := now } else none
  | .read call => some { s with waiting := s.waiting ++ [(s.clock, call)] }
  | .enter i raw =>
      match s.waiting[i]? with
      | none => none
      | some (now, call) => some { s.enter now call raw with waiting := s.waiting.eraseIdx i }

/-- The time integrated since a counter's last sample is the time up to the largest timestamp,
and bounds the increase. -/
structure Conserved (c : Counter) (s : Polls) : Prop where
  time : s.integrated = s.highest - c.last
  increase : ∀ bound, (∀ rate ∈ s.rates, rate ≤ bound) →
    s.counter.acc - c.acc ≤ bound * (s.highest - c.last)

/-- A call that integrates has read a time no later than the last sample, or the last sample
has the largest time used. -/
def OnTime (s : Polls) : Poll → Prop
  | .enter i raw => ∀ now call, s.waiting[i]? = some (now, call) →
      call.integrates s.counter raw ≠ none →
        now ≤ s.counter.last ∨ s.counter.last = s.highest
  | _ => True

/-! ## What a step does -/

/-- The time counted beyond the largest timestamp. -/
def slack (c : Counter) (s : Polls) : ℚ :=
  s.integrated - (s.highest - c.last)

/-- The last sample's time is one of the times used, and rates bound the increase by the time
integrated. -/
structure Recorded (c : Counter) (s : Polls) : Prop where
  last_le : s.counter.last ≤ s.highest
  increase : ∀ bound, (∀ rate ∈ s.rates, rate ≤ bound) →
    s.counter.acc - c.acc ≤ bound * s.integrated

variable {c : Counter} {s t : Polls} {l : Poll} {ls : List Poll}

theorem recorded_start (c : Counter) (now : ℚ) : Recorded c (start c now) where
  last_le := le_refl _
  increase bound _ := by
    simp only [start, sub_self, mul_zero]
    exact le_refl _

/-- A step leaves the records alone, or a call integrates. -/
theorem step_cases (hstep : step s l = some t) :
    (t.counter = s.counter ∧ t.integrated = s.integrated ∧ t.highest = s.highest ∧
        t.rates = s.rates ∧ OnTime s l) ∨
      ∃ i raw now call inst, l = .enter i raw ∧ s.waiting[i]? = some (now, call) ∧
        call.integrates s.counter raw = some inst ∧
        t.counter = s.counter.add inst now ∧
        t.integrated = s.integrated + max 0 (now - s.counter.last) ∧
        t.highest = max s.highest now ∧ t.rates = inst :: s.rates := by
  cases l with
  | tick now =>
      simp only [step, Option.ite_none_right_eq_some, Option.some.injEq] at hstep
      obtain ⟨-, rfl⟩ := hstep
      exact .inl ⟨rfl, rfl, rfl, rfl, trivial⟩
  | read call =>
      simp only [step, Option.some.injEq] at hstep
      subst hstep
      exact .inl ⟨rfl, rfl, rfl, rfl, trivial⟩
  | enter i raw =>
      cases hget : s.waiting[i]? with
      | none => simp [step, hget] at hstep
      | some entry =>
          obtain ⟨now, call⟩ := entry
          simp only [step, hget, Option.some.injEq] at hstep
          subst hstep
          cases hinst : call.integrates s.counter raw with
          | none =>
              left
              simp only [enter, hinst, true_and]
              intro now' call' hget' hsome
              rw [hget, Option.some.injEq, Prod.mk.injEq] at hget'
              obtain ⟨rfl, rfl⟩ := hget'
              exact absurd hinst hsome
          | some inst =>
              right
              exact ⟨i, raw, now, call, inst, rfl, hget, hinst, by simp [enter, hinst]⟩

theorem recorded_step (hrec : Recorded c s) (hstep : step s l = some t) : Recorded c t := by
  rcases step_cases hstep with ⟨hcounter, hint, hhigh, hrates, -⟩ |
    ⟨i, raw, now, call, inst, -, -, -, hcounter, hint, hhigh, hrates⟩
  · constructor
    · rw [hcounter, hhigh]
      exact hrec.last_le
    · rw [hcounter, hint, hrates]
      exact hrec.increase
  · constructor
    · rw [hcounter, hhigh]
      exact le_max_right _ _
    · intro bound hbound
      rw [hrates] at hbound
      have hinst : inst ≤ bound := hbound inst List.mem_cons_self
      have hbefore := hrec.increase bound fun rate hrate =>
        hbound rate (List.mem_cons_of_mem _ hrate)
      have hadded : inst * max 0 (now - s.counter.last) ≤
          bound * max 0 (now - s.counter.last) :=
        mul_le_mul_of_nonneg_right hinst (le_max_left _ _)
      rw [hcounter, hint, mul_add]
      simp only [Counter.add]
      linarith only [hbefore, hadded]

/-- A step adds to the slack what an overtaken call lets the next one count again: nothing on
time, and something otherwise. -/
theorem slack_of_step (hrec : Recorded c s) (hstep : step s l = some t) :
    slack c s ≤ slack c t ∧ (slack c t = slack c s ↔ OnTime s l) := by
  rcases step_cases hstep with ⟨-, hint, hhigh, -, htime⟩ |
    ⟨i, raw, now, call, inst, rfl, hget, hinst, -, hint, hhigh, -⟩
  · have hslack : slack c t = slack c s := by rw [slack, slack, hint, hhigh]
    exact ⟨hslack.ge, iff_of_true hslack htime⟩
  · have hlast := hrec.last_le
    have hon : OnTime s (.enter i raw) ↔ now ≤ s.counter.last ∨ s.counter.last = s.highest := by
      constructor
      · intro htime
        exact htime now call hget (by simp [hinst])
      · intro hcond now' call' hget' _
        rw [hget, Option.some.injEq, Prod.mk.injEq] at hget'
        obtain ⟨rfl, rfl⟩ := hget'
        exact hcond
    have hslack : slack c t = slack c s + max 0 (now - s.counter.last) -
        (max s.highest now - s.highest) := by
      rw [slack, slack, hint, hhigh]
      ring
    rw [hon, hslack]
    -- the largest time grows by less than what is integrated when the call before was late
    by_cases hlate : now ≤ s.counter.last
    · rw [max_eq_left (sub_nonpos.mpr hlate), max_eq_left (hlate.trans hlast)]
      simp [hlate]
    · have hpos : 0 ≤ now - s.counter.last := sub_nonneg.mpr (not_le.mp hlate).le
      rw [max_eq_right hpos]
      by_cases hnew : s.highest ≤ now
      · rw [max_eq_right hnew]
        constructor
        · linarith only [hlast]
        · constructor
          · intro heq
            right
            linarith only [heq]
          · rintro (hle | heq)
            · exact absurd hle hlate
            · rw [heq]
              ring
      · rw [max_eq_left (not_le.mp hnew).le]
        constructor
        · linarith only [hpos]
        · constructor
          · intro heq
            left
            linarith only [heq]
          · rintro (hle | heq)
            · exact absurd hle hlate
            · rw [heq] at hlate
              exact absurd (not_le.mp hlate) (not_lt.mpr (not_le.mp hnew).le)

/-! ## Runs -/

theorem slack_run (hrec : Recorded c s) (hrun : Run (Transition.Graph step) s ls t) :
    Recorded c t ∧ slack c s ≤ slack c t ∧
      (slack c t = slack c s ↔ Run (Meeting (Transition.Graph step) OnTime) s ls t) := by
  induction hrun with
  | nil s => exact ⟨hrec, le_refl _, iff_of_true rfl (Run.nil s)⟩
  | cons head tail ih =>
      obtain ⟨hend, hle, hiff⟩ := ih (recorded_step hrec head)
      obtain ⟨hle', hiff'⟩ := slack_of_step hrec head
      refine ⟨hend, hle'.trans hle, ?_⟩
      constructor
      · intro heq
        have hfirst := le_antisymm (hle.trans heq.le) hle'
        exact Run.cons ⟨head, hiff'.mp hfirst⟩ (hiff.mp (heq.trans hfirst.symm))
      · intro hmeet
        cases hmeet with
        | cons hhead htail =>
            -- the step is a function, so both runs go through one state
            have hsame := Option.some.inj (hhead.1.symm.trans head)
            subst hsame
            exact (hiff.mpr htail).trans (hiff'.mpr hhead.2)

theorem conserved_iff_slack (hrec : Recorded c s) : Conserved c s ↔ slack c s = 0 := by
  constructor
  · intro hcons
    rw [slack, hcons.time, sub_self]
  · intro hzero
    have htime : s.integrated = s.highest - c.last := sub_eq_zero.mp hzero
    constructor
    · exact htime
    · rw [← htime]
      exact hrec.increase

/-- Time is counted once in a run exactly if every call enters on time: none that has read a
later time than the last sample's follows a call that was overtaken. -/
theorem conserved_iff (c : Counter) (now : ℚ) (ls : List Poll) (t : Polls)
    (hrun : Run (Transition.Graph step) (start c now) ls t) :
    Conserved c t ↔ Run (Meeting (Transition.Graph step) OnTime) (start c now) ls t := by
  obtain ⟨hrec, -, hiff⟩ := slack_run (recorded_start c now) hrun
  have hstart : slack c (start c now) = 0 := by simp [slack, start]
  rw [conserved_iff_slack hrec, ← hiff, hstart]

/-- A counter without wobble, last sampled at time zero. -/
def steady : Counter :=
  .still 0 0

/-- Two polls whose calls enter in the other order than they read the clock, and a third one
if `again`. -/
def swapped (again : Bool) : List Poll :=
  [.read (.sample 5 none), .tick 10, .read (.sample 5 none), .enter 1 0, .enter 0 0] ++
    if again then [.read (.sample 5 none), .enter 0 0] else []

/-- What the swapped polls leave: after the third, ten seconds are integrated twice. -/
def afterSwapped (again : Bool) : Polls where
  counter := { steady with acc := if again then 100 else 50, last := if again then 10 else 0 }
  clock := 10
  waiting := []
  integrated := if again then 20 else 10
  highest := 10
  rates := if again then [5, 5, 5] else [5, 5]

theorem run_swapped (again : Bool) :
    Run (Transition.Graph step) (start steady 0) (swapped again) (afterSwapped again) := by
  apply Transition.run_of_execute
  cases again <;> decide +kernel

theorem conserved_iff_swapped :
    Conserved steady (afterSwapped false) ↔
      Run (Meeting (Transition.Graph step) OnTime) (start steady 0) (swapped false)
        (afterSwapped false) :=
  conserved_iff steady 0 (swapped false) (afterSwapped false) (run_swapped false)

/-- A third poll counts the time between the first two again. -/
theorem not_conserved_again : ¬ ∀ (c : Counter) (now : ℚ) (ls : List Poll) (t : Polls),
    c.last ≤ now → Run (Transition.Graph step) (start c now) ls t → Conserved c t := by
  intro hall
  have hcons := hall steady 0 (swapped true) (afterSwapped true) (le_refl _) (run_swapped true)
  exact absurd hcons.time (by decide +kernel)

end Polls

end Netsim
end DemoEstate
