import DemoEstate.Hosts.StateFile
import DemoEstate.Netsim.Polls

/-!
# The processor times of two hosts

The database host and the payment host report the processor times of four cores.  A poll wobbles
the rates of the three busy fields, gives what they leave of the budget to the idle field, and
integrates all four with one clock value.  The rates follow a ramp that starts with the incident.

Main definitions:

- Definitions {lit}`DbPostgres.rates` and {lit}`PaymentApi.rates`: how a poll shares the budget.
- Definition {lit}`Server`: the two hosts with their toggles.
- Definition {lit}`Box.step`: toggles, and polls that look at the ramp before they integrate.

Main results:

- Theorems {lit}`DbPostgres.shares_rates` and {lit}`PaymentApi.shares_rates`: no field gets a
  negative rate, and together they get the budget.
- Theorem {lit}`polls_conserve`: between any two polls of a run the fields grow by the budget.
-/

namespace DemoEstate
namespace Hosts
namespace TickBudget

open Netsim (Counter wobble)
open Transition (Run Graph)

/-! ## The fields and their rates -/

/-- The counters of the processor times. -/
structure Ticks where
  user : Counter
  system : Counter
  iowait : Counter
  idle : Counter

/-- A rate for each field. -/
structure Rates where
  user : ℚ
  system : ℚ
  iowait : ℚ
  idle : ℚ

/-- The wobbles of the busy fields at one poll. -/
structure Wobbles where
  user : ℚ
  system : ℚ
  iowait : ℚ

/-- The jiffies that four cores have in a second. -/
def budget : ℚ := 4 * 100

/-- `_lerp`. -/
def lerp (healthy broken r : ℚ) : ℚ :=
  healthy + (broken - healthy) * r

/-- Integrate all fields with one clock value. -/
def Ticks.add (t : Ticks) (rates : Rates) (now : ℚ) : Ticks where
  user := t.user.add rates.user now
  system := t.system.add rates.system now
  iowait := t.iowait.add rates.iowait now
  idle := t.idle.add rates.idle now

/-- No field gets a negative rate, and together they get the budget. -/
structure Rates.Shares (rates : Rates) : Prop where
  user_nonneg : 0 ≤ rates.user
  system_nonneg : 0 ≤ rates.system
  iowait_nonneg : 0 ≤ rates.iowait
  idle_nonneg : 0 ≤ rates.idle
  sum_eq : rates.user + rates.system + rates.iowait + rates.idle = budget

/-- `broken_seconds`, at a moment of the incident. -/
def brokenSeconds (brokenSince : Option ℚ) (now : ℚ) : ℚ :=
  match brokenSince with
  | none => 0
  | some since => now - since

theorem lerp_eq (healthy broken r : ℚ) : lerp healthy broken r = healthy * (1 - r) + broken * r := by
  unfold lerp
  ring

theorem lerp_nonneg {healthy broken r : ℚ} (hr : 0 ≤ r ∧ r ≤ 1) (hhealthy : 0 ≤ healthy)
    (hbroken : 0 ≤ broken) : 0 ≤ lerp healthy broken r := by
  rw [lerp_eq]
  exact add_nonneg (mul_nonneg hhealthy (sub_nonneg.mpr hr.2)) (mul_nonneg hbroken hr.1)

theorem lerp_le {healthy broken high r : ℚ} (hr : 0 ≤ r ∧ r ≤ 1) (hhealthy : healthy ≤ high)
    (hbroken : broken ≤ high) : lerp healthy broken r ≤ high := by
  have hsplit : high = high * (1 - r) + high * r := by ring
  rw [lerp_eq, hsplit]
  exact add_le_add (mul_le_mul_of_nonneg_right hhealthy (sub_nonneg.mpr hr.2))
    (mul_le_mul_of_nonneg_right hbroken hr.1)

/-! ## The database host -/

namespace DbPostgres

/-- `break_ramp`, at a moment of the incident; `rampMin` is `BREAK_RAMP_MIN`. -/
def breakRamp (rampMin frac : ℚ) (brokenSince : Option ℚ) (now : ℚ) : ℚ :=
  let bs := brokenSeconds brokenSince now
  if bs ≤ 0 then 0
  else if rampMin ≤ 0 then 1
  else min 1 (bs / (rampMin * 60 * frac))

/-- The wobbled rates of the busy fields, before they are made to fit. -/
def busyRates (t : Ticks) (r : ℚ) (w : Wobbles) : Rates where
  user := t.user.inst (lerp 60 25 r) none w.user
  system := t.system.inst (lerp 25 18 r) none w.system
  iowait := t.iowait.inst (lerp 12 315 r) none w.iowait
  idle := 0

/-- What a poll integrates: the busy rates, scaled down where they leave less than the idle
floor, and the rest of the budget. -/
def rates (t : Ticks) (r : ℚ) (w : Wobbles) : Rates :=
  let inst := busyRates t r w
  let busyCap := budget - 4
  let busy := inst.user + inst.system + inst.iowait
  if busyCap < busy then
    let scale := busyCap / busy
    { user := inst.user * scale
      system := inst.system * scale
      iowait := inst.iowait * scale
      idle := budget - busyCap }
  else { inst with idle := budget - busy }

theorem breakRamp_mem {frac : ℚ} (hfrac : 0 ≤ frac) (rampMin : ℚ) (brokenSince : Option ℚ) (now : ℚ) :
    0 ≤ breakRamp rampMin frac brokenSince now ∧ breakRamp rampMin frac brokenSince now ≤ 1 := by
  unfold breakRamp
  dsimp only
  split
  · exact ⟨le_refl 0, zero_le_one⟩
  · rename_i hbroken
    split
    · exact ⟨zero_le_one, le_refl 1⟩
    · rename_i hramp
      have hbs := (not_le.mp hbroken).le
      have hmin := (not_le.mp hramp).le
      exact ⟨le_min zero_le_one (by positivity), min_le_left _ _⟩

theorem shares_rates (t : Ticks) {r : ℚ} (hr : 0 ≤ r ∧ r ≤ 1) (w : Wobbles) :
    (rates t r w).Shares := by
  have hnone : ∀ m ∈ (none : Option ℚ), 0 ≤ m := fun _ h => nomatch h
  have huser : 0 ≤ (busyRates t r w).user :=
    t.user.inst_nonneg (lerp_nonneg hr (by norm_num) (by norm_num)) hnone w.user
  have hsystem : 0 ≤ (busyRates t r w).system :=
    t.system.inst_nonneg (lerp_nonneg hr (by norm_num) (by norm_num)) hnone w.system
  have hiowait : 0 ≤ (busyRates t r w).iowait :=
    t.iowait.inst_nonneg (lerp_nonneg hr (by norm_num) (by norm_num)) hnone w.iowait
  unfold rates
  dsimp only
  generalize busyRates t r w = inst at huser hsystem hiowait ⊢
  split
  · rename_i hover
    have hcap : (0 : ℚ) ≤ budget - 4 := by norm_num [budget]
    have hbusy : 0 < inst.user + inst.system + inst.iowait := hcap.trans_lt hover
    have hscale : 0 ≤ (budget - 4) / (inst.user + inst.system + inst.iowait) :=
      div_nonneg hcap hbusy.le
    constructor
    · exact mul_nonneg huser hscale
    · exact mul_nonneg hsystem hscale
    · exact mul_nonneg hiowait hscale
    · norm_num
    · rw [← add_mul, ← add_mul, mul_div_cancel₀ _ hbusy.ne']
      ring
  · rename_i hfits
    constructor
    · exact huser
    · exact hsystem
    · exact hiowait
    · dsimp only
      linarith only [not_lt.mp hfits]
    · dsimp only
      ring

end DbPostgres

/-! ## The payment host -/

namespace PaymentApi

/-- The incident state. -/
structure Outage where
  broken : Bool
  brokenSince : Option ℚ
  stateSince : ℚ

/-- The critical section of `set_broken`. -/
def Outage.set (o : Outage) (value : Bool) (now : ℚ) : Outage where
  broken := value
  brokenSince :=
    if value then
      if o.brokenSince = none then some now else o.brokenSince
    else none
  stateSince := if value ≠ o.broken then now else o.stateSince

/-- `ramp`, at a moment of the incident. -/
def ramp (seconds : ℚ) (brokenSince : Option ℚ) (now : ℚ) : ℚ :=
  let bs := brokenSeconds brokenSince now
  if bs ≤ 0 then 0 else min 1 (bs / seconds)

/-- The factor by which a counter wobbles. -/
def factor (c : Counter) (raw : ℚ) : ℚ :=
  1 + c.amp * wobble raw

/-- What a poll integrates: the wobbled busy rates, and the rest of the budget. -/
def rates (t : Ticks) (r : ℚ) (w : Wobbles) : Rates :=
  let user := max 0 (lerp 35 24 r * factor t.user w.user)
  let system := max 0 (lerp 12 10 r * factor t.system w.system)
  let iowait := max 0 (4 * factor t.iowait w.iowait)
  { user := user
    system := system
    iowait := iowait
    idle := budget - (user + system + iowait) }

/-- `Counter.sample_exact`. -/
def sampleExact (c : Counter) (rate now : ℚ) : Counter :=
  c.add (max 0 rate) now

/-- Integrate all fields with one clock value. -/
def sampleAll (t : Ticks) (rates : Rates) (now : ℚ) : Ticks where
  user := sampleExact t.user rates.user now
  system := sampleExact t.system rates.system now
  iowait := sampleExact t.iowait rates.iowait now
  idle := sampleExact t.idle rates.idle now

theorem ramp_mem {seconds : ℚ} (hseconds : 0 ≤ seconds) (brokenSince : Option ℚ) (now : ℚ) :
    0 ≤ ramp seconds brokenSince now ∧ ramp seconds brokenSince now ≤ 1 := by
  unfold ramp
  dsimp only
  split
  · exact ⟨le_refl 0, zero_le_one⟩
  · rename_i hbroken
    have hbs := (not_le.mp hbroken).le
    exact ⟨le_min zero_le_one (by positivity), min_le_left _ _⟩

/-- A wobble at most doubles a rate. -/
theorem busy_le {rate high : ℚ} (hrate : 0 ≤ rate ∧ rate ≤ high) (c : Counter) (raw : ℚ) :
    max 0 (rate * factor c raw) ≤ high * 2 := by
  have hamp : c.amp * wobble raw ≤ c.amp * 1 :=
    mul_le_mul_of_nonneg_left (Netsim.wobble_le_one raw) c.amp_nonneg
  have hfactor : factor c raw ≤ 2 := by
    unfold factor
    linarith only [hamp, c.amp_le_one]
  have hhigh : 0 ≤ high := hrate.1.trans hrate.2
  apply max_le
  · linarith only [hhigh]
  · exact (mul_le_mul_of_nonneg_left hfactor hrate.1).trans
      (mul_le_mul_of_nonneg_right hrate.2 zero_le_two)

theorem shares_rates (t : Ticks) {r : ℚ} (hr : 0 ≤ r ∧ r ≤ 1) (w : Wobbles) :
    (rates t r w).Shares := by
  have huser : max 0 (lerp 35 24 r * factor t.user w.user) ≤ 35 * 2 :=
    busy_le ⟨lerp_nonneg hr (by norm_num) (by norm_num), lerp_le hr (by norm_num) (by norm_num)⟩ _ _
  have hsystem : max 0 (lerp 12 10 r * factor t.system w.system) ≤ 12 * 2 :=
    busy_le ⟨lerp_nonneg hr (by norm_num) (by norm_num), lerp_le hr (by norm_num) (by norm_num)⟩ _ _
  have hiowait : max 0 (4 * factor t.iowait w.iowait) ≤ 4 * 2 :=
    busy_le ⟨by norm_num, le_refl _⟩ _ _
  constructor
  · exact le_max_left _ _
  · exact le_max_left _ _
  · exact le_max_left _ _
  · simp only [rates, budget]
    linarith only [huser, hsystem, hiowait]
  · simp only [rates]
    ring

/-- Rates that share the budget are integrated as they are. -/
theorem sampleAll_eq (t : Ticks) {rates : Rates} (h : rates.Shares) (now : ℚ) :
    sampleAll t rates now = t.add rates now := by
  unfold sampleAll sampleExact Ticks.add
  rw [max_eq_right h.user_nonneg, max_eq_right h.system_nonneg, max_eq_right h.iowait_nonneg,
    max_eq_right h.idle_nonneg]

end PaymentApi

/-! ## Runs of the hosts -/

/-- The hosts; the ramp of the database host has a length of its own. -/
inductive Server where
  | dbPostgres (breakRampMin : ℚ)
  | paymentApi

namespace Server

/-- The incident state of a host. -/
def State : Server → Type
  | .dbPostgres _ => Incident
  | .paymentApi => PaymentApi.Outage

/-- What its toggles set. -/
def Value : Server → Type
  | .dbPostgres _ => Hosts.State
  | .paymentApi => Bool

/-- A toggle. -/
def set : (server : Server) → server.State → server.Value → ℚ → server.State
  | .dbPostgres _ => Incident.set
  | .paymentApi => PaymentApi.Outage.set

/-- The ramp that a poll looks at for the processor times. -/
def ramp : (server : Server) → server.State → ℚ → ℚ
  | .dbPostgres rampMin, incident, now =>
      DbPostgres.breakRamp rampMin (6 / 10) incident.brokenSince now
  | .paymentApi, outage, now => PaymentApi.ramp 180 outage.brokenSince now

/-- The block of a poll that samples the processor times. -/
def integrate : Server → Ticks → ℚ → Wobbles → ℚ → Ticks
  | .dbPostgres _, t, r, w, now => t.add (DbPostgres.rates t r w) now
  | .paymentApi, t, r, w, now => PaymentApi.sampleAll t (PaymentApi.rates t r w) now

theorem ramp_mem (server : Server) (state : server.State) (now : ℚ) :
    0 ≤ server.ramp state now ∧ server.ramp state now ≤ 1 := by
  cases server with
  | dbPostgres rampMin => exact DbPostgres.breakRamp_mem (by norm_num) _ _ _
  | paymentApi => exact PaymentApi.ramp_mem (by norm_num) _ _

/-- A poll integrates rates that share the budget. -/
theorem integrate_eq (server : Server) (t : Ticks) {r : ℚ} (hr : 0 ≤ r ∧ r ≤ 1) (w : Wobbles)
    (now : ℚ) : ∃ rates : Rates, rates.Shares ∧ server.integrate t r w now = t.add rates now := by
  cases server with
  | dbPostgres rampMin => exact ⟨_, DbPostgres.shares_rates t hr w, rfl⟩
  | paymentApi =>
      have hshares := PaymentApi.shares_rates t hr w
      exact ⟨_, hshares, PaymentApi.sampleAll_eq t hshares now⟩

end Server

/-- The incident state of a host, the ramp that the poll under way has looked at, the counters,
and what the polls left in them with the times of the polls, newest first. -/
structure Box (server : Server) where
  state : server.State
  looked : Option ℚ
  ticks : Ticks
  polls : List (ℚ × Ticks)

/-- A toggle at any time, the look of a poll at the ramp, and its integration. -/
inductive Label (server : Server) where
  | toggle (value : server.Value) (now : ℚ)
  | look (now : ℚ)
  | integrate (wobbles : Wobbles) (now : ℚ)

namespace Box

variable {server : Server}

/-- Polls do not overlap, and each has a later time than the one before it. -/
def step (b : Box server) : Label server → Option (Box server)
  | .toggle value now => some { b with state := server.set b.state value now }
  | .look now =>
      match b.looked with
      | some _ => none
      | none => some { b with looked := some (server.ramp b.state now) }
  | .integrate w now =>
      match b.looked with
      | none => none
      | some r =>
          if ∀ poll ∈ b.polls.head?, poll.1 < now then
            let ticks := server.integrate b.ticks r w now
            some { b with looked := none, ticks := ticks, polls := (now, ticks) :: b.polls }
          else none

/-- A host that has not been polled since its start. -/
def boot (state : server.State) (ticks : Ticks) : Box server where
  state := state
  looked := none
  ticks := ticks
  polls := []

end Box

/-- From the older poll to the newer one no field shrinks, and together they grow by the budget. -/
structure Conserved (new old : ℚ × Ticks) : Prop where
  user_le : old.2.user.acc ≤ new.2.user.acc
  system_le : old.2.system.acc ≤ new.2.system.acc
  iowait_le : old.2.iowait.acc ≤ new.2.iowait.acc
  idle_le : old.2.idle.acc ≤ new.2.idle.acc
  sum_eq : (new.2.user.acc - old.2.user.acc) + (new.2.system.acc - old.2.system.acc) +
    (new.2.iowait.acc - old.2.iowait.acc) + (new.2.idle.acc - old.2.idle.acc) =
      budget * (new.1 - old.1)

/-- All fields were last integrated at the time. -/
structure Synced (now : ℚ) (t : Ticks) : Prop where
  user : t.user.last = now
  system : t.system.last = now
  iowait : t.iowait.last = now
  idle : t.idle.last = now

theorem Conserved.trans {p q r : ℚ × Ticks} (h : Conserved p q) (h' : Conserved q r) :
    Conserved p r where
  user_le := h'.user_le.trans h.user_le
  system_le := h'.system_le.trans h.system_le
  iowait_le := h'.iowait_le.trans h.iowait_le
  idle_le := h'.idle_le.trans h.idle_le
  sum_eq := by linarith only [h.sum_eq, h'.sum_eq]

theorem synced_add (t : Ticks) (rates : Rates) (now : ℚ) : Synced now (t.add rates now) :=
  ⟨rfl, rfl, rfl, rfl⟩

/-- One poll after another grows the fields by the budget. -/
theorem conserved_add {t : Ticks} {rates : Rates} {before now : ℚ} (hshares : rates.Shares)
    (hsynced : Synced before t) (hnow : before < now) :
    Conserved (now, t.add rates now) (before, t) := by
  have htime : max 0 (now - before) = now - before := max_eq_right (sub_nonneg.mpr hnow.le)
  have hgrow : ∀ {rate : ℚ} (acc : ℚ), 0 ≤ rate → acc ≤ acc + rate * (now - before) := by
    intro rate acc hrate
    have hpos := mul_nonneg hrate (sub_nonneg.mpr hnow.le)
    linarith only [hpos]
  obtain ⟨huser, hsystem, hiowait, hidle⟩ := hsynced
  unfold Ticks.add Counter.add
  rw [huser, hsystem, hiowait, hidle, htime]
  constructor
  · exact hgrow _ hshares.user_nonneg
  · exact hgrow _ hshares.system_nonneg
  · exact hgrow _ hshares.iowait_nonneg
  · exact hgrow _ hshares.idle_nonneg
  · rw [← hshares.sum_eq]
    ring

/-! ## Conservation -/

section Runs

variable {server : Server} {b b' : Box server} {l : Label server} {ls : List (Label server)}

/-- The ramp that was looked at is one, the counters are those of the last poll, and any two
polls conserve the budget. -/
structure Inv (b : Box server) : Prop where
  looked : ∀ r ∈ b.looked, 0 ≤ r ∧ r ≤ 1
  last : ∀ poll ∈ b.polls.head?, poll.2 = b.ticks ∧ Synced poll.1 b.ticks
  conserved : b.polls.Pairwise Conserved

theorem Inv.step (h : Inv b) (hstep : b.step l = some b') : Inv b' := by
  cases l with
  | toggle value now =>
      simp only [Box.step, Option.some.injEq] at hstep
      subst hstep
      exact ⟨h.looked, h.last, h.conserved⟩
  | look now =>
      cases hlooked : b.looked with
      | some r => simp [Box.step, hlooked] at hstep
      | none =>
          simp only [Box.step, hlooked, Option.some.injEq] at hstep
          subst hstep
          refine ⟨?_, h.last, h.conserved⟩
          rintro r ⟨⟩
          exact server.ramp_mem b.state now
  | integrate w now =>
      cases hlooked : b.looked with
      | none => simp [Box.step, hlooked] at hstep
      | some r =>
          simp only [Box.step, hlooked, Option.ite_none_right_eq_some, Option.some.injEq] at hstep
          obtain ⟨htime, rfl⟩ := hstep
          obtain ⟨rates, hshares, heq⟩ := server.integrate_eq b.ticks (h.looked r hlooked) w now
          rw [heq]
          constructor
          · exact fun r hr => nomatch hr
          · rintro poll ⟨⟩
            exact ⟨rfl, synced_add _ _ _⟩
          · refine List.pairwise_cons.mpr ⟨?_, h.conserved⟩
            cases hpolls : b.polls with
            | nil => exact fun _ hmem => absurd hmem List.not_mem_nil
            | cons last earlier =>
                have hhead : last ∈ b.polls.head? := by simp [hpolls]
                obtain ⟨hticks, hsynced⟩ := h.last last hhead
                have hfirst : Conserved (now, b.ticks.add rates now) last := by
                  have hadd := conserved_add hshares hsynced (htime last hhead)
                  rwa [← hticks] at hadd ⊢
                have hrest := (List.pairwise_cons.mp (hpolls ▸ h.conserved)).1
                intro poll hmem
                rcases List.mem_cons.mp hmem with rfl | hmem
                · exact hfirst
                · exact hfirst.trans (hrest poll hmem)

/-- In every run of both hosts, from the first poll on, the fields grow from any poll to any
later one by the budget for the time between them, and none of them shrinks. -/
theorem polls_conserve {state : server.State} {ticks : Ticks}
    (h : Run (Graph Box.step) (Box.boot state ticks) ls b) : b.polls.Pairwise Conserved := by
  have hboot : Inv (Box.boot state ticks) := by
    constructor
    · exact fun r hr => nomatch hr
    · exact fun poll hpoll => nomatch hpoll
    · exact List.Pairwise.nil
  exact (h.invariant (fun _ _ _ hinv hstep => hinv.step hstep) hboot).conserved

end Runs

/-! ## Two polls around an outage -/

/-- The counters of a host that has just started, with the usual amplitude. -/
def freshTicks : Ticks :=
  let counter : Counter := ⟨0, 0, 3 / 10, Netsim.three_tenths_nonneg, Netsim.three_tenths_le_one⟩
  ⟨counter, counter, counter, counter⟩

/-- A healthy database host. -/
def diskHost : Box (.dbPostgres 4) :=
  Box.boot ⟨.healthy, none, none, 0⟩ freshTicks

/-- The disk fails between two polls, and the wobbles are at their ends. -/
def diskFails : List (Label (.dbPostgres 4)) :=
  [.look 1, .integrate ⟨1, -1, 0⟩ 1, .toggle State.broken 2, .look 600, .integrate ⟨1, 1, 1⟩ 601]

theorem polls_conserve_diskFails : ∃ b, Run (Graph Box.step) diskHost diskFails b ∧
    b.polls.length = 2 ∧ b.polls.Pairwise Conserved := by
  have hsome : (Transition.execute Box.step diskHost diskFails).map (fun b => b.polls.length) =
      some 2 := by
    decide +kernel
  obtain ⟨b, hexecute, hlength⟩ := Option.map_eq_some_iff.mp hsome
  have hrun := Transition.run_of_execute hexecute
  exact ⟨b, hrun, hlength, polls_conserve hrun⟩

end TickBudget
end Hosts
end DemoEstate
