import DemoEstate.Hosts.DiskFill

/-!
# The write rate of the filling disk

The Windows host reports the slope of its disk's fill as a write rate.  The rate is computed from
the state of the host: the slope of the leak's ramp until the break, and the slope of the break's
ramp from then on.  The fill itself follows the higher one of both ramps.

Main definitions:

- Definition {lit}`cFillRateKbS`: the rate that the host reports.
- Structure {lit}`MatchesFill`: over an interval, one rate, which is the slope of the fill.
- Definition {lit}`RampLeads`: the fill follows the ramp of the break.

Main results:

- Theorem {lit}`matchesFill_iff`: the rate matches the fill exactly where the ramp of the break
  leads.
- Theorem {lit}`rampLeads_of_run`: it always does if the break's ramp is steep enough.
-/

namespace DemoEstate
namespace Hosts
namespace WinDc

open TickBudget (lerp)
open Transition (Graph Run)

/-! ## The rate -/

/-- `C_FILL_KB`. -/
def cFillKb : ℚ := 50100000

/-- `c_fill_rate_kb_s`. -/
def cFillRateKbS (cfg : Config) (g : Globals) (now : ℚ) : ℚ :=
  let ds := secondsSince g.degradedSince now
  let bs := secondsSince g.brokenSince now
  if 0 < bs then
    if cfg.breakRampMin ≤ 0 ∨ cfg.breakRampMin * 60 ≤ bs then 0
    else cFillKb * (1 - g.pressureAtBreak) / (cfg.breakRampMin * 60)
  else if 0 < ds ∧ 0 < cfg.leakFillMin ∧ ds < cfg.leakFillMin * 60 then
    cFillKb * (78 / 100) / (cfg.leakFillMin * 60)
  else 0

/-- Within an interval the rate is constant, and it is the slope of the fill between any two
times. -/
structure MatchesFill (cfg : Config) (g : Globals) (a b : ℚ) : Prop where
  constant : ∀ x y, a < x → x < b → a < y → y < b → cFillRateKbS cfg g x = cFillRateKbS cfg g y
  slope : ∀ x y, a < x → x < y → y < b →
    cFillRateKbS cfg g x = cFillKb * ((pressure cfg g y - pressure cfg g x) / (y - x))

/-- From a time on the ramp of the break is the higher one: it is no flatter than the ramp of the
leak, or it has already reached the level at which that one ends. -/
def RampLeads (cfg : Config) (g : Globals) (a : ℚ) : Prop :=
  ∀ since ∈ g.brokenSince, 78 / 100 * cfg.breakRampMin ≤ (1 - g.pressureAtBreak) * cfg.leakFillMin ∨
    78 / 100 ≤ lerp g.pressureAtBreak 1 (min 1 ((a - since) / (cfg.breakRampMin * 60)))

section Rate

variable {cfg : Config} {g : Globals} {now first a b d since t : ℚ}

theorem rate_healthy (hdegraded : g.degradedSince = none) (hbroken : g.brokenSince = none) (t : ℚ) :
    cFillRateKbS cfg g t = 0 := by
  simp [cFillRateKbS, hdegraded, hbroken, secondsSince]

theorem rate_leak (hcfg : cfg.Timed) (hdegraded : g.degradedSince = some d)
    (hbroken : g.brokenSince = none) (ht : d < t) :
    cFillRateKbS cfg g t = cFillKb * (leakRamp hcfg d).slope t := by
  have hds : 0 < t - d := sub_pos.mpr ht
  by_cases hend : t < d + cfg.leakFillMin * 60
  · have hin : t - d < cfg.leakFillMin * 60 := by linarith
    simp [cFillRateKbS, hdegraded, hbroken, secondsSince, hds, hin, hcfg.leak_pos, Ramp.slope,
      leakRamp, Ramp.steepness, ht.le, hend, mul_div_assoc]
  · have hout : ¬ t - d < cfg.leakFillMin * 60 := by linarith
    simp [cFillRateKbS, hdegraded, hbroken, secondsSince, hout, Ramp.slope, leakRamp, hend]

theorem rate_break (hcfg : cfg.Timed) (hp₀ : g.pressureAtBreak ≤ 1)
    (hbroken : g.brokenSince = some since) (ht : since < t) :
    cFillRateKbS cfg g t = cFillKb * (breakRamp hcfg hp₀ since).slope t := by
  have hbs : 0 < t - since := sub_pos.mpr ht
  have htimed := not_le.mpr hcfg.break_pos
  by_cases hend : t < since + cfg.breakRampMin * 60
  · have hin : ¬ cfg.breakRampMin * 60 ≤ t - since := by linarith
    simp [cFillRateKbS, hbroken, secondsSince, hbs, hin, htimed, Ramp.slope, breakRamp,
      Ramp.steepness, ht.le, hend, mul_div_assoc]
  · have hout : cfg.breakRampMin * 60 ≤ t - since := by linarith
    simp [cFillRateKbS, hbroken, secondsSince, hbs, hout, Ramp.slope, breakRamp, hend]

/-- Where both the fill and the rate follow one ramp, they match. -/
theorem matchesFill_of_ramp (r : Ramp ℚ) (hcurve : ∀ x, a < x → x < b → pressure cfg g x = r.value x)
    (hrate : ∀ x, a < x → x < b → cFillRateKbS cfg g x = cFillKb * r.slope x)
    (hstraight : ∃ slope, Straight (pressure cfg g) a b slope) : MatchesFill cfg g a b := by
  obtain ⟨slope, hstraight⟩ := hstraight
  have hslope : ∀ x, a < x → x < b → cFillRateKbS cfg g x = cFillKb * slope := by
    intro x hax hxb
    rw [hrate x hax hxb, Ramp.slope_of_straight (hstraight.congr hcurve) hax hxb]
  constructor
  · intro x y hax hxb hay hyb
    rw [hslope x hax hxb, hslope y hay hyb]
  · intro x y hax hxy hyb
    rw [hslope x hax (hxy.trans hyb), hstraight x y hax hxy hyb,
      mul_div_cancel_right₀ _ (sub_pos.mpr hxy).ne']

/-- Where the ramp of the break leads, the fill follows it. -/
theorem pressure_eq_break (hcfg : cfg.Timed) (hdegraded : g.degradedSince = some d)
    (hbroken : g.brokenSince = some since) (hcaptured : Captured cfg g d since)
    (hsince : since ≤ a) (hat : a < t) (h : RampLeads cfg g a) :
    pressure cfg g t = (breakRamp hcfg (hcaptured.le_one hcfg) since).value t := by
  have hp₀ := hcaptured.le_one hcfg
  have hnonneg := hcaptured.nonneg hcfg
  rw [pressure_break hcfg hdegraded hbroken hp₀ (hsince.trans_lt hat)]
  apply max_eq_right
  rcases h since hbroken with hsteep | hreached
  · have hstand : (leakRamp hcfg d).value since ≤ g.pressureAtBreak := by
      rcases hcaptured with hfound | ⟨-, hstart, -, -⟩
      · rw [hfound, degPressure_eq hcfg]
      · rw [Ramp.value_of_le (r := leakRamp hcfg d) hstart.ge]
        exact hnonneg
    have hsteepness :
        (leakRamp hcfg d).steepness ≤ (breakRamp hcfg hp₀ since).steepness := by
      rw [Ramp.steepness, Ramp.steepness, div_le_div_iff₀ (leakRamp hcfg d).length_pos
        (breakRamp hcfg hp₀ since).length_pos]
      simp only [leakRamp, breakRamp]
      linarith
    exact Ramp.value_le_value (r := breakRamp hcfg hp₀ since) hstand
      (by norm_num [leakRamp, breakRamp]) hsteepness (hsince.trans hat.le)
  · rw [lerp_eq_value hcfg hp₀ hsince] at hreached
    exact (leak_le hcfg d t).trans (hreached.trans ((breakRamp hcfg hp₀ since).value_mono hat.le))

/-- The break found the leak below its end, and its ramp is flatter than that of the leak. -/
structure Flat (cfg : Config) (g : Globals) (d since : ℚ) : Prop where
  degradedSince : g.degradedSince = some d
  brokenSince : g.brokenSince = some since
  degraded_le : d ≤ since
  found : g.pressureAtBreak = degPressure cfg (since - d)
  below : g.pressureAtBreak < 78 / 100
  flatter : (1 - g.pressureAtBreak) * cfg.leakFillMin < 78 / 100 * cfg.breakRampMin

theorem Flat.le_one (h : Flat cfg g d since) : g.pressureAtBreak ≤ 1 :=
  h.below.le.trans (by norm_num)

theorem Flat.steepness_lt (hcfg : cfg.Timed) (h : Flat cfg g d since) :
    (breakRamp hcfg h.le_one since).steepness < (leakRamp hcfg d).steepness := by
  have hflatter := h.flatter
  rw [Ramp.steepness, Ramp.steepness, div_lt_div_iff₀ (breakRamp hcfg h.le_one since).length_pos
    (leakRamp hcfg d).length_pos]
  simp only [leakRamp, breakRamp]
  linarith

/-- A flat ramp of the break stays behind until it reaches the end of the leak. -/
theorem pressure_eq_leak (hcfg : cfg.Timed) (h : Flat cfg g d since) (hsince : since < t)
    (hbelow : (breakRamp hcfg h.le_one since).value t < 78 / 100) :
    pressure cfg g t = (leakRamp hcfg d).value t := by
  have hstand : g.pressureAtBreak = (leakRamp hcfg d).value since := by
    rw [h.found, degPressure_eq hcfg]
  have hbehind := Ramp.value_lt_value (r := breakRamp hcfg h.le_one since)
    (q := leakRamp hcfg d) h.degraded_le hstand (h.steepness_lt hcfg) hsince hbelow
  rw [pressure_break hcfg h.degradedSince h.brokenSince h.le_one hsince, max_eq_left hbehind.le]

/-- While a flat ramp of the break stays behind, the fill follows the ramp of the leak, but the rate
does not. -/
theorem not_matchesFill_of_flat (hcfg : cfg.Timed) (h : Flat cfg g d since) (hsince : since ≤ a)
    (hab : a < b) (hbelow : (breakRamp hcfg h.le_one since).value a < 78 / 100) :
    ¬ MatchesFill cfg g a b := by
  intro hmatches
  -- two times at which the fill still follows the leak, on one side of the leak's end
  obtain ⟨e, hae, hunder⟩ := (breakRamp hcfg h.le_one since).exists_below hbelow
  obtain ⟨x, hax, hx⟩ := exists_between (lt_min hae hab)
  obtain ⟨e', hxe', hrise⟩ := (leakRamp hcfg d).exists_rise x
  obtain ⟨y, hxy, hy⟩ := exists_between (lt_min hx hxe')
  have hye : y < e := hy.trans_le ((min_le_left _ _).trans (min_le_left _ _))
  have hyb : y < b := hy.trans_le ((min_le_left _ _).trans (min_le_right _ _))
  have hxe : x < e := hxy.trans hye
  have hpx := pressure_eq_leak hcfg h (hsince.trans_lt hax) (hunder x hxe)
  have hpy := pressure_eq_leak hcfg h (hsince.trans_lt (hax.trans hxy)) (hunder y hye)
  have hslope := hmatches.slope x y hax hxy hyb
  rw [hpx, hpy, hrise y hxy.le (hy.le.trans (min_le_right _ _)),
    mul_div_cancel_right₀ _ (sub_pos.mpr hxy).ne',
    rate_break hcfg h.le_one h.brokenSince (hsince.trans_lt hax)] at hslope
  have hequal := mul_left_cancel₀ (by norm_num [cFillKb]) hslope
  rw [Ramp.slope_of_value_lt (r := breakRamp hcfg h.le_one since) (hsince.trans hax.le)
    ((hunder x hxe).trans (by norm_num [breakRamp]))] at hequal
  rcases (leakRamp hcfg d).slope_eq_or x with hfull | hnone
  · exact (h.steepness_lt hcfg).ne (hequal.trans hfull)
  · have hbelow₀ := h.below
    have hrises : 0 < (breakRamp hcfg h.le_one since).steepness :=
      div_pos (by simp only [breakRamp]; linarith) (breakRamp hcfg h.le_one since).length_pos
    exact hrises.ne' (hequal.trans hnone)

/-- In a phase, over an interval without a bend, the rate matches the fill exactly if the ramp of
the break leads. -/
theorem Phase.matches_iff (hcfg : cfg.Timed) (h : Phase cfg now g) (ha : now ≤ a) (hab : a < b)
    (hstraight : ∃ slope, Straight (pressure cfg g) a b slope) :
    MatchesFill cfg g a b ↔ RampLeads cfg g a := by
  cases h with
  | healthy _ hdegraded hbroken =>
      have hleads : RampLeads cfg g a := by simp [RampLeads, hbroken]
      refine iff_of_true ?_ hleads
      -- the ramp of a leak that has not begun
      refine matchesFill_of_ramp (leakRamp hcfg b) (fun x _ hxb => ?_) (fun x _ hxb => ?_) hstraight
      · rw [pressure_healthy hdegraded hbroken, Ramp.value_of_le (r := leakRamp hcfg b) hxb.le]
        rfl
      · rw [rate_healthy hdegraded hbroken, Ramp.slope, if_neg fun hin => hxb.not_ge hin.1,
          mul_zero]
  | degraded d _ hdegraded hbroken hpast =>
      have hleads : RampLeads cfg g a := by simp [RampLeads, hbroken]
      refine iff_of_true ?_ hleads
      refine matchesFill_of_ramp (leakRamp hcfg d) (fun x _ _ => ?_) (fun x hax _ => ?_) hstraight
      · exact pressure_leak hcfg hdegraded (by simp [hbroken])
      · exact rate_leak hcfg hdegraded hbroken ((hpast.trans ha).trans_lt hax)
  | broken d since _ hdegraded hbroken hds hpast hcaptured =>
      have hsince : since ≤ a := hpast.trans ha
      have hp₀ := hcaptured.le_one hcfg
      constructor
      · intro hmatches
        by_contra hbehind
        simp only [RampLeads, hbroken, Option.mem_def, Option.some.injEq, forall_eq', not_or,
          not_le, lerp_eq_value hcfg hp₀ hsince] at hbehind
        obtain ⟨hflatter, hbelow⟩ := hbehind
        have hlow : g.pressureAtBreak < 78 / 100 :=
          ((breakRamp hcfg hp₀ since).low_le_value a).trans_lt hbelow
        have hfound : g.pressureAtBreak = degPressure cfg (since - d) :=
          hcaptured.resolve_right fun hstart => hlow.ne hstart.2.2.2
        have hflat : Flat cfg g d since := ⟨hdegraded, hbroken, hds, hfound, hlow, hflatter⟩
        exact not_matchesFill_of_flat hcfg hflat hsince hab hbelow hmatches
      · intro hleads
        refine matchesFill_of_ramp (breakRamp hcfg hp₀ since) (fun x hax _ => ?_)
          (fun x hax _ => ?_) hstraight
        · exact pressure_eq_break hcfg hdegraded hbroken hcaptured hsince hax hleads
        · exact rate_break hcfg hp₀ hbroken (hsince.trans_lt hax)

end Rate

/-! ## Runs -/

section Runs

variable {cfg : Config} {first a b : ℚ} {m : Machine} {ops : List Op}

/-- In every state of a run, over every interval behind the last step without a bend, the rate
matches the fill exactly if the ramp of the break leads. -/
theorem matchesFill_iff (hcfg : cfg.Timed)
    (hrun : Run (Graph (Machine.step cfg)) (Machine.init cfg first) ops m) (ha : m.now ≤ a)
    (hab : a < b) (hstraight : ∃ slope, Straight (pressure cfg m.globals) a b slope) :
    MatchesFill cfg m.globals a b ↔ RampLeads cfg m.globals a :=
  (Machine.Inv.of_run hrun).phase.matches_iff hcfg ha hab hstraight

/-- Nine minutes of the leak, and two minutes of a break. -/
def twoMinutes : List Op :=
  [.toggle .degraded, .wait 540, .toggle .broken, .wait 120]

theorem matchesFill_iff_twoMinutes :
    ∃ m, Run (Graph (Machine.step .defaults)) (Machine.init .defaults 0) twoMinutes m ∧
      (MatchesFill .defaults m.globals 660 700 ↔ RampLeads .defaults m.globals 660) := by
  have hcfg : Config.Timed .defaults := ⟨by norm_num [Config.defaults], by norm_num [Config.defaults]⟩
  have hsome : (Transition.execute (Machine.step .defaults) (Machine.init .defaults 0)
      twoMinutes).map (fun m => (m.now, m.globals.degradedSince, m.globals.brokenSince,
        m.globals.pressureAtBreak)) = some (660, some 0, some 540, 39 / 100) := by
    decide +kernel
  obtain ⟨m, hexecute, hm⟩ := Option.map_eq_some_iff.mp hsome
  simp only [Prod.mk.injEq] at hm
  obtain ⟨hnow, hdegraded, hbroken, hfound⟩ := hm
  have hcaptured : Captured .defaults m.globals 0 540 := Or.inl (hfound.trans (by decide +kernel))
  have hleads : RampLeads .defaults m.globals 660 := by
    intro since hsince
    rw [hfound]
    left
    norm_num [Config.defaults]
  have hstraight := Ramp.straight_value (r := breakRamp hcfg (hcaptured.le_one hcfg) 540)
    (a := 660) (b := 700) (by norm_num [breakRamp]) (by norm_num [breakRamp, Config.defaults])
  have hrun := Transition.run_of_execute hexecute
  refine ⟨m, hrun, matchesFill_iff hcfg hrun hnow.le (by norm_num) ⟨_, hstraight.congr ?_⟩⟩
  intro x hx _
  exact (pressure_eq_break hcfg hdegraded hbroken hcaptured (by norm_num) hx hleads).symm

/-- A short leak and a long ramp of a break. -/
def slowBreak : Config where
  leakFillMin := 1
  breakRampMin := 10
  startState := .healthy

/-- A host that breaks straight from healthy fills faster than it reports. -/
theorem not_matchesFill_slowBreak : ¬ ∀ (cfg : Config) (first a b : ℚ) (m : Machine) (ops : List Op),
    cfg.Timed → Run (Graph (Machine.step cfg)) (Machine.init cfg first) ops m → m.now ≤ a →
      a < b → (∃ slope, Straight (pressure cfg m.globals) a b slope) →
        MatchesFill cfg m.globals a b := by
  intro h
  have hcfg : slowBreak.Timed := ⟨by norm_num [slowBreak], by norm_num [slowBreak]⟩
  have hsome : (Transition.execute (Machine.step slowBreak) (Machine.init slowBreak 0)
      [.toggle .broken]).map (fun m => (m.now, m.globals.degradedSince, m.globals.brokenSince,
        m.globals.pressureAtBreak)) = some (0, some 0, some 0, 0) := by
    decide +kernel
  obtain ⟨m, hexecute, hm⟩ := Option.map_eq_some_iff.mp hsome
  simp only [Prod.mk.injEq] at hm
  obtain ⟨hnow, hdegraded, hbroken, hfound⟩ := hm
  have hflat : Flat slowBreak m.globals 0 0 := by
    refine ⟨hdegraded, hbroken, le_rfl, hfound.trans (by decide +kernel), ?_, ?_⟩
    · rw [hfound]
      norm_num
    · rw [hfound]
      norm_num [slowBreak]
  have hbelow : ∀ t ≤ 60, (breakRamp hcfg hflat.le_one 0).value t < 78 / 100 := by
    intro t ht
    refine ((breakRamp hcfg hflat.le_one 0).value_mono ht).trans_lt ?_
    rw [Ramp.value_of_between (by norm_num [breakRamp]) (by norm_num [breakRamp, slowBreak])]
    norm_num [breakRamp, slowBreak, Ramp.steepness, hfound]
  have hstraight := Ramp.straight_value (r := leakRamp hcfg 0) (a := 0) (b := 60)
    (by norm_num [leakRamp]) (by norm_num [leakRamp, slowBreak])
  have hmatches := h slowBreak 0 0 60 m [.toggle .broken] hcfg
    (Transition.run_of_execute hexecute) hnow.le (by norm_num)
    ⟨_, hstraight.congr fun x hx hx60 => (pressure_eq_leak hcfg hflat hx (hbelow x hx60.le)).symm⟩
  exact not_matchesFill_of_flat hcfg hflat le_rfl (by norm_num) (hbelow 0 (by norm_num)) hmatches

/-- Where a full ramp of the leak is no steeper than the flattest ramp of a break, the ramp of the
break always leads. -/
theorem rampLeads_of_run (hcfg : cfg.Timed) (hsteep : 78 * cfg.breakRampMin ≤ 22 * cfg.leakFillMin)
    (hrun : Run (Graph (Machine.step cfg)) (Machine.init cfg first) ops m) (a : ℚ) :
    RampLeads cfg m.globals a := by
  intro since hsince
  cases (Machine.Inv.of_run hrun).phase with
  | healthy _ _ hbroken => simp [hbroken] at hsince
  | degraded _ _ _ hbroken _ => simp [hbroken] at hsince
  | broken d b _ _ _ _ _ hcaptured =>
      have hroom : 22 / 100 * cfg.leakFillMin ≤ (1 - m.globals.pressureAtBreak) * cfg.leakFillMin :=
        mul_le_mul_of_nonneg_right (by linarith [hcaptured.le hcfg]) hcfg.leak_pos.le
      exact Or.inl (by linarith)

end Runs

end WinDc
end Hosts
end DemoEstate
