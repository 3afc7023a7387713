import Mathlib.Algebra.Order.Field.Basic
import Mathlib.Order.Monotone.Basic
import Mathlib.Tactic.FieldSimp
import Mathlib.Tactic.Linarith
import Mathlib.Tactic.Positivity
import Mathlib.Tactic.Ring

/-!
# Ramps

A ramp keeps a level, rises to a higher one at a constant slope, and stays there.  A curve is
straight over an interval if it has one average slope there, whichever two points are compared;
the slope of a ramp to the right of a point is then that slope.

Main definitions:

- Structure {lit}`Ramp`: a rise between two levels.
- Definitions {lit}`Ramp.value` and {lit}`Ramp.slope`: its level and its slope at a time.
- Definition {lit}`Straight`: no bend within an interval.

Main results:

- Theorems {lit}`Ramp.value_mono` and {lit}`Ramp.value_sub_le`: a ramp neither falls nor rises
  faster than its slope.
- Theorem {lit}`Ramp.slope_of_straight`: over a straight interval the slope is the average one.
- Theorem {lit}`Ramp.value_le_value`: a ramp that starts no lower and rises no slower stays ahead.
- Theorem {lit}`Ramp.value_lt_value`: a slower one falls behind until the other has risen.
-/

variable {K : Type*} [Field K] [LinearOrder K]

/-- Over an open interval, a curve has one average slope between any two times. -/
def Straight (f : K → K) (a b slope : K) : Prop :=
  ∀ x y, a < x → x < y → y < b → f y - f x = slope * (y - x)

/-- Two curves that agree within an interval are straight there together. -/
theorem Straight.congr {f g : K → K} {a b slope : K} (h : Straight f a b slope)
    (hfg : ∀ x, a < x → x < b → f x = g x) : Straight g a b slope := by
  intro x y hax hxy hyb
  rw [← hfg x hax (hxy.trans hyb), ← hfg y (hax.trans hxy) hyb]
  exact h x y hax hxy hyb

/-- A rise from a level to a higher one, from a time on and for some time. -/
structure Ramp (K : Type*) [Field K] [LinearOrder K] where
  low : K
  high : K
  start : K
  length : K
  low_le_high : low ≤ high
  length_pos : 0 < length

namespace Ramp

/-- The level at a time. -/
def value (r : Ramp K) (t : K) : K :=
  r.low + (r.high - r.low) * max 0 (min 1 ((t - r.start) / r.length))

/-- The slope of the rise. -/
def steepness (r : Ramp K) : K :=
  (r.high - r.low) / r.length

/-- The slope to the right of a time. -/
def slope (r : Ramp K) (t : K) : K :=
  if r.start ≤ t ∧ t < r.start + r.length then r.steepness else 0

theorem steepness_mul_length (r : Ramp K) : r.steepness * r.length = r.high - r.low :=
  div_mul_cancel₀ _ r.length_pos.ne'

theorem slope_eq_or (r : Ramp K) (x : K) : r.slope x = r.steepness ∨ r.slope x = 0 := by
  unfold slope
  split
  · exact Or.inl rfl
  · exact Or.inr rfl

variable [IsStrictOrderedRing K] {r q : Ramp K} {s t x y : K}

theorem steepness_nonneg (r : Ramp K) : 0 ≤ r.steepness :=
  div_nonneg (sub_nonneg.mpr r.low_le_high) r.length_pos.le

/-! ## The three parts of a ramp -/

theorem value_of_le (h : t ≤ r.start) : r.value t = r.low := by
  have hfraction : (t - r.start) / r.length ≤ 0 :=
    div_nonpos_of_nonpos_of_nonneg (sub_nonpos.mpr h) r.length_pos.le
  rw [value, max_eq_left ((min_le_right _ _).trans hfraction), mul_zero, add_zero]

theorem value_of_ge (h : r.start + r.length ≤ t) : r.value t = r.high := by
  have hfraction : 1 ≤ (t - r.start) / r.length := by
    rw [le_div_iff₀ r.length_pos]
    linarith
  rw [value, min_eq_left hfraction, max_eq_right zero_le_one, mul_one, add_sub_cancel]

theorem value_of_between (hstart : r.start ≤ t) (hend : t ≤ r.start + r.length) :
    r.value t = r.low + r.steepness * (t - r.start) := by
  have hnonneg : 0 ≤ (t - r.start) / r.length :=
    div_nonneg (sub_nonneg.mpr hstart) r.length_pos.le
  have hle : (t - r.start) / r.length ≤ 1 := by
    rw [div_le_one r.length_pos]
    linarith
  rw [value, min_eq_right hle, max_eq_right hnonneg, steepness]
  ring

theorem value_start (r : Ramp K) : r.value r.start = r.low :=
  value_of_le le_rfl

theorem low_le_value (r : Ramp K) (t : K) : r.low ≤ r.value t :=
  le_add_of_nonneg_right (mul_nonneg (sub_nonneg.mpr r.low_le_high) (le_max_left _ _))

theorem value_le_high (r : Ramp K) (t : K) : r.value t ≤ r.high := by
  have hfraction : max 0 (min 1 ((t - r.start) / r.length)) ≤ 1 :=
    max_le zero_le_one (min_le_left _ _)
  have hrise := mul_le_of_le_one_right (sub_nonneg.mpr r.low_le_high) hfraction
  rw [value]
  linarith

/-! ## How fast a ramp rises -/

/-- A ramp does not fall. -/
theorem value_mono (r : Ramp K) : Monotone r.value := by
  intro s t hst
  have hfraction : (s - r.start) / r.length ≤ (t - r.start) / r.length :=
    div_le_div_of_nonneg_right (sub_le_sub_right hst _) r.length_pos.le
  have hclamped := max_le_max_left 0 (min_le_min_left 1 hfraction)
  exact add_le_add_right (mul_le_mul_of_nonneg_left hclamped (sub_nonneg.mpr r.low_le_high)) _

/-- A ramp rises no faster than its slope. -/
theorem value_sub_le (r : Ramp K) (hst : s ≤ t) :
    r.value t - r.value s ≤ r.steepness * (t - s) := by
  have hsteep := r.steepness_nonneg
  by_cases hstart : t ≤ r.start
  · rw [value_of_le hstart, value_of_le (hst.trans hstart), sub_self]
    exact mul_nonneg hsteep (sub_nonneg.mpr hst)
  · by_cases hend : r.start + r.length ≤ s
    · rw [value_of_ge hend, value_of_ge (hend.trans hst), sub_self]
      exact mul_nonneg hsteep (sub_nonneg.mpr hst)
    · push Not at hstart hend
      -- what lies outside of the rise adds time, but no height
      have htop : r.value t ≤ r.low + r.steepness * (t - r.start) := by
        by_cases hin : t ≤ r.start + r.length
        · rw [value_of_between hstart.le hin]
        · have hover := mul_le_mul_of_nonneg_left
            (sub_le_sub_right (not_le.mp hin).le r.start) hsteep
          rw [add_sub_cancel_left, steepness_mul_length] at hover
          linarith [r.value_le_high t]
      have hbottom : r.low + r.steepness * (s - r.start) ≤ r.value s := by
        by_cases hin : r.start ≤ s
        · rw [value_of_between hin hend.le]
        · have hunder := mul_nonpos_of_nonneg_of_nonpos hsteep
            (sub_nonpos.mpr (not_le.mp hin).le)
          linarith [r.low_le_value s]
      linarith

/-- To the right of every time a ramp follows its slope for a while. -/
theorem exists_rise (r : Ramp K) (x : K) :
    ∃ e, x < e ∧ ∀ y, x ≤ y → y ≤ e → r.value y - r.value x = r.slope x * (y - x) := by
  by_cases hbefore : x < r.start
  · refine ⟨r.start, hbefore, fun y hxy hy => ?_⟩
    rw [value_of_le hy, value_of_le hbefore.le, slope, if_neg (fun h => absurd h.1 hbefore.not_ge)]
    ring
  · push Not at hbefore
    by_cases hafter : r.start + r.length ≤ x
    · refine ⟨x + 1, lt_add_one x, fun y hxy hy => ?_⟩
      rw [value_of_ge hafter, value_of_ge (hafter.trans hxy), slope,
        if_neg (fun h => absurd h.2 hafter.not_gt)]
      ring
    · push Not at hafter
      refine ⟨r.start + r.length, hafter, fun y hxy hy => ?_⟩
      rw [value_of_between hbefore hafter.le, value_of_between (hbefore.trans hxy) hy, slope,
        if_pos ⟨hbefore, hafter⟩]
      ring

/-- A ramp is straight while it rises. -/
theorem straight_value {a b : K} (hstart : r.start ≤ a) (hend : b ≤ r.start + r.length) :
    Straight r.value a b r.steepness := by
  intro x y hax hxy hyb
  have hx := value_of_between (hstart.trans hax.le) ((hxy.trans hyb).le.trans hend)
  have hy := value_of_between (hstart.trans (hax.trans hxy).le) (hyb.le.trans hend)
  rw [hx, hy]
  ring

/-- Over a straight interval the slope of a ramp is its average slope. -/
theorem slope_of_straight {a b m : K} (h : Straight r.value a b m) (hax : a < x) (hxb : x < b) :
    r.slope x = m := by
  obtain ⟨e, he, hrise⟩ := r.exists_rise x
  obtain ⟨y, hxy, hy⟩ := exists_between (lt_min he hxb)
  have hslope := hrise y hxy.le (hy.le.trans (min_le_left _ _))
  rw [h x y hax hxy (hy.trans_le (min_le_right _ _))] at hslope
  exact (mul_right_cancel₀ (sub_pos.mpr hxy).ne' hslope).symm

/-- Before it has risen, a ramp has its full slope. -/
theorem slope_of_value_lt (hstart : r.start ≤ x) (hx : r.value x < r.high) :
    r.slope x = r.steepness := by
  have hend : x < r.start + r.length := by
    by_contra hafter
    exact hx.ne (value_of_ge (not_lt.mp hafter))
  rw [slope, if_pos ⟨hstart, hend⟩]

/-- A ramp below a level stays below it for a while. -/
theorem exists_below {c : K} (h : r.value x < c) : ∃ e, x < e ∧ ∀ y, y < e → r.value y < c := by
  have hpos : 0 < r.steepness + 1 := by linarith [r.steepness_nonneg]
  refine ⟨x + (c - r.value x) / (r.steepness + 1), ?_, fun y hy => ?_⟩
  · exact lt_add_of_pos_right x (div_pos (sub_pos.mpr h) hpos)
  · rcases le_total y x with hyx | hxy
    · exact (r.value_mono hyx).trans_lt h
    · have hrise := r.value_sub_le hxy
      have hspace : (y - x) * (r.steepness + 1) < c - r.value x := by
        rw [← lt_div_iff₀ hpos]
        linarith
      linarith

/-! ## Two ramps -/

/-- A ramp that starts no lower than another stands, rises no slower and reaches no less stays
ahead of it. -/
theorem value_le_value (hlow : q.value r.start ≤ r.low) (hhigh : q.high ≤ r.high)
    (hsteep : q.steepness ≤ r.steepness) (ht : r.start ≤ t) : q.value t ≤ r.value t := by
  by_cases hend : r.start + r.length ≤ t
  · rw [value_of_ge hend]
    exact (q.value_le_high t).trans hhigh
  · push Not at hend
    have hrise := q.value_sub_le ht
    have hslower := mul_le_mul_of_nonneg_right hsteep (sub_nonneg.mpr ht)
    rw [value_of_between ht hend.le]
    linarith

/-- A ramp that starts where another one stands and rises more slowly falls behind, until it
reaches the upper level of the other one. -/
theorem value_lt_value (hstart : q.start ≤ r.start) (hlow : r.low = q.value r.start)
    (hsteep : r.steepness < q.steepness) (ht : r.start < t) (hbelow : r.value t < q.high) :
    r.value t < q.value t := by
  by_cases hend : q.start + q.length ≤ t
  · rw [value_of_ge hend]
    exact hbelow
  · push Not at hend
    have hthen := value_of_between hstart (ht.le.trans hend.le)
    have hnow := value_of_between (hstart.trans ht.le) hend.le
    have hrise := r.value_sub_le ht.le
    have hslower := mul_lt_mul_of_pos_right hsteep (sub_pos.mpr ht)
    rw [value_start, hlow] at hrise
    linarith

end Ramp
