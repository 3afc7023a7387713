import Mathlib.Algebra.Order.Floor.Ring
import Mathlib.Data.Rat.Floor
import Mathlib.Tactic.Linarith
import Mathlib.Tactic.Positivity
import DemoEstate.Library.Dict
import DemoEstate.Library.Round
import DemoEstate.Library.Text

/-!
# Counters and incident states of the network simulator

A counter integrates a wobbled rate over the time between two samples.  Floating
point numbers are rationals here; the wobble's harmonics and noise are a raw
value that the sampled counter only sees clamped.

Main results:

- Theorem {lit}`Counter.acc_le_sample`: a sample at a non-negative rate and cap
  never lowers the accumulator.
- Theorem {lit}`int_mono`: the integer read off an accumulator is monotone in it.
-/

namespace DemoEstate
namespace Netsim

/-! ## Numbers -/

/-- Truncate toward zero. -/
def int (q : ℚ) : ℤ :=
  if 0 ≤ q then ⌊q⌋ else ⌈q⌉

theorem int_mono {p q : ℚ} (h : p ≤ q) : int p ≤ int q := by
  unfold int
  by_cases hp : 0 ≤ p
  · rw [if_pos hp, if_pos (hp.trans h)]
    exact Int.floor_le_floor h
  · rw [if_neg hp]
    split
    · rename_i hq
      have hleft : ⌈p⌉ ≤ 0 := Int.ceil_le.mpr (by exact_mod_cast (not_le.mp hp).le)
      exact hleft.trans (Int.floor_nonneg.mpr hq)
    · exact Int.ceil_le_ceil h

/-- The clamp at the end of a wobble step. -/
def wobble (raw : ℚ) : ℚ :=
  max (-1) (min 1 raw)

theorem neg_one_le_wobble (raw : ℚ) : -1 ≤ wobble raw :=
  le_max_left _ _

theorem wobble_le_one (raw : ℚ) : wobble raw ≤ 1 :=
  max_le (by norm_num) (min_le_left _ _)

/-! ## Counters -/

/-- An accumulator with its last sample time and its wobble amplitude. -/
structure Counter where
  acc : ℚ
  last : ℚ
  amp : ℚ
  amp_nonneg : 0 ≤ amp
  amp_le_one : amp ≤ 1
deriving DecidableEq

/-- The amplitude of a counter that is given none. -/
theorem three_tenths_nonneg : (0 : ℚ) ≤ 3 / 10 := by norm_num

theorem three_tenths_le_one : (3 / 10 : ℚ) ≤ 1 := by norm_num

namespace Counter

/-- The instantaneous rate: the base rate times its wobble, below the cap. -/
def inst (c : Counter) (rate : ℚ) (cap : Option ℚ) (raw : ℚ) : ℚ :=
  let inst := rate * (1 + c.amp * wobble raw)
  match cap with
  | none => inst
  | some cap => min inst cap

/-- A counter without wobble. -/
def still (acc last : ℚ) : Counter where
  acc := acc
  last := last
  amp := 0
  amp_nonneg := le_rfl
  amp_le_one := zero_le_one

/-- Integrate the rate over the time since the last sample. -/
def sample (c : Counter) (rate : ℚ) (cap : Option ℚ) (raw now : ℚ) : Counter :=
  { c with
    acc := c.acc + c.inst rate cap raw * max 0 (now - c.last)
    last := now }

/-- The value a sample returns. -/
def value (c : Counter) : ℤ :=
  int c.acc

/-- Non-negative rates and caps stay so under the wobble. -/
theorem inst_nonneg (c : Counter) {rate : ℚ} {cap : Option ℚ} (hrate : 0 ≤ rate)
    (hcap : ∀ m ∈ cap, 0 ≤ m) (raw : ℚ) : 0 ≤ c.inst rate cap raw := by
  have hfactor : 0 ≤ 1 + c.amp * wobble raw := by
    have hlow : c.amp * (-1) ≤ c.amp * wobble raw :=
      mul_le_mul_of_nonneg_left (neg_one_le_wobble raw) c.amp_nonneg
    linarith only [hlow, c.amp_le_one]
  have hinst : 0 ≤ rate * (1 + c.amp * wobble raw) := mul_nonneg hrate hfactor
  unfold inst
  cases cap with
  | none => exact hinst
  | some cap => exact le_min hinst (hcap cap rfl)

/-- A sample never lowers the accumulator. -/
theorem acc_le_sample (c : Counter) {rate : ℚ} {cap : Option ℚ} (hrate : 0 ≤ rate)
    (hcap : ∀ m ∈ cap, 0 ≤ m) (raw now : ℚ) : c.acc ≤ (c.sample rate cap raw now).acc := by
  have hgrow : 0 ≤ c.inst rate cap raw * max 0 (now - c.last) :=
    mul_nonneg (c.inst_nonneg hrate hcap raw) (le_max_left _ _)
  simp only [sample]
  linarith only [hgrow]

/-- The value returned by a sample is at least the value before it. -/
theorem value_le_sample (c : Counter) {rate : ℚ} {cap : Option ℚ} (hrate : 0 ≤ rate)
    (hcap : ∀ m ∈ cap, 0 ≤ m) (raw now : ℚ) : c.value ≤ (c.sample rate cap raw now).value :=
  int_mono (c.acc_le_sample hrate hcap raw now)

end Counter

/-- The arguments a counter is constructed with. -/
structure CounterSpec where
  name : Text
  start : ℚ
  amp : ℚ
  amp_nonneg : 0 ≤ amp
  amp_le_one : amp ≤ 1

/-- Construct a counter. -/
def CounterSpec.counter (spec : CounterSpec) (now : ℚ) : Counter where
  acc := spec.start
  last := now
  amp := spec.amp
  amp_nonneg := spec.amp_nonneg
  amp_le_one := spec.amp_le_one

/-! ## Incident states -/

/-- The incident states of a device. -/
inductive Incident where
  | healthy
  | degraded
  | broken
deriving DecidableEq, Repr

/-- A device's incident state and its timestamps. -/
structure DeviceState where
  state : Incident
  stateSince : ℚ
  degradedSince : Option ℚ
  brokenSince : Option ℚ
deriving DecidableEq

namespace DeviceState

/-- The state of a freshly constructed device. -/
def init (start : ℚ) : DeviceState where
  state := .healthy
  stateSince := start
  degradedSince := none
  brokenSince := none

/-- Enter a state, and keep the timestamps of the states it is part of. -/
def set (s : DeviceState) (value : Incident) (now : ℚ) : DeviceState where
  state := value
  stateSince := if value ≠ s.state then now else s.stateSince
  degradedSince :=
    match value with
    | .healthy => none
    | _ => if s.degradedSince = none then some now else s.degradedSince
  brokenSince :=
    match value with
    | .broken => if s.brokenSince = none then some now else s.brokenSince
    | _ => none

end DeviceState

end Netsim
end DemoEstate
