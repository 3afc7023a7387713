import Mathlib.Algebra.Order.Ring.Rat
import Mathlib.Algebra.Order.Floor.Defs
import Mathlib.Data.NNRat.Defs
import Mathlib.Data.Rat.Floor
import Mathlib.Tactic.Linarith

/-!
# Rounding halves to even

The rounding of a scripting language, to an integer and to one decimal place, and
the numerals of the numbers it counts with.

Main definitions:

- Definition {lit}`round`: the nearest integer.
- Definition {lit}`roundTenth`: the nearest multiple of a tenth.

Main results:

- Theorems {lit}`le_round` and {lit}`round_le`: rounding crosses no integer.
- Theorem {lit}`round_mono`: rounding keeps the order.
-/

namespace DemoEstate

/-- A numeral of the non-negative rationals carries no proof, as one of the rationals does not. -/
instance (priority := 150) instOfNatNNRat (n : Nat) : OfNat ℚ≥0 n where
  ofNat := n

/-- Round to the nearest integer, halves to the even one. -/
def round (q : ℚ) : ℤ :=
  let low := ⌊q⌋
  if q - low < 1 / 2 then low
  else if q - low > 1 / 2 then low + 1
  else if low % 2 = 0 then low else low + 1

/-- Rounding stays above an integer. -/
theorem le_round {q : ℚ} {n : ℤ} (h : n ≤ q) : n ≤ round q := by
  have hlow : n ≤ ⌊q⌋ := Int.le_floor.mpr h
  unfold round
  dsimp only
  split
  · exact hlow
  · split
    · omega
    · split <;> omega

/-- Rounding stays below an integer. -/
theorem round_le {q : ℚ} {n : ℤ} (h : q ≤ n) : round q ≤ n := by
  have hlow : (⌊q⌋ : ℚ) ≤ q := Int.floor_le q
  have hle : ⌊q⌋ ≤ n := by exact_mod_cast hlow.trans h
  rcases hle.lt_or_eq with hlt | heq
  · unfold round
    dsimp only
    split
    · omega
    · split
      · omega
      · split <;> omega
  · -- at the bound itself nothing is left to round up
    have hq : q - ⌊q⌋ < 1 / 2 := by
      rw [heq]
      linarith only [h]
    rw [round, if_pos hq]
    exact hle

theorem floor_le_round (q : ℚ) : ⌊q⌋ ≤ round q :=
  le_round (Int.floor_le q)

theorem round_le_floor_add_one (q : ℚ) : round q ≤ ⌊q⌋ + 1 := by
  refine round_le ?_
  push_cast
  exact (Int.lt_floor_add_one q).le

/-- Less than a half is rounded down. -/
theorem round_le_of_lt {q : ℚ} {n : ℤ} (h : q < n + 1 / 2) : round q ≤ n := by
  rcases lt_trichotomy ⌊q⌋ n with hlt | heq | hgt
  · have hnext := round_le_floor_add_one q
    omega
  · have hlow : q - ⌊q⌋ < 1 / 2 := by
      rw [heq]
      linarith
    rw [round, if_pos hlow]
    exact heq.le
  · have hfloor : ((n + 1 : ℤ) : ℚ) ≤ q := Int.le_floor.mp hgt
    push_cast at hfloor
    linarith

theorem round_mono {p q : ℚ} (h : p ≤ q) : round p ≤ round q := by
  rcases (Int.floor_le_floor h).lt_or_eq with hlt | heq
  · have hleft := round_le_floor_add_one p
    have hright := floor_le_round q
    omega
  · -- between two integers it depends on the part past the lower one
    have hpart : p - ⌊p⌋ ≤ q - ⌊q⌋ := by
      rw [heq]
      linarith
    unfold round
    rw [heq] at hpart ⊢
    dsimp only
    split_ifs <;> first | omega | linarith

/-- Round to one decimal place, halves to the even digit. -/
def roundTenth (q : ℚ) : ℚ :=
  round (q * 10) / 10

/-- Rounding stays above a tenth. -/
theorem le_roundTenth {q : ℚ} {n : ℤ} (h : (n : ℚ) / 10 ≤ q) : (n : ℚ) / 10 ≤ roundTenth q := by
  have hround : n ≤ round (q * 10) := le_round (by linarith)
  have hround' : (n : ℚ) ≤ round (q * 10) := by exact_mod_cast hround
  rw [roundTenth]
  linarith

/-- Rounding stays below a tenth. -/
theorem roundTenth_le {q : ℚ} {n : ℤ} (h : q ≤ (n : ℚ) / 10) : roundTenth q ≤ (n : ℚ) / 10 := by
  have hround : round (q * 10) ≤ n := round_le (by linarith)
  have hround' : (round (q * 10) : ℚ) ≤ n := by exact_mod_cast hround
  rw [roundTenth]
  linarith

end DemoEstate
