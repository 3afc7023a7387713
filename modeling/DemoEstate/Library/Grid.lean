import Mathlib.Data.List.Basic
import Mathlib.Data.Nat.Digits.Defs

/-!
# A grid read by columns and by rows

A grid of cells is read column after column or row after row.  Where its cells are told apart
by the sum of a column's first position and the row, the two readings agree for staircases
only: as many columns as a power of the number of rows, each starting at its digit sum.

Main definitions:

- Definitions {lit}`byColumns` and {lit}`byRows`: the two readings.
- Definition {lit}`digitSum`: the sum of the digits of a number in a base.

Main results:

- Theorem {lit}`byColumns_eq_byRows_iff`: the readings agree cell by cell.
- Theorem {lit}`staircase_iff`: when positions agree along both readings.
-/

namespace Grid

variable {α : Type} {g : ℕ → ℕ → α} {c r : ℕ}

/-- The cells of a grid, column after column. -/
def byColumns (g : ℕ → ℕ → α) (c r : ℕ) : List α :=
  (List.range c).flatMap fun i => (List.range r).map (g i)

/-- The cells of a grid, row after row. -/
def byRows (g : ℕ → ℕ → α) (c r : ℕ) : List α :=
  (List.range r).flatMap fun j => (List.range c).map fun i => g i j

theorem byRows_eq_byColumns (g : ℕ → ℕ → α) (c r : ℕ) :
    byRows g c r = byColumns (fun j i => g i j) r c :=
  rfl

/-- The place of a cell in the reading by columns. -/
theorem byColumns_eq_map (g : ℕ → ℕ → α) (c r : ℕ) :
    byColumns g c r = (List.range (c * r)).map fun t => g (t / r) (t % r) := by
  induction c with
  | zero => simp [byColumns]
  | succ c ih =>
      have hsplit : byColumns g (c + 1) r = byColumns g c r ++ (List.range r).map (g c) := by
        simp [byColumns, List.range_succ]
      rw [hsplit, ih, Nat.succ_mul, List.range_add, List.map_append, List.map_map]
      congr 1
      apply List.map_congr_left
      intro j hj
      have hj' : j < r := List.mem_range.mp hj
      have hdiv : (c * r + j) / r = c := by
        rw [Nat.mul_comm, Nat.mul_add_div (by omega), Nat.div_eq_of_lt hj', Nat.add_zero]
      have hmod : (c * r + j) % r = j := by
        rw [Nat.mul_comm, Nat.mul_add_mod, Nat.mod_eq_of_lt hj']
      simp [hdiv, hmod]

/-- The readings agree exactly if the cells at each place do. -/
theorem byColumns_eq_byRows_iff :
    byColumns g c r = byRows g c r ↔ ∀ t < c * r, g (t / r) (t % r) = g (t % c) (t / c) := by
  rw [byRows_eq_byColumns, byColumns_eq_map, byColumns_eq_map, Nat.mul_comm r c]
  simp only [List.map_inj_left, List.mem_range]

/-- A single column or a single row is read in one way. -/
theorem byColumns_eq_byRows_of_le_one (h : c ≤ 1 ∨ r ≤ 1) : byColumns g c r = byRows g c r := by
  rw [byColumns_eq_byRows_iff]
  intro t ht
  rcases h with hc | hr
  · have hone : c = 1 := by
      by_contra hne
      have hzero : c = 0 := by omega
      simp [hzero] at ht
    subst hone
    rw [Nat.one_mul] at ht
    rw [Nat.div_eq_of_lt ht, Nat.mod_eq_of_lt ht, Nat.mod_one, Nat.div_one]
  · have hone : r = 1 := by
      by_contra hne
      have hzero : r = 0 := by omega
      simp [hzero] at ht
    subst hone
    rw [Nat.mul_one] at ht
    rw [Nat.div_eq_of_lt ht, Nat.mod_eq_of_lt ht, Nat.mod_one, Nat.div_one]

/-! ## Digit sums -/

/-- The sum of the digits of a number. -/
def digitSum (base n : ℕ) : ℕ :=
  (Nat.digits base n).sum

variable {base n : ℕ}

@[simp]
theorem digitSum_zero (base : ℕ) : digitSum base 0 = 0 := by
  simp [digitSum]

/-- The last digit, and the digits before it. -/
theorem digitSum_eq (hbase : 2 ≤ base) (n : ℕ) :
    digitSum base n = n % base + digitSum base (n / base) := by
  cases n with
  | zero => simp
  | succ n =>
      have hdigits := Nat.digits_def' (b := base) hbase (Nat.succ_pos n)
      rw [digitSum, hdigits, List.sum_cons]
      rfl

theorem digitSum_of_lt (hbase : 2 ≤ base) (h : n < base) : digitSum base n = n := by
  rw [digitSum_eq hbase, Nat.mod_eq_of_lt h, Nat.div_eq_of_lt h, digitSum_zero, Nat.add_zero]

/-- The low digits and the high ones. -/
theorem digitSum_split (hbase : 2 ≤ base) (k n : ℕ) :
    digitSum base n = digitSum base (n % base ^ k) + digitSum base (n / base ^ k) := by
  induction k generalizing n with
  | zero => simp [Nat.mod_one]
  | succ k ih =>
      have hlow : digitSum base (n % base ^ (k + 1)) =
          n % base + digitSum base (n / base % base ^ k) := by
        rw [digitSum_eq hbase, Nat.pow_succ, Nat.mul_comm, Nat.mod_mul_right_mod,
          Nat.mod_mul_right_div_self]
      rw [hlow, digitSum_eq hbase n, ih (n / base), Nat.div_div_eq_div_mul, Nat.pow_succ,
        Nat.mul_comm base, Nat.add_assoc]

theorem eq_zero_of_digitSum (hbase : 2 ≤ base) (h : digitSum base n = 0) : n = 0 := by
  induction n using Nat.strong_induction_on with
  | _ n ih =>
      by_contra hne
      rw [digitSum_eq hbase] at h
      have hlt : n / base < n := Nat.div_lt_self (Nat.pos_of_ne_zero hne) hbase
      have hhigh : n / base = 0 := ih _ hlt (by omega)
      have hsmall : n < base := (Nat.div_eq_zero_iff.mp hhigh).resolve_left (by omega)
      rw [Nat.mod_eq_of_lt hsmall] at h
      omega

/-- Only powers of the base have digit sum one. -/
theorem exists_pow_of_digitSum (hbase : 2 ≤ base) (h : digitSum base n = 1) :
    ∃ k, n = base ^ k := by
  induction n using Nat.strong_induction_on with
  | _ n ih =>
      have hdiv := Nat.div_add_mod n base
      rw [digitSum_eq hbase] at h
      by_cases hlast : n % base = 0
      · have hpos : 0 < n := by
          by_contra hzero
          have hn : n = 0 := by omega
          simp [hn] at h
        have hlt : n / base < n := Nat.div_lt_self hpos hbase
        obtain ⟨k, hk⟩ := ih _ hlt (by omega)
        refine ⟨k + 1, ?_⟩
        rw [hk, hlast, Nat.add_zero, Nat.mul_comm] at hdiv
        rw [Nat.pow_succ, hdiv]
      · have hhigh : n / base = 0 := eq_zero_of_digitSum hbase (by omega)
        refine ⟨0, ?_⟩
        rw [hhigh, digitSum_zero] at h
        rw [hhigh, Nat.mul_zero, Nat.zero_add] at hdiv
        rw [Nat.pow_zero]
        omega

/-- The positions of both readings agree at every place exactly for a staircase: the columns are
a power of the rows in number, and each starts at its digit sum. -/
theorem staircase_iff {p : ℕ → ℕ} (hc : 2 ≤ c) (hr : 2 ≤ r) :
    (∀ t < c * r, p (t / r) + t % r = p (t % c) + t / c) ↔
      (∃ k, c = r ^ k) ∧ ∀ i < c, p i = p 0 + digitSum r i := by
  constructor
  · intro hall
    have hwide : c < c * r := by
      have hmul := Nat.mul_le_mul_left c hr
      omega
    have hstart : ∀ i < c, p i = p 0 + digitSum r i := by
      intro i
      induction i using Nat.strong_induction_on with
      | _ i ih =>
          intro hi
          by_cases hzero : i = 0
          · simp [hzero]
          · -- the first row reaches column `i` when the columns reach cell `i`
            have hlt : i / r < i := Nat.div_lt_self (Nat.pos_of_ne_zero hzero) hr
            have hcell := hall i (hi.trans hwide)
            rw [Nat.mod_eq_of_lt hi, Nat.div_eq_of_lt hi, ih _ hlt (hlt.trans hi)] at hcell
            rw [digitSum_eq hr i]
            omega
    constructor
    · apply exists_pow_of_digitSum hr
      have hlt : c / r < c := Nat.div_lt_self (by omega) hr
      have hcell := hall c hwide
      rw [Nat.mod_self, Nat.div_self (by omega), hstart _ hlt] at hcell
      rw [digitSum_eq hr c]
      omega
    · exact hstart
  · rintro ⟨⟨k, hk⟩, hstart⟩ t ht
    have hleft : t / r < c := Nat.div_lt_of_lt_mul (by rwa [Nat.mul_comm])
    have hright : t % c < c := Nat.mod_lt _ (by omega)
    have hrow : t / c < r := Nat.div_lt_of_lt_mul ht
    have hsplit := digitSum_split hr k t
    have hlast := digitSum_eq hr t
    rw [← hk, digitSum_of_lt hr hrow] at hsplit
    rw [hstart _ hleft, hstart _ hright]
    omega

end Grid
