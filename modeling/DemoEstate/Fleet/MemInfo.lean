import DemoEstate.Netsim.Counter

/-!
# The memory of a fleet host

A build of a Linux host works out its memory from the fractions of its profile; on a hypervisor the
anonymous memory follows the memory of the guests instead, up to a cap of its own.  Every part has
its wobble, and what is left over is free, but not less than a floor.

Main definitions:

- Definition {lit}`meminfo`: the values of the memory section.
- Definition {lit}`MemInfo.AddsUp`: no part exceeds the whole, and the sums agree.
- Definition {lit}`Roomy`: the guests leave room for the caches at their peak.

Main results:

- Theorem {lit}`addsUp_iff_used`: the values that add up.
- Theorem {lit}`addsUp_iff`: the hosts whose memory adds up for every wobble.
-/

namespace DemoEstate
namespace Fleet

open Netsim (int int_mono wobble)

/-! ## The memory section -/

/-- The size of the memory and the fractions of its profile. -/
structure MemSpec where
  memMb : ℕ
  anonF : ℚ
  cachedF : ℚ
  shmemF : ℚ
  anonF_nonneg : 0 ≤ anonF
  cachedF_nonneg : 0 ≤ cachedF
  shmemF_nonneg : 0 ≤ shmemF
  sum_le : anonF + cachedF + shmemF ≤ 85 / 100

/-- The memory in kilobytes. -/
def MemSpec.memTotal (spec : MemSpec) : ℤ := spec.memMb * 1024

/-- The noise of the gauges in one build. -/
structure MemNoise where
  anon : ℚ
  cached : ℚ
  shmem : ℚ
  buffers : ℚ
  sreclaim : ℚ

/-- `gauge`, with an amplitude that is a fraction of the base. -/
def gauge (base ampFrac raw : ℚ) : ℚ :=
  base * (1 + ampFrac * wobble raw)

section Parts

variable (spec : MemSpec) (guests : List ℕ) (n : MemNoise)

/-- The resident memory of the guests, up to a cap. -/
def guestBase : ℤ :=
  min (int (guests.map fun g : ℕ => (g : ℚ) * (82 / 100)).sum) (int (spec.memTotal * (85 / 100)))

/-- The anonymous memory without its wobble; a hypervisor's follows its guests. -/
def anonBase : ℤ :=
  if guests = [] then int (spec.memTotal * spec.anonF) else guestBase spec guests

def anon : ℤ := int (gauge (anonBase spec guests) (3 / 100) n.anon)

def cached : ℤ := int (gauge (spec.memTotal * spec.cachedF) (3 / 100) n.cached)

def shmem : ℤ := int (gauge (spec.memTotal * spec.shmemF) (2 / 100) n.shmem)

def buffers : ℤ := int (gauge (spec.memTotal * (2 / 100)) (4 / 100) n.buffers)

def sreclaim : ℤ := int (gauge (spec.memTotal * (3 / 100)) (3 / 100) n.sreclaim)

/-- The least that is free. -/
def freeFloor : ℤ := int (spec.memTotal * (3 / 100))

def memFree : ℤ :=
  max (freeFloor spec) (spec.memTotal - anon spec guests n - shmem spec n -
    (cached spec n + buffers spec n + sreclaim spec n))

def fileLru : ℤ := max 0 (buffers spec n + cached spec n - shmem spec n)

end Parts

/-- The values of the memory section that depend on each other. -/
structure MemInfo where
  memTotal : ℤ
  memFree : ℤ
  memAvailable : ℤ
  buffers : ℤ
  cached : ℤ
  active : ℤ
  inactive : ℤ
  activeAnon : ℤ
  inactiveAnon : ℤ
  activeFile : ℤ
  inactiveFile : ℤ
  anonPages : ℤ
  shmem : ℤ
  sReclaimable : ℤ

/-- The memory section of a build; `guests` are the sizes of the guests in kilobytes. -/
def meminfo (spec : MemSpec) (guests : List ℕ) (n : MemNoise) : MemInfo :=
  let anonLru := anon spec guests n + shmem spec n
  let aAnon := int (anonLru * (62 / 100))
  let aFile := int (fileLru spec n * (38 / 100))
  { memTotal := spec.memTotal
    memFree := memFree spec guests n
    memAvailable := memFree spec guests n + fileLru spec n + sreclaim spec n
    buffers := buffers spec n
    cached := cached spec n
    active := aAnon + aFile
    inactive := anonLru - aAnon + (fileLru spec n - aFile)
    activeAnon := aAnon
    inactiveAnon := anonLru - aAnon
    activeFile := aFile
    inactiveFile := fileLru spec n - aFile
    anonPages := anon spec guests n
    shmem := shmem spec n
    sReclaimable := sreclaim spec n }

/-- The parts fit into the whole, and the lists of pages agree with the parts they hold. -/
structure MemInfo.AddsUp (m : MemInfo) : Prop where
  used : m.memFree + m.anonPages + m.buffers + m.cached + m.sReclaimable ≤ m.memTotal
  available : m.memAvailable ≤ m.memTotal
  anon : m.activeAnon + m.inactiveAnon = m.anonPages + m.shmem
  active : m.active = m.activeAnon + m.activeFile

/-- The memory of the guests leaves room for the caches at their peak and for the least that is
free. -/
def Roomy (spec : MemSpec) (guests : List ℕ) : Prop :=
  freeFloor spec + int (guestBase spec guests * (103 / 100)) +
      int (spec.memTotal * (2 / 100) * (104 / 100)) +
      int (spec.memTotal * spec.cachedF * (103 / 100)) +
      int (spec.memTotal * (3 / 100) * (103 / 100)) ≤ spec.memTotal

instance (spec : MemSpec) (guests : List ℕ) : Decidable (Roomy spec guests) := by
  unfold Roomy
  infer_instance

/-! ## Gauges -/

section Gauges

variable {q base ampFrac raw : ℚ}

theorem int_nonneg (h : 0 ≤ q) : 0 ≤ int q := by
  rw [int, if_pos h]
  exact Int.floor_nonneg.mpr h

theorem int_le (h : 0 ≤ q) : (int q : ℚ) ≤ q := by
  rw [int, if_pos h]
  exact Int.floor_le q

theorem gauge_nonneg (hbase : 0 ≤ base) (hamp : 0 ≤ ampFrac) (hone : ampFrac ≤ 1) :
    0 ≤ gauge base ampFrac raw := by
  have hlow : ampFrac * (-1) ≤ ampFrac * wobble raw :=
    mul_le_mul_of_nonneg_left (Netsim.neg_one_le_wobble raw) hamp
  exact mul_nonneg hbase (by linarith only [hlow, hone])

/-- A gauge is highest at the top of its wobble. -/
theorem gauge_le (hbase : 0 ≤ base) (hamp : 0 ≤ ampFrac) :
    gauge base ampFrac raw ≤ base * (1 + ampFrac) := by
  have hhigh : ampFrac * wobble raw ≤ ampFrac * 1 :=
    mul_le_mul_of_nonneg_left (Netsim.wobble_le_one raw) hamp
  exact mul_le_mul_of_nonneg_left (by linarith only [hhigh]) hbase

theorem gauge_one : gauge base ampFrac 1 = base * (1 + ampFrac) := by
  norm_num [gauge, wobble]

theorem int_gauge_nonneg (hbase : 0 ≤ base) (hamp : 0 ≤ ampFrac) (hone : ampFrac ≤ 1) :
    0 ≤ int (gauge base ampFrac raw) :=
  int_nonneg (gauge_nonneg hbase hamp hone)

theorem int_gauge_le_one (hbase : 0 ≤ base) (hamp : 0 ≤ ampFrac) :
    int (gauge base ampFrac raw) ≤ int (gauge base ampFrac 1) := by
  rw [gauge_one]
  exact int_mono (gauge_le hbase hamp)

theorem int_gauge_le (hbase : 0 ≤ base) (hamp : 0 ≤ ampFrac) (hone : ampFrac ≤ 1) :
    (int (gauge base ampFrac raw) : ℚ) ≤ base * (1 + ampFrac) :=
  (int_le (gauge_nonneg hbase hamp hone)).trans (gauge_le hbase hamp)

end Gauges

/-! ## The parts at their peak -/

section Peaks

variable {spec : MemSpec} {guests : List ℕ} {n : MemNoise}

/-- The noise at which every gauge is at its peak. -/
def peak : MemNoise := ⟨1, 1, 1, 1, 1⟩

theorem memTotal_nonneg (spec : MemSpec) : (0 : ℚ) ≤ spec.memTotal := by
  unfold MemSpec.memTotal
  positivity

theorem guestBase_nonneg (spec : MemSpec) (guests : List ℕ) : 0 ≤ guestBase spec guests := by
  refine le_min (int_nonneg (List.sum_nonneg ?_)) (int_nonneg ?_)
  · intro q hq
    obtain ⟨g, -, rfl⟩ := List.mem_map.mp hq
    positivity
  · exact mul_nonneg (memTotal_nonneg spec) (by norm_num)

theorem anonBase_nonneg (spec : MemSpec) (guests : List ℕ) : 0 ≤ anonBase spec guests := by
  unfold anonBase
  split
  · exact int_nonneg (mul_nonneg (memTotal_nonneg spec) spec.anonF_nonneg)
  · exact guestBase_nonneg spec guests

theorem part_nonneg {frac : ℚ} (hfrac : 0 ≤ frac) : (0 : ℚ) ≤ spec.memTotal * frac :=
  mul_nonneg (memTotal_nonneg spec) hfrac

theorem anon_nonneg (spec : MemSpec) (guests : List ℕ) (n : MemNoise) : 0 ≤ anon spec guests n :=
  int_gauge_nonneg (by exact_mod_cast anonBase_nonneg spec guests) (by norm_num) (by norm_num)

theorem cached_nonneg (spec : MemSpec) (n : MemNoise) : 0 ≤ cached spec n :=
  int_gauge_nonneg (part_nonneg spec.cachedF_nonneg) (by norm_num) (by norm_num)

theorem shmem_nonneg (spec : MemSpec) (n : MemNoise) : 0 ≤ shmem spec n :=
  int_gauge_nonneg (part_nonneg spec.shmemF_nonneg) (by norm_num) (by norm_num)

theorem buffers_nonneg (spec : MemSpec) (n : MemNoise) : 0 ≤ buffers spec n :=
  int_gauge_nonneg (part_nonneg (by norm_num)) (by norm_num) (by norm_num)

/-- What is in use, with the least that is free. -/
def used (spec : MemSpec) (guests : List ℕ) (n : MemNoise) : ℤ :=
  freeFloor spec + anon spec guests n + buffers spec n + cached spec n + sreclaim spec n

theorem used_le_peak : used spec guests n ≤ used spec guests peak := by
  have hanon : anon spec guests n ≤ anon spec guests peak :=
    int_gauge_le_one (by exact_mod_cast anonBase_nonneg spec guests) (by norm_num)
  have hbuffers : buffers spec n ≤ buffers spec peak :=
    int_gauge_le_one (part_nonneg (by norm_num)) (by norm_num)
  have hcached : cached spec n ≤ cached spec peak :=
    int_gauge_le_one (part_nonneg spec.cachedF_nonneg) (by norm_num)
  have hsreclaim : sreclaim spec n ≤ sreclaim spec peak :=
    int_gauge_le_one (part_nonneg (by norm_num)) (by norm_num)
  unfold used
  omega

/-- The caches and the least that is free, as parts of the whole. -/
theorem caches_le (spec : MemSpec) (n : MemNoise) :
    (freeFloor spec + buffers spec n + cached spec n + sreclaim spec n : ℚ) ≤
      spec.memTotal * (817 / 10000 + spec.cachedF * (103 / 100)) := by
  have hfloor : (freeFloor spec : ℚ) ≤ spec.memTotal * (3 / 100) :=
    int_le (part_nonneg (by norm_num))
  have hbuffers : (buffers spec n : ℚ) ≤ spec.memTotal * (2 / 100) * (1 + 4 / 100) :=
    int_gauge_le (part_nonneg (by norm_num)) (by norm_num) (by norm_num)
  have hcached : (cached spec n : ℚ) ≤ spec.memTotal * spec.cachedF * (1 + 3 / 100) :=
    int_gauge_le (part_nonneg spec.cachedF_nonneg) (by norm_num) (by norm_num)
  have hsreclaim : (sreclaim spec n : ℚ) ≤ spec.memTotal * (3 / 100) * (1 + 3 / 100) :=
    int_gauge_le (part_nonneg (by norm_num)) (by norm_num) (by norm_num)
  linarith only [hfloor, hbuffers, hcached, hsreclaim]

/-- Within the fractions of a profile there is room for every wobble. -/
theorem used_le_of_noGuests : used spec [] n ≤ spec.memTotal := by
  have hbase : (anonBase spec [] : ℚ) ≤ spec.memTotal * spec.anonF := by
    rw [anonBase, if_pos rfl]
    exact int_le (part_nonneg spec.anonF_nonneg)
  have hanon : (anon spec [] n : ℚ) ≤ anonBase spec [] * (1 + 3 / 100) :=
    int_gauge_le (by exact_mod_cast anonBase_nonneg spec []) (by norm_num) (by norm_num)
  have hfracs : spec.memTotal * (spec.anonF + spec.cachedF) ≤ spec.memTotal * (85 / 100 : ℚ) :=
    mul_le_mul_of_nonneg_left (by linarith only [spec.sum_le, spec.shmemF_nonneg])
      (memTotal_nonneg spec)
  have hcaches := caches_le spec n
  have hused : (used spec [] n : ℚ) ≤ spec.memTotal := by
    unfold used
    push_cast
    linarith only [hbase, hanon, hfracs, hcaches, memTotal_nonneg spec]
  exact_mod_cast hused

/-- The caches alone always fit. -/
theorem caches_le_memTotal (spec : MemSpec) (n : MemNoise) :
    freeFloor spec + buffers spec n + cached spec n + sreclaim spec n ≤ spec.memTotal := by
  have hfrac : spec.memTotal * spec.cachedF ≤ spec.memTotal * (85 / 100 : ℚ) :=
    mul_le_mul_of_nonneg_left
      (by linarith only [spec.sum_le, spec.anonF_nonneg, spec.shmemF_nonneg])
      (memTotal_nonneg spec)
  have hcaches := caches_le spec n
  have hfit : (freeFloor spec + buffers spec n + cached spec n + sreclaim spec n : ℚ) ≤
      spec.memTotal := by
    linarith only [hfrac, hcaches, memTotal_nonneg spec]
  exact_mod_cast hfit

/-- On a hypervisor the peaks fit exactly if the guests leave room. -/
theorem used_peak_le_iff (h : guests ≠ []) :
    used spec guests peak ≤ spec.memTotal ↔ Roomy spec guests := by
  unfold used Roomy anon buffers cached sreclaim peak anonBase
  rw [if_neg h]
  simp only [gauge_one]
  norm_num

end Peaks

/-! ## Hosts whose memory adds up -/

section Hosts

variable {spec : MemSpec} {guests : List ℕ} {n : MemNoise}

/-- The values add up exactly if what is in use leaves the least that is to be free. -/
theorem addsUp_iff_used : (meminfo spec guests n).AddsUp ↔ used spec guests n ≤ spec.memTotal := by
  have hanon := anon_nonneg spec guests n
  have hcached := cached_nonneg spec n
  have hshmem := shmem_nonneg spec n
  have hbuffers := buffers_nonneg spec n
  have hcaches := caches_le_memTotal spec n
  constructor
  · intro h
    have hused := h.used
    simp only [meminfo, memFree] at hused
    unfold used
    omega
  · intro h
    unfold used at h
    constructor
    · simp only [meminfo, memFree]
      omega
    · simp only [meminfo, memFree, fileLru]
      omega
    · simp only [meminfo]
      omega
    · rfl

/-- A host's memory adds up for every wobble exactly if it has no guests or they leave room. -/
theorem addsUp_iff (spec : MemSpec) (guests : List ℕ) :
    (∀ n, (meminfo spec guests n).AddsUp) ↔ guests = [] ∨ Roomy spec guests := by
  simp only [addsUp_iff_used]
  by_cases hguests : guests = []
  · subst hguests
    exact iff_of_true (fun _ => used_le_of_noGuests) (Or.inl rfl)
  · rw [or_iff_right hguests, ← used_peak_le_iff hguests]
    exact ⟨fun hall => hall peak, fun hpeak _ => used_le_peak.trans hpeak⟩

end Hosts

/-- The specification of the hypervisors in the data centre. -/
def kvm : MemSpec where
  memMb := 393216
  anonF := 62 / 100
  cachedF := 12 / 100
  shmemF := 1 / 100
  anonF_nonneg := by norm_num
  cachedF_nonneg := by norm_num
  shmemF_nonneg := by norm_num
  sum_le := by norm_num

/-- Seven guests of 64 GB do not leave room on such a hypervisor. -/
theorem not_addsUp_kvm :
    ¬ ∀ (spec : MemSpec) (guests : List ℕ) (n : MemNoise), (meminfo spec guests n).AddsUp := by
  intro hclaim
  have hused := (hclaim kvm (List.replicate 7 (65536 * 1024)) peak).used
  revert hused
  decide +kernel

end Fleet
end DemoEstate
