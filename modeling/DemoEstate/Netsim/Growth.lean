import DemoEstate.Netsim.LineRate
import DemoEstate.Netsim.Responder

/-!
# Counters below the line rate

An interface caps its octet counters at 85 % of its line rate, and an instance of a recorded
walk does so at the line rate of its model.  Over every sequence of renderings the counters only
grow, and the octet counters by no more than the caps allow.

Main definitions:

- Definition {lit}`Device.OctetCounter`: the octet counters of a device, and their line rates.
- Definition {lit}`Rendering`: a rendering, while time passes and the incident state changes.

Main results:

- Theorems {lit}`Device.walk_asks` and {lit}`Device.dynamicRows_asks`: every octet sample of a
  device is capped.
- Theorem {lit}`grown_of_step`: the growth under one operation.
- Theorem {lit}`grows_within`: the growth over a sequence of renderings.
-/

namespace DemoEstate
namespace Netsim

open Interaction
open Snmp (Row Oid Result)
open Transition (Run)

/-! ## The octet counters of a device -/

theorem ifaceKey_inj {dev : Text} {index index' : Nat} {counter counter' : String}
    (h : ifaceKey dev index counter = ifaceKey dev index' counter') :
    index = index' ∧ counter.toList = counter'.toList := by
  simp only [ifaceKey, List.append_assoc, List.append_cancel_left_eq] at h
  have hcut := congrArg (Text.cut '.') h
  rw [Text.cut_append (dot_notMem_decimal index), Text.cut_append (dot_notMem_decimal index'),
    Prod.mk.injEq] at hcut
  have hindex := congrArg Text.intOf hcut.1
  rw [Text.intOf_decimal, Text.intOf_decimal, Option.some.injEq] at hindex
  exact ⟨hindex, hcut.2⟩

namespace Device

/-- The counters a device registers. -/
def counters (pf : Platform) : Device → List CounterSpec
  | .synthetic dev => (dev.ifaces pf).flatMap Iface.counters
  | .replay d => d.model.seeds.entries.map fun e =>
      ⟨d.short ++ '.' :: e.1, e.2, 3 / 10, three_tenths_nonneg, three_tenths_le_one⟩

/-- The octet counters of a device's interfaces, each with the line rate in bits per second. -/
def OctetCounter (pf : Platform) (dev : Device) (name : Text) (rate : Nat) : Prop :=
  match dev with
  | .synthetic dev => ∃ it ∈ dev.ifaces pf,
      (name = ifaceKey it.dev it.index "in_oct" ∨ name = ifaceKey it.dev it.index "out_oct") ∧
        rate = it.mbit * 1000000
  | .replay d => ∃ index, ∃ key ∈ ReplayModel.octetKeys index, name = d.short ++ '.' :: key ∧
      key ∈ d.model.seeds.keys ∧ rate = lineRate d.file.rows index ∧ 0 < rate

/-- Every octet counter is registered with the common amplitude. -/
theorem OctetCounter.registered {pf : Platform} {dev : Device} {name : Text} {rate : Nat}
    (h : dev.OctetCounter pf name rate) :
    ∃ spec ∈ dev.counters pf, spec.name = name ∧ spec.amp = 3 / 10 := by
  cases dev with
  | synthetic dev =>
      obtain ⟨it, hit, hname, -⟩ := h
      have hspec : ∃ spec ∈ it.counters, spec.name = name ∧ spec.amp = 3 / 10 := by
        rcases hname with rfl | rfl
        · exact ⟨_, List.mem_cons_self, rfl, rfl⟩
        · exact ⟨_, List.mem_cons_of_mem _ List.mem_cons_self, rfl, rfl⟩
      obtain ⟨spec, hspec, hrest⟩ := hspec
      exact ⟨spec, List.mem_flatMap.mpr ⟨it, hit, hspec⟩, hrest⟩
  | replay d =>
      obtain ⟨index, key, -, rfl, hseed, -⟩ := h
      obtain ⟨e, he, rfl⟩ := List.mem_map.mp hseed
      exact ⟨_, List.mem_map_of_mem he, rfl, rfl⟩

/-- A sample keeps an octet counter below 85 % of its line rate, by its cap or by its base
rate. -/
def Within (pf : Platform) (dev : Device) (name : Text) (base : ℚ≥0) (cap : Option ℚ≥0) : Prop :=
  ∀ rate, dev.OctetCounter pf name rate →
    (∃ m, cap = some m ∧ m ≤ 85 / 100 * (rate : ℚ≥0) / 8) ∨
      base * (13 / 10) ≤ 85 / 100 * (rate : ℚ≥0) / 8

end Device

/-! ## What renderings sample -/

/-- The operations whose samples meet a condition. -/
def Sampling (R : Text → ℚ≥0 → Option ℚ≥0 → Prop) : Op → Prop
  | .sample name base cap => R name base cap
  | _ => True

section Asks

variable {R : Text → ℚ≥0 → Option ℚ≥0 → Prop}

/-- The counters of an interface other than the octets. -/
def plainCounters : List String :=
  ["in_ucast", "out_ucast", "in_mcast", "in_bcast", "out_mcast", "out_bcast", "in_disc", "in_err",
    "out_disc", "out_err"]

theorem Iface.rows_asks {it : Iface}
    (hoctets : ∀ counter ∈ ["in_oct", "out_oct"], ∀ base,
      R (ifaceKey it.dev it.index counter) base (some (85 / 100 * it.mbit * 1000000 / 8)))
    (hplain : ∀ counter ∈ plainCounters, ∀ base, R (ifaceKey it.dev it.index counter) base none) :
    it.rows.Asks (Sampling R) := by
  have hload : ∀ {α : Type} (up : Bool) (attr : Attr) (index : Nat) {f : ℚ≥0 → Render α},
      (∀ v, (f v).Asks (Sampling R)) → (loadIf up attr index >>= f).Asks (Sampling R) := by
    intro α up attr index f hf
    cases up with
    | true => exact Program.asks_call trivial hf
    | false => exact hf 0
  have hplain' : ∀ {α : Type} {counter : String} {base : ℚ≥0} {f : ℤ → Render α},
      counter ∈ plainCounters → (∀ v, (f v).Asks (Sampling R)) →
        (Render.sample (ifaceKey it.dev it.index counter) base none >>= f).Asks (Sampling R) :=
    fun hcounter hf => Program.asks_call (hplain _ hcounter _) hf
  have hall : it.sampleAll.Asks (Sampling R) := by
    unfold Iface.sampleAll
    refine Program.asks_call trivial fun oper => ?_
    refine hload _ _ _ fun f => ?_
    refine Program.asks_call (hoctets _ (by decide) _) fun inOct => ?_
    refine Program.asks_call (hoctets _ (by decide) _) fun outOct => ?_
    refine hplain' (by decide) fun inUcast => ?_
    refine hplain' (by decide) fun outUcast => ?_
    refine hplain' (by decide) fun inMcast => ?_
    refine hplain' (by decide) fun inBcast => ?_
    refine hplain' (by decide) fun outMcast => ?_
    refine hplain' (by decide) fun outBcast => ?_
    refine hplain' (by decide) fun inDisc => ?_
    refine hload _ _ _ fun errRate => ?_
    refine hplain' (by decide) fun inErr => ?_
    refine hload _ _ _ fun discRate => ?_
    refine hplain' (by decide) fun outDisc => ?_
    refine hplain' (by decide) fun outErr => ?_
    exact Program.asks_done _
  exact hall.bind fun vals => Program.asks_call trivial fun oper => Program.asks_done _

theorem ifaceRows_asks {ifaces : List Iface} (h : ∀ it ∈ ifaces, it.rows.Asks (Sampling R)) :
    (ifaceRows ifaces).Asks (Sampling R) := by
  induction ifaces with
  | nil => exact Program.asks_done _
  | cons it ifaces ih =>
      refine (h it List.mem_cons_self).bind fun first => ?_
      refine (ih fun it' hit' => h it' (List.mem_cons_of_mem _ hit')).bind fun rest => ?_
      exact Program.asks_done _

theorem SwAccess.applyState_asks (pf : Platform) (num : Nat) :
    (SwAccess.applyState pf num).Asks (Sampling R) := by
  unfold SwAccess.applyState
  refine Program.asks_call trivial fun state => ?_
  cases state with
  | healthy =>
      refine Program.asks_call trivial fun _ => ?_
      refine Program.asks_call trivial fun _ => ?_
      refine Program.asks_call trivial fun _ => ?_
      exact ⟨trivial, fun _ => trivial⟩
  | degraded =>
      refine Program.asks_call trivial fun minutes => ?_
      refine Program.asks_call trivial fun _ => ?_
      refine Program.asks_call trivial fun _ => ?_
      refine Program.asks_call trivial fun _ => ?_
      exact ⟨trivial, fun _ => trivial⟩
  | broken =>
      refine Program.asks_call trivial fun _ => ?_
      refine Program.asks_call trivial fun _ => ?_
      refine Program.asks_call trivial fun r => ?_
      exact ⟨trivial, fun _ => trivial⟩

theorem RtWan.factorCpu_asks : RtWan.factorCpu.Asks (Sampling R) := by
  unfold RtWan.factorCpu
  refine Program.asks_call trivial fun state => ?_
  cases state with
  | healthy => exact ⟨trivial, fun _ => trivial⟩
  | degraded =>
      refine Program.asks_call trivial fun minutes => ?_
      exact ⟨trivial, fun _ => trivial⟩
  | broken =>
      refine Program.asks_call trivial fun r => ?_
      exact ⟨trivial, fun _ => trivial⟩

/-- A synthetic device samples what its interfaces sample. -/
theorem Synthetic.rows_asks {pf : Platform} {dev : Synthetic} {now : ℚ}
    (h : ∀ it ∈ dev.ifaces pf, it.rows.Asks (Sampling R)) :
    (dev.rows pf now).Asks (Sampling R) := by
  have hifaces := ifaceRows_asks h
  cases dev with
  | swCore =>
      refine hifaces.bind fun interfaces => ?_
      refine Program.asks_call trivial fun cpu => ?_
      exact Program.asks_call trivial fun temp => Program.asks_done _
  | swAccess num =>
      refine (SwAccess.applyState_asks pf num).bind fun _ => ?_
      refine hifaces.bind fun interfaces => ?_
      refine Program.asks_call trivial fun cpu => ?_
      exact Program.asks_call trivial fun temp => Program.asks_done _
  | rtWan =>
      refine RtWan.factorCpu_asks.bind fun factor => ?_
      refine Program.asks_call trivial fun _ => ?_
      refine Program.asks_call trivial fun _ => ?_
      refine Program.asks_call trivial fun _ => ?_
      refine hifaces.bind fun interfaces => ?_
      exact Program.asks_call trivial fun temp => Program.asks_done _
  | ups =>
      have hgauge : ∀ {α : Type} {name : String} {base amp : ℚ} {f : ℤ → Render α},
          (∀ v, (f v).Asks (Sampling R)) → (gaugeInt name base amp >>= f).Asks (Sampling R) :=
        fun hf => Program.asks_call trivial fun _ => hf _
      refine hgauge fun cap => ?_
      refine hgauge fun temp => ?_
      refine hgauge fun load => ?_
      refine hgauge fun _ => ?_
      refine hgauge fun voltIn => ?_
      exact Program.asks_call trivial fun runtime => Program.asks_done _

/-- A slot samples its key if it is a counter. -/
theorem ReplayDevice.slotValue_asks {d : ReplayDevice} {pf : Platform} {slot : Slot}
    (h : slot.kind.isCounter = true → Sampling R (d.sampleOp pf slot.key)) (elapsed now : ℚ)
    (sampled : Dict Text ℤ) : (d.slotValue pf slot elapsed now sampled).Asks (Sampling R) := by
  have hraise : ∀ {α : Type} (result : Result α), (Render.ofResult result).Asks (Sampling R) := by
    intro α result
    cases result with
    | ok a => exact Program.asks_done a
    | error e => exact ⟨trivial, fun answer => nomatch answer⟩
  have hsample : slot.kind.isCounter = true →
      (d.sampleOnce pf slot.key sampled).Asks (Sampling R) := by
    intro hcounter
    unfold ReplayDevice.sampleOnce
    cases sampled.get slot.key with
    | some v => exact Program.asks_done _
    | none => exact Program.asks_call (h hcounter) fun v => Program.asks_done _
  have hidentity : (d.identity pf slot).Asks (Sampling R) := by
    unfold ReplayDevice.identity
    refine Program.asks_call trivial fun remembered => ?_
    cases remembered with
    | some v => exact Program.asks_done v
    | none =>
        refine (hraise _).bind fun v => ?_
        exact Program.asks_call trivial fun _ => Program.asks_done _
  unfold ReplayDevice.slotValue
  cases hkind : slot.kind with
  | sysname | syslocation | uptime | apcdate => exact Program.asks_done _
  | hrcpu => exact Program.asks_call trivial fun v => Program.asks_done _
  | ctr32 | ctr64 => exact (hsample (by rw [hkind]; rfl)).bind fun v => Program.asks_done _
  | ifmac | serial | svctag | svccode => exact hidentity.bind fun v => Program.asks_done _

theorem ReplayDevice.walkFrom_asks {d : ReplayDevice} {pf : Platform} {segments : List Segment}
    (h : ∀ slot ∈ slots segments, slot.kind.isCounter = true → Sampling R (d.sampleOp pf slot.key))
    (elapsed now : ℚ) (sampled : Dict Text ℤ) :
    (d.walkFrom pf elapsed now segments sampled).Asks (Sampling R) := by
  induction segments generalizing sampled with
  | nil => exact Program.asks_done _
  | cons segment segments ih =>
      cases segment with
      | static text => exact (ih h sampled).bind fun rest => Program.asks_done _
      | slot slot =>
          have hslot := h slot List.mem_cons_self
          have hrest := fun slot' hslot' => h slot' (List.mem_cons_of_mem _ hslot')
          refine (slotValue_asks hslot elapsed now sampled).bind fun v => ?_
          exact (ih hrest v.2).bind fun rest => Program.asks_done _

theorem ReplayDevice.rowsFrom_asks {d : ReplayDevice} {pf : Platform} {slots : List Slot}
    (h : ∀ slot ∈ slots, slot.kind.isCounter = true → Sampling R (d.sampleOp pf slot.key))
    (elapsed now : ℚ) (sampled : Dict Text ℤ) :
    (d.rowsFrom pf elapsed now slots sampled).Asks (Sampling R) := by
  induction slots generalizing sampled with
  | nil => exact Program.asks_done _
  | cons slot slots ih =>
      have hslot := h slot List.mem_cons_self
      have hrest := fun slot' hslot' => h slot' (List.mem_cons_of_mem _ hslot')
      refine (slotValue_asks hslot elapsed now sampled).bind fun v => ?_
      exact (ih hrest v.2).bind fun rest => Program.asks_done _

end Asks

/-! ## The caps of a device -/

/-- The draws of the random generators are fractions of one. -/
def Platform.Fractional (pf : Platform) : Prop :=
  ∀ seed i, pf.random seed i ≤ 1

namespace Device

theorem within_synthetic {pf : Platform} {dev : Synthetic} {it : Iface} (hit : it ∈ dev.ifaces pf) :
    it.rows.Asks (Sampling ((Device.synthetic dev).Within pf)) := by
  have hsame : ∀ it' ∈ dev.ifaces pf, it'.index = it.index → it' = it := fun it' hit' hindex =>
    List.inj_on_of_nodup_map (Synthetic.nodup_index_ifaces pf dev) hit' hit hindex
  apply Iface.rows_asks
  · intro counter _ base rate hrate
    obtain ⟨it', hit', hname, rfl⟩ := hrate
    rw [Synthetic.dev_of_mem_ifaces hit, Synthetic.dev_of_mem_ifaces hit'] at hname
    have hindex : it'.index = it.index := by
      rcases hname with hname | hname
      · exact (ifaceKey_inj hname).1.symm
      · exact (ifaceKey_inj hname).1.symm
    rw [hsame it' hit' hindex]
    left
    refine ⟨_, rfl, le_of_eq ?_⟩
    push_cast
    ring
  · intro counter hcounter base rate hrate
    obtain ⟨it', hit', hname, -⟩ := hrate
    rw [Synthetic.dev_of_mem_ifaces hit, Synthetic.dev_of_mem_ifaces hit'] at hname
    have hno : ∀ counter ∈ plainCounters, counter.toList ≠ "in_oct".toList ∧
        counter.toList ≠ "out_oct".toList := by decide
    rcases hname with hname | hname
    · exact absurd (ifaceKey_inj hname).2 (hno counter hcounter).1
    · exact absurd (ifaceKey_inj hname).2 (hno counter hcounter).2

theorem within_replay {pf : Platform} (hpf : pf.Fractional) (d : ReplayDevice) (key : Text) :
    Sampling ((Device.replay d).Within pf) (d.sampleOp pf key) := by
  intro rate hrate
  obtain ⟨index, key', hkey', hname, hseed, rfl, hpos⟩ := hrate
  have hkey : key' = key := by simpa using hname.symm
  subst hkey
  obtain ⟨hcapped, hrateOf⟩ := ReplayModel.capped_ofRows d.loaded
  by_cases hzero : d.model.rateOf index = 0
  · -- without a stated rate the saturated one is far above the fixed base rate
    right
    have hline : lineRate d.file.rows index =
        largest (d.file.rows.filterMap saturatedRate) index := by
      rw [lineRate, ← hrateOf, if_pos hzero]
    rw [hline] at hpos ⊢
    have hbase : (d.model.rates.get key').getD 0 ≤ 25000000 := by
      cases hget : d.model.rates.get key' with
      | none => exact zero_le
      | some base => exact hcapped.slow index key' hkey' hzero base hget
    have hjit : d.rateJit pf ≤ 13 / 10 := by
      have hdraw := hpf d.seed 0
      calc d.rateJit pf ≤ 7 / 10 + (13 / 10 - 7 / 10) * 1 := by
            unfold ReplayDevice.rateJit Platform.uniform
            gcongr
        _ ≤ 13 / 10 := by decide +kernel
    have hfull : ((2 ^ 32 - 1 : Nat) : ℚ≥0) ≤
        (largest (d.file.rows.filterMap saturatedRate) index : ℚ≥0) := by
      exact_mod_cast le_largest_saturatedRate d.file.rows index hpos
    calc (d.model.rates.get key').getD 0 * d.rateJit pf * (13 / 10)
        ≤ 25000000 * (13 / 10) * (13 / 10) := by gcongr
      _ ≤ 85 / 100 * ((2 ^ 32 - 1 : Nat) : ℚ≥0) / 8 := by decide +kernel
      _ ≤ 85 / 100 * (largest (d.file.rows.filterMap saturatedRate) index : ℚ≥0) / 8 := by gcongr
  · left
    refine ⟨_, hcapped.cap index key' hkey' hseed hzero, le_of_eq ?_⟩
    rw [lineRate, ← hrateOf, if_neg hzero]

/-- Every octet sample of a walk is capped. -/
theorem walk_asks {pf : Platform} (hpf : pf.Fractional) (dev : Device) (now : ℚ) :
    (dev.walk pf now).Asks (Sampling (dev.Within pf)) := by
  cases dev with
  | synthetic dev =>
      refine (Synthetic.rows_asks fun it hit => within_synthetic hit).bind fun rows => ?_
      cases renderWalk rows with
      | ok text => exact Program.asks_done text
      | error e => exact ⟨trivial, fun answer => nomatch answer⟩
  | replay d =>
      exact ReplayDevice.walkFrom_asks (fun slot _ _ => within_replay hpf d slot.key) _ now _

/-- Every octet sample of a refresh is capped. -/
theorem dynamicRows_asks {pf : Platform} (hpf : pf.Fractional) (dev : Device) (now : ℚ) :
    (dev.dynamicRows pf now).Asks (Sampling (dev.Within pf)) := by
  cases dev with
  | synthetic dev => exact Synthetic.rows_asks fun it hit => within_synthetic hit
  | replay d =>
      exact ReplayDevice.rowsFrom_asks (fun slot _ _ => within_replay hpf d slot.key) _ now _

end Device

/-! ## Renderings -/

/-- One operation, after time has passed and the incident state has changed. -/
def Shared.Passing : Program.Env Shared Op Ans := fun s op ans t =>
  ∃ now incident raw, s.now ≤ now ∧
    Shared.handler raw { s with now := now, incident := incident } op = some (ans, t)

/-- A full walk, or a refresh of the dynamic rows. -/
inductive Scope where
  | full
  | refresh
deriving DecidableEq

/-- A rendering of a device, complete or cut short by an exception. -/
def Rendering (pf : Platform) (dev : Device) (s : Shared) (scope : Scope) (t : Shared) : Prop :=
  ∃ now log, match scope with
    | .full => ∃ out, (dev.walk pf now).Traces Shared.Passing s log out t
    | .refresh => ∃ out, (dev.dynamicRows pf now).Traces Shared.Passing s log out t

/-- The device's counters as they are constructed, with accumulators perhaps restored. -/
def Constructed (pf : Platform) (dev : Device) (s : Shared) : Prop :=
  ∀ spec ∈ dev.counters pf, ∃ acc,
    s.counters spec.name = { spec.counter s.now with acc := acc }

/-- From one state to a later one no counter shrinks, and no octet counter grows by more than
85 % of its line rate allows between its last samples. -/
structure Grown (pf : Platform) (dev : Device) (s t : Shared) : Prop where
  acc_le : ∀ name, (s.counters name).acc ≤ (t.counters name).acc
  octets : ∀ name rate, dev.OctetCounter pf name rate →
    (t.counters name).acc - (s.counters name).acc ≤
      85 / 100 * (rate : ℚ) / 8 * ((t.counters name).last - (s.counters name).last)

/-- The octet counters have the common amplitude and were sampled in the past. -/
def Sane (pf : Platform) (dev : Device) (s : Shared) : Prop :=
  ∀ name rate, dev.OctetCounter pf name rate →
    (s.counters name).amp = 3 / 10 ∧ (s.counters name).last ≤ s.now

section Growth

variable {pf : Platform} {dev : Device} {boot s s' t : Shared}

theorem sane_of_constructed (h : Constructed pf dev s) : Sane pf dev s := by
  intro name rate hrate
  obtain ⟨spec, hspec, rfl, hamp⟩ := hrate.registered
  obtain ⟨acc, hcounter⟩ := h spec hspec
  rw [hcounter]
  exact ⟨hamp, le_refl _⟩

theorem Grown.refl (s : Shared) : Grown pf dev s s where
  acc_le _ := le_refl _
  octets _ _ _ := by simp

theorem Grown.trans (h : Grown pf dev s s') (h' : Grown pf dev s' t) : Grown pf dev s t where
  acc_le name := (h.acc_le name).trans (h'.acc_le name)
  octets name rate hrate := by
    have hleft := h.octets name rate hrate
    have hright := h'.octets name rate hrate
    linarith only [hleft, hright]

/-- A capped sample grows a counter by no more than the cap allows. -/
theorem inst_le_of_within {c : Counter} {name : Text} {base : ℚ≥0} {cap : Option ℚ≥0} {rate : Nat}
    (h : dev.Within pf name base cap) (hrate : dev.OctetCounter pf name rate)
    (hamp : c.amp = 3 / 10) (raw : ℚ) :
    c.inst base (cap.map NNRat.cast) raw ≤ 85 / 100 * (rate : ℚ) / 8 := by
  have hwobble : (base : ℚ) * (1 + c.amp * wobble raw) ≤ base * (13 / 10) := by
    have hone := wobble_le_one raw
    rw [hamp]
    exact mul_le_mul_of_nonneg_left (by linarith only [hone]) base.2
  rcases h rate hrate with ⟨m, rfl, hm⟩ | hbase
  · have hm' : (m : ℚ) ≤ 85 / 100 * (rate : ℚ) / 8 := by exact_mod_cast hm
    exact (min_le_right _ _).trans hm'
  · have hbase' : (base : ℚ) * (13 / 10) ≤ 85 / 100 * (rate : ℚ) / 8 := by exact_mod_cast hbase
    refine le_trans ?_ (hwobble.trans hbase')
    cases cap with
    | none => exact le_refl _
    | some m => exact min_le_left _ _

/-- An operation leaves the counters alone, or samples one of them. -/
theorem passing_cases {op : Op} {ans : Ans op} (h : Shared.Passing s op ans t) :
    s.now ≤ t.now ∧ (t.counters = s.counters ∨
      ∃ name base cap raw, op = .sample name base cap ∧
        t.counters = Function.update s.counters name
          ((s.counters name).sample base (cap.map NNRat.cast) raw t.now)) := by
  obtain ⟨now, incident, raw, hnow, hans⟩ := h
  cases op with
  | raise => exact nomatch ans
  | sample name base cap =>
      simp only [Shared.handler, Option.some.injEq, Prod.mk.injEq] at hans
      obtain ⟨-, rfl⟩ := hans
      exact ⟨hnow, Or.inr ⟨name, base, cap, raw, rfl, rfl⟩⟩
  | gauge | getState | degradedMinutes | ramp | loadOper | storeOper | load | store | getIdent
  | setIdent =>
      simp only [Shared.handler, Option.some.injEq, Prod.mk.injEq] at hans
      obtain ⟨-, rfl⟩ := hans
      exact ⟨hnow, Or.inl rfl⟩

/-- Under one operation of a rendering the counters grow within their caps. -/
theorem grown_of_step {op : Op} {ans : Ans op} (hop : Sampling (dev.Within pf) op)
    (hsane : Sane pf dev s) (h : Shared.Passing s op ans t) :
    Sane pf dev t ∧ Grown pf dev s t := by
  obtain ⟨hnow, hcounters | ⟨name, base, cap, raw, rfl, hcounters⟩⟩ := passing_cases h
  · constructor
    · intro name rate hrate
      rw [hcounters]
      exact ⟨(hsane name rate hrate).1, (hsane name rate hrate).2.trans hnow⟩
    · constructor
      · simp [hcounters]
      · simp [hcounters]
  · constructor
    · intro name' rate hrate
      have hbefore := hsane name' rate hrate
      rw [hcounters]
      by_cases hname : name' = name
      · subst hname
        rw [Function.update_self]
        exact ⟨hbefore.1, le_refl _⟩
      · rw [Function.update_of_ne hname]
        exact ⟨hbefore.1, hbefore.2.trans hnow⟩
    · constructor
      · intro name'
        rw [hcounters]
        by_cases hname : name' = name
        · subst hname
          rw [Function.update_self]
          apply Counter.acc_le_sample
          · exact base.2
          · intro m hm
            obtain ⟨m', -, rfl⟩ := Option.map_eq_some_iff.mp hm
            exact m'.2
        · rw [Function.update_of_ne hname]
      · intro name' rate hrate
        rw [hcounters]
        by_cases hname : name' = name
        · subst hname
          have hbefore := hsane name' rate hrate
          have hpassed : 0 ≤ t.now - (s.counters name').last :=
            sub_nonneg.mpr (hbefore.2.trans hnow)
          have hinst := inst_le_of_within hop hrate hbefore.1 raw
          rw [Function.update_self]
          simp only [Counter.sample, max_eq_right hpassed, add_sub_cancel_left]
          exact mul_le_mul_of_nonneg_right hinst hpassed
        · rw [Function.update_of_ne hname]
          simp

theorem grown_of_rendering (hpf : pf.Fractional) {scope : Scope} (hsane : Sane pf dev s)
    (h : Rendering pf dev s scope t) : Sane pf dev t ∧ Grown pf dev s t := by
  have hstep : ∀ u op (ans : Ans op) v, Sampling (dev.Within pf) op →
      Sane pf dev u ∧ Grown pf dev s u → Shared.Passing u op ans v →
        Sane pf dev v ∧ Grown pf dev s v := by
    rintro u op ans v hop ⟨husane, hugrown⟩ hpass
    obtain ⟨hvsane, hvgrown⟩ := grown_of_step hop husane hpass
    exact ⟨hvsane, hugrown.trans hvgrown⟩
  obtain ⟨now, log, htraces⟩ := h
  cases scope with
  | full =>
      obtain ⟨out, htraces⟩ := htraces
      exact (dev.walk_asks hpf now).traces_invariant hstep htraces ⟨hsane, Grown.refl s⟩
  | refresh =>
      obtain ⟨out, htraces⟩ := htraces
      exact (dev.dynamicRows_asks hpf now).traces_invariant hstep htraces ⟨hsane, Grown.refl s⟩

theorem grown_of_run (hpf : pf.Fractional) {scopes : List Scope} (hsane : Sane pf dev s)
    (h : Run (Rendering pf dev) s scopes t) : Sane pf dev t ∧ Grown pf dev s t := by
  induction h with
  | nil s => exact ⟨hsane, Grown.refl s⟩
  | cons head tail ih =>
      obtain ⟨hmid, hgrown⟩ := grown_of_rendering hpf hsane head
      obtain ⟨hend, hgrown'⟩ := ih hmid
      exact ⟨hend, hgrown.trans hgrown'⟩

/-- Between any two states of a sequence of renderings no counter shrinks, and the octet counters
grow by at most 85 % of their line rates. -/
theorem grows_within (hpf : pf.Fractional) (hboot : Constructed pf dev boot)
    {before scopes : List Scope} (hbefore : Run (Rendering pf dev) boot before s)
    (hrun : Run (Rendering pf dev) s scopes t) : Grown pf dev s t :=
  (grown_of_run hpf (grown_of_run hpf (sane_of_constructed hboot) hbefore).1 hrun).2

/-- A recorded walk of one port of ten megabits. -/
def onePort : WalkFile where
  content := ".1.3.6.1.2.1.31.1.1.1.15.1 10\n.1.3.6.1.2.1.31.1.1.1.6.1 5\n".toList
  numeric := by decide +kernel

def onePortDevice : ReplayDevice where
  short := "sw".toList
  location := "rack".toList
  file := onePort
  model := ReplayModel.parsed onePort.rows
  loaded := ReplayModel.ofRows_eq_parsed (by decide +kernel)
  short_plain := by decide
  location_plain := plain_rack

/-- Its state at the start, with five octets recorded. -/
def onePortBoot : Shared where
  now := 0
  counters _ := ⟨5, 0, 3 / 10, three_tenths_nonneg, three_tenths_le_one⟩
  incident := .init 0
  oper _ := 1
  attrs _ _ := 1
  ident := .empty

theorem constructed_onePortBoot :
    Constructed Platform.still (.replay onePortDevice) onePortBoot := by
  intro spec hspec
  obtain ⟨e, -, rfl⟩ := List.mem_map.mp hspec
  exact ⟨5, rfl⟩

theorem rendering_onePort :
    ∃ t, Rendering Platform.still (.replay onePortDevice) onePortBoot .refresh t := by
  have hsome : (((Device.replay onePortDevice).dynamicRows Platform.still 0).run
      (Shared.handler 0) onePortBoot).isSome = true := by decide +kernel
  obtain ⟨⟨rows, t⟩, hrun⟩ := Option.isSome_iff_exists.mp hsome
  have hpassing : ∀ u op (ans : Ans op) v, Program.Answering (Shared.handler 0) u op ans v →
      Shared.Passing u op ans v :=
    fun u op ans v h => ⟨u.now, u.incident, 0, le_refl _, h⟩
  obtain ⟨log, htraces⟩ :=
    Program.exists_traces_of_runs ((Program.runs_of_run hrun).mono hpassing)
  exact ⟨t, 0, log, some rows, htraces⟩

theorem grows_within_onePort : ∃ t,
    Rendering Platform.still (.replay onePortDevice) onePortBoot .refresh t ∧
      Grown Platform.still (.replay onePortDevice) onePortBoot t := by
  obtain ⟨t, ht⟩ := rendering_onePort
  have hpf : Platform.still.Fractional := fun _ _ => zero_le
  exact ⟨t, ht, grows_within hpf constructed_onePortBoot (Run.nil onePortBoot)
    (Run.cons ht (Run.nil t))⟩

end Growth

end Netsim
end DemoEstate
