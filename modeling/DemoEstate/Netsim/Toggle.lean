import DemoEstate.Netsim.Columns
import DemoEstate.Netsim.ResponderRuns

/-!
# A toggle and the poll after it

A toggle request sets the incident state of a device and renders the device into its walk
file, while the live responder answers from its cached table.  The first table after a
toggle holds what the new state gives exactly when the responder has no table of the device
or finds the cached one old enough to refresh it.

Main definitions:

- Definition {lit}`Live.Reachable`: the contents of memory and cache under toggles, polls
  and passing time.
- Definition {lit}`AtOnce`: every toggle takes effect on a poll that finds a cached table
  of a given age.

Main results:

- Theorem {lit}`TableFor.takesEffect`: a table that is built or refreshed holds the values
  of a fresh rendering.
- Theorem {lit}`atOnce_iff`: the ages at which every toggle takes effect at once.
-/

namespace DemoEstate
namespace Netsim

open Interaction
open Snmp (Row Oid Table parseOid)

/-! ## Toggles and polls -/

/-- The devices with incident toggles. -/
def Synthetic.incident : Synthetic → Bool
  | .swAccess num => num == 1
  | .rtWan => true
  | .swCore | .ups => false

/-- The shared memory answers, after some time and with some wobble. -/
def noisy : Program.Env Shared Op Ans :=
  fun s op ans s' => ∃ (d : ℚ≥0) (raw : ℚ),
    Shared.handler raw { s with now := s.now + d } op = some (ans, s')

/-- The live responder: the memory of a device, and its cached table with the time of its
last build or refresh. -/
structure Live where
  shared : Shared
  cache : Option (ℚ × Table)

namespace Live

/-- A process that has loaded its counters and incident state and polled nothing yet. -/
def boot (now : ℚ) (counters : Text → Counter) (incident : DeviceState) : Live where
  shared := {
    now := now
    counters := counters
    incident := incident
    oper := fun _ => 1
    attrs := fun attr _ => if attr = .rateFactor then 1 else 0
    ident := .empty }
  cache := none

/-- Time passes. -/
def after (l : Live) (d : ℚ≥0) : Live :=
  { l with shared := { l.shared with now := l.shared.now + d } }

/-- The age of the cached table. -/
def age (l : Live) : Option ℚ :=
  l.cache.map fun entry => l.shared.now - entry.1

/-- Set the incident state. -/
def set (l : Live) (value : Incident) : Live :=
  { l with shared := { l.shared with incident := l.shared.incident.set value l.shared.now } }

end Live

section Requests

variable (pf : Platform) (dev : Synthetic)

/-- A toggle request: the state is set and the device is rendered into its walk file, which
the live responder never reads. -/
inductive Toggled (value : Incident) (l : Live) : Live → Prop
  | intro {text : Text} {s' : Shared} (hincident : dev.incident = true)
      (hwalk : ((Device.synthetic dev).walk pf l.shared.now).Runs noisy (l.set value).shared text s') :
      Toggled value l { l with shared := s' }

/-- `table_for`: build the table, refresh it when its time has lapsed, or return it. -/
inductive TableFor (l : Live) : Table → Live → Prop
  | build {t : Table} {s' : Shared} (hcache : l.cache = none)
      (hrun : (buildTable pf (.synthetic dev) l.shared.now).Runs noisy l.shared t s') :
      TableFor l t ⟨s', some (l.shared.now, t)⟩
  | refresh {at_ : ℚ} {t t' : Table} {rows : List Row} {s' : Shared}
      (hcache : l.cache = some (at_, t)) (hage : tableTtl ≤ l.shared.now - at_)
      (hrun : ((Device.synthetic dev).dynamicRows pf l.shared.now).Runs noisy l.shared rows s')
      (hpatch : t.patch rows = .ok t') :
      TableFor l t' ⟨s', some (l.shared.now, t')⟩
  | hit {at_ : ℚ} {t : Table} (hcache : l.cache = some (at_, t))
      (hage : l.shared.now - at_ < tableTtl) :
      TableFor l t l

/-- The states of a live responder. -/
inductive Live.Reachable : Live → Prop
  | boot (now : ℚ) (counters : Text → Counter) (incident : DeviceState) :
      Reachable (Live.boot now counters incident)
  | clock {l : Live} (d : ℚ≥0) (h : Reachable l) : Reachable (l.after d)
  | toggle {l l' : Live} {value : Incident} (h : Reachable l) (ht : Toggled pf dev value l l') :
      Reachable l'
  | poll {l l' : Live} {t : Table} (h : Reachable l) (ht : TableFor pf dev l t l') : Reachable l'

end Requests

/-! ## What the incident state decides -/

/-- The OID of a column of the interface table. -/
def ifOid (column index : Nat) : Oid :=
  [1, 3, 6, 1, 2, 1, 2, 2, 1, column, index]

/-- The traffic counters of an interface. -/
def trafficOids (index : Nat) : List Oid :=
  [6, 7, 8, 9, 10, 11, 12, 13].map fun column => hcOid column index

/-- The processor load of the router. -/
def cpuOid : Oid := [1, 3, 6, 1, 4, 1, 9, 9, 109, 1, 1, 1, 1, 8, 1]

/-- The chassis temperature of the router. -/
def chassisOid : Oid := [1, 3, 6, 1, 4, 1, 9, 9, 13, 1, 3, 1, 3, 1]

/-- The values that depend on the incident state: of an access switch the operational
status and the errors of its first uplink and the traffic of both, of the router its load,
its temperature, its discards and its traffic. -/
def Synthetic.stateOids : Synthetic → List Oid
  | .swAccess _ => [ifOid 8 49, ifOid 14 49] ++ trafficOids 49 ++ trafficOids 50
  | .rtWan => [cpuOid, chassisOid, ifOid 19 2] ++ trafficOids 1 ++ trafficOids 2
  | .swCore | .ups => []

/-- A rendering shows a value of the table under every OID that depends on the state. -/
def Holds (dev : Synthetic) (t : Table) (rows : List Row) : Prop :=
  ∀ oid ∈ dev.stateOids, ∃ row ∈ rows, parseOid row.1 = .ok oid ∧
    t.get oid = some (Snmp.encOctetStr (Snmp.encodeValue row.2))

/-- The table holds the values that a fresh rendering of the device gives. -/
def TakesEffect (pf : Platform) (dev : Synthetic) (l : Live) (t : Table) : Prop :=
  ∃ rows s', (dev.rows pf l.shared.now).Runs noisy l.shared rows s' ∧ Holds dev t rows

/-- Every toggle takes effect on a poll that finds a table of the given age, or none. -/
def AtOnce (pf : Platform) (dev : Synthetic) (age : Option ℚ≥0) : Prop :=
  ∀ l value l' d t l'', Live.Reachable pf dev l → Toggled pf dev value l l' →
    (l'.after d).age = age.map NNRat.cast → TableFor pf dev (l'.after d) t l'' →
      TakesEffect pf dev (l'.after d) t

/-! ## Built and refreshed tables -/

section Fresh

variable {pf : Platform} {dev : Synthetic}

/-- Every rendering has the device's OIDs and plain values. -/
theorem rendered_of_runs {now : ℚ} {s s' : Shared} {rows : List Row}
    (hrun : (dev.rows pf now).Runs noisy s rows s') :
    dev.Rendered pf (fun _ _ => True) rows :=
  ((dev.rows_ensures pf now (fun _ _ => True) fun _ _ => True).of_runs
    (answering_anything noisy) hrun trivial).1

theorem mem_oids_of_iface {oid : Text} (it : Iface) (hups : dev ≠ .ups) (hit : it ∈ dev.ifaces pf)
    (hoid : oid ∈ it.oids) : oid ∈ dev.oids pf := by
  have hmem : oid ∈ (dev.ifaces pf).flatMap Iface.oids := List.mem_flatMap.mpr ⟨it, hit, hoid⟩
  cases dev with
  | ups => exact absurd rfl hups
  | swCore | swAccess | rtWan =>
      exact List.mem_append_left _ (List.mem_append_right _ (List.mem_cons_of_mem _ hmem))

/-- An interface shows its status, its errors, its discards and its traffic. -/
theorem Iface.mem_oids (it : Iface) {oid : Oid}
    (h : oid ∈ [ifOid 8 it.index, ifOid 14 it.index, ifOid 19 it.index] ++ trafficOids it.index) :
    oidText oid ∈ it.oids := by
  simp only [trafficOids, List.map_cons, List.map_nil, List.mem_append, List.mem_cons,
    List.not_mem_nil, or_false] at h
  rcases h with (rfl | rfl | rfl) | rfl | rfl | rfl | rfl | rfl | rfl | rfl | rfl <;>
    simp [Iface.oids, Iface.rowsOf, ifOid, hcOid, ifEntry, ifXEntry]

/-- A device has the OIDs that depend on its state. -/
theorem Synthetic.oidText_stateOids {oid : Oid} (h : oid ∈ dev.stateOids) :
    oidText oid ∈ dev.oids pf := by
  cases dev with
  | swCore | ups => cases h
  | swAccess num =>
      simp only [stateOids, List.mem_append, List.mem_cons, List.not_mem_nil, or_false] at h
      rcases h with (h | h) | h
      · apply mem_oids_of_iface (SwAccess.up1 pf num) (by simp) (by simp [ifaces, SwAccess.ifaces])
        apply Iface.mem_oids
        rcases h with rfl | rfl <;> simp [SwAccess.up1, SwAccess.uplink]
      · apply mem_oids_of_iface (SwAccess.up1 pf num) (by simp) (by simp [ifaces, SwAccess.ifaces])
        exact Iface.mem_oids _ (List.mem_append_right _ h)
      · apply mem_oids_of_iface (SwAccess.up2 pf num) (by simp) (by simp [ifaces, SwAccess.ifaces])
        exact Iface.mem_oids _ (List.mem_append_right _ h)
  | rtWan =>
      simp only [stateOids, List.mem_append, List.mem_cons, List.not_mem_nil, or_false] at h
      rcases h with ((rfl | rfl | rfl) | h) | h
      · apply List.mem_append_right
        exact List.mem_map_of_mem (by simp [platformOids, cpuOid])
      · apply List.mem_append_right
        exact List.mem_map_of_mem (by simp [platformOids, chassisOid])
      · apply mem_oids_of_iface RtWan.wan (by simp) (by simp [ifaces, RtWan.ifaces])
        apply Iface.mem_oids
        simp [RtWan.wan]
      · apply mem_oids_of_iface RtWan.lan (by simp) (by simp [ifaces, RtWan.ifaces])
        exact Iface.mem_oids _ (List.mem_append_right _ h)
      · apply mem_oids_of_iface RtWan.wan (by simp) (by simp [ifaces, RtWan.ifaces])
        exact Iface.mem_oids _ (List.mem_append_right _ h)

/-- Every OID that depends on the state stands in a row of every rendering. -/
theorem exists_row_of_stateOid {P : Text → ℤ → Prop} {rows : List Row}
    (h : dev.Rendered pf P rows) {oid : Oid} (hoid : oid ∈ dev.stateOids) :
    ∃ row ∈ rows, row.1 = oidText oid := by
  have hmem : oidText oid ∈ rows.map Prod.fst := h.oids_eq ▸ Synthetic.oidText_stateOids hoid
  rcases List.mem_map.mp hmem with ⟨row, hrow, heq⟩
  exact ⟨row, hrow, heq⟩

theorem parseOid_stateOid {oid : Oid} (hoid : oid ∈ dev.stateOids) :
    parseOid (oidText oid) = .ok oid := by
  cases oid with
  | nil => cases dev <;> simp [Synthetic.stateOids, trafficOids, hcOid, ifOid, cpuOid,
      chassisOid] at hoid
  | cons arc oid => exact parseOid_oidText arc oid

/-- What a refresh stores is what it renders. -/
theorem holds_of_patch {P : Text → ℤ → Prop} {rows : List Row} (h : dev.Rendered pf P rows)
    {t t' : Table} (hpatch : t.patch rows = .ok t') : Holds dev t' rows := by
  rcases Table.patch_eq_ok hpatch with ⟨pairs, hpairs, rfl⟩
  intro oid hoid
  rcases exists_row_of_stateOid h hoid with ⟨row, hrow, htext⟩
  exact Table.get_update_of_rows hpairs _ hrow (htext ▸ parseOid_stateOid hoid)

/-- What a build stores is what it renders. -/
theorem holds_of_ofRows {P : Text → ℤ → Prop} {rows : List Row} (h : dev.Rendered pf P rows)
    {text : Text} (htext : renderWalk rows = .ok text) {t : Table}
    (ht : Table.ofRows (walkRows text) = .ok t) : Holds dev t rows := by
  rcases Table.ofRows_eq_ok ht with ⟨pairs, hpairs, hvalue, -⟩
  intro oid hoid
  rcases exists_row_of_stateOid h hoid with ⟨row, hrow, hrowtext⟩
  have hparse := hrowtext ▸ parseOid_stateOid hoid
  have hne : row.1 ≠ [] := by
    intro hnil
    rw [hnil] at hparse
    cases hparse
  rcases renderWalk_eq_ok htext with ⟨sorted, hsorted, rfl⟩
  have hnumeric : Numeric row.1 := by
    rw [hrowtext]
    exact numeric_oidText oid
  rcases exists_mem_walkRows (hsorted.mem_iff.mpr hrow) hnumeric hne with ⟨v, hv⟩
  rcases Table.get_update_of_rows hpairs Dict.empty hv hparse with ⟨row', hrow', hoid', hget⟩
  refine ⟨row', h.mem_walkRows htext hrow', hoid', ?_⟩
  rw [Table.get, hvalue]
  exact hget

/-- A table that is built or refreshed holds the values of a fresh rendering. -/
theorem TableFor.takesEffect {l l' : Live} {t : Table} (h : TableFor pf dev l t l')
    (hage : ∀ entry, l.cache = some entry → tableTtl ≤ l.shared.now - entry.1) :
    TakesEffect pf dev l t := by
  cases h with
  | build hcache hrun =>
      rcases Program.runs_bind.mp hrun with ⟨text, s₁, hwalk, hbuild⟩
      rcases Program.runs_bind.mp hwalk with ⟨rows, s₂, hrows, hrender⟩
      refine ⟨rows, s₂, hrows, ?_⟩
      cases htext : renderWalk rows with
      | error e =>
          rw [htext] at hrender
          rcases hrender with ⟨ans, -⟩
          exact nomatch ans
      | ok text' =>
          rw [htext] at hrender
          cases hrender.1
          cases ht : Table.ofRows (walkRows text) with
          | error e =>
              rw [ht] at hbuild
              rcases hbuild with ⟨ans, -⟩
              exact nomatch ans
          | ok t' =>
              rw [ht] at hbuild
              cases hbuild.1
              exact holds_of_ofRows (rendered_of_runs hrows) htext ht
  | refresh hcache hlapsed hrun hpatch =>
      exact ⟨_, _, hrun, holds_of_patch (rendered_of_runs hrun) hpatch⟩
  | hit hcache hfresh => exact absurd hfresh (not_lt.mpr (hage _ hcache))

end Fresh

/-! ## Renderings that end -/

/-- Nothing is raised. -/
def noRaise : Program.Contract Op Ans where
  asks op := op ≠ .raise
  answers _ _ := True

/-- A contract that lets a rendering read and sample. -/
def Reads (c : Program.Contract Op Ans) : Prop :=
  ∀ op, (∀ index value, op ≠ .storeOper index value) → op ≠ .raise → c.asks op

/-- The rows stand under OIDs of the interface tables, and show operational statuses the
contract allows. -/
structure IfacesRead (c : Program.Contract Op Ans) (rows : List Row) : Prop where
  oids : ∀ row ∈ rows, ∃ column index,
    parseOid row.1 = .ok (ifOid column index) ∨ parseOid row.1 = .ok (hcOid column index)
  oper : ∀ row ∈ rows, ∀ index, parseOid row.1 = .ok (ifOid 8 index) →
    ∃ oper, c.answers (.loadOper index) oper ∧ row.2 = Text.decimal oper

section Ending

variable {c : Program.Contract Op Ans}

theorem Reads.call (hc : Reads c) {α : Type} {post : α → Prop} {op : Op} {f : Ans op → Render α}
    (hstore : ∀ index value, op ≠ .storeOper index value) (hraise : op ≠ .raise)
    (h : ∀ ans, c.answers op ans → (f ans).Ensures c post) :
    (Program.call op >>= f).Ensures c post :=
  Program.ensures_call (hc op hstore hraise) h

theorem Reads.loadIf (hc : Reads c) {α : Type} {post : α → Prop} {up : Bool} {attr : Attr}
    {index : Nat} {f : ℚ≥0 → Render α} (h : ∀ v, (f v).Ensures c post) :
    (loadIf up attr index >>= f).Ensures c post := by
  cases up with
  | true => exact hc.call (by simp) (by simp) fun ans _ => h ans
  | false => exact h 0

theorem Iface.sampleAll_reads (it : Iface) (hc : Reads c) :
    it.sampleAll.Ensures c fun _ => True := by
  unfold Iface.sampleAll
  refine hc.call (by simp) (by simp) fun oper _ => ?_
  refine hc.loadIf fun f => ?_
  refine hc.call (by simp) (by simp) fun _ _ => ?_
  refine hc.call (by simp) (by simp) fun _ _ => ?_
  refine hc.call (by simp) (by simp) fun _ _ => ?_
  refine hc.call (by simp) (by simp) fun _ _ => ?_
  refine hc.call (by simp) (by simp) fun _ _ => ?_
  refine hc.call (by simp) (by simp) fun _ _ => ?_
  refine hc.call (by simp) (by simp) fun _ _ => ?_
  refine hc.call (by simp) (by simp) fun _ _ => ?_
  refine hc.call (by simp) (by simp) fun _ _ => ?_
  refine hc.loadIf fun errRate => ?_
  refine hc.call (by simp) (by simp) fun _ _ => ?_
  refine hc.loadIf fun discRate => ?_
  refine hc.call (by simp) (by simp) fun _ _ => ?_
  exact hc.call (by simp) (by simp) fun _ _ => trivial

/-- A row of an interface under a status OID shows its status. -/
theorem Iface.rowsOf_oper (it : Iface) (vals : IfaceVals) (oper : Nat) {row : Row}
    (hrow : row ∈ it.rowsOf vals oper) {index : Nat}
    (hoid : parseOid row.1 = .ok (ifOid 8 index)) :
    index = it.index ∧ row.2 = Text.decimal oper := by
  simp only [Iface.rowsOf, List.mem_cons, List.not_mem_nil, or_false] at hrow
  rcases hrow with rfl | rfl | rfl | rfl | rfl | rfl | rfl | rfl | rfl | rfl | rfl | rfl | rfl |
    rfl | rfl | rfl | rfl | rfl | rfl | rfl | rfl | rfl <;>
    simp only [parseOid_ifEntry, parseOid_ifXEntry, hcOid, ifOid, Except.ok.injEq, List.cons.injEq,
      true_and, and_true, Nat.reduceEqDiff, false_and, and_false] at hoid
  exact ⟨hoid.symm, rfl⟩

theorem Iface.rowsOf_oid (it : Iface) (vals : IfaceVals) (oper : Nat) {row : Row}
    (hrow : row ∈ it.rowsOf vals oper) : ∃ column index,
      parseOid row.1 = .ok (ifOid column index) ∨ parseOid row.1 = .ok (hcOid column index) := by
  simp only [Iface.rowsOf, List.mem_cons, List.not_mem_nil, or_false] at hrow
  rcases hrow with rfl | rfl | rfl | rfl | rfl | rfl | rfl | rfl | rfl | rfl | rfl | rfl | rfl |
    rfl | rfl | rfl | rfl | rfl | rfl | rfl | rfl | rfl <;>
    simp only [parseOid_ifEntry, parseOid_ifXEntry] <;>
    first
    | exact ⟨_, _, Or.inl rfl⟩
    | exact ⟨_, _, Or.inr rfl⟩

/-- Interfaces are rendered to the end and show their statuses. -/
theorem ifaceRows_reads (hc : Reads c) (ifaces : List Iface) :
    (ifaceRows ifaces).Ensures c (IfacesRead c) := by
  induction ifaces with
  | nil =>
      constructor
      · intro row hrow
        cases hrow
      · intro row hrow
        cases hrow
  | cons it ifaces ih =>
      rw [ifaceRows, Program.ensures_bind, Iface.rows, Program.ensures_bind]
      refine (it.sampleAll_reads hc).mono fun vals _ => ?_
      refine hc.call (by simp) (by simp) fun oper hoper => ?_
      refine Program.ensures_bind.mpr (ih.mono fun rest hrest => ?_)
      constructor
      · intro row hrow
        rcases List.mem_append.mp hrow with hrow | hrow
        · exact it.rowsOf_oid vals oper hrow
        · exact hrest.oids row hrow
      · intro row hrow index hoid
        rcases List.mem_append.mp hrow with hrow | hrow
        · rcases it.rowsOf_oper vals oper hrow hoid with ⟨rfl, hvalue⟩
          exact ⟨oper, hoper, hvalue⟩
        · exact hrest.oper row hrow index hoid

theorem reads_noRaise : Reads noRaise := fun _ _ hraise => hraise

theorem noRaise_call {α : Type} {op : Op} {f : Ans op → Render α} (hop : op ≠ .raise)
    (h : ∀ ans, (f ans).Ensures noRaise fun _ => True) :
    (Program.call op >>= f).Ensures noRaise fun _ => True :=
  Program.ensures_call hop fun ans _ => h ans

/-- The devices with toggles are rendered to the end. -/
theorem Synthetic.rows_noRaise (pf : Platform) (dev : Synthetic) (hdev : dev.incident = true)
    (now : ℚ) : (dev.rows pf now).Ensures noRaise fun _ => True := by
  have hifaces := (ifaceRows_reads reads_noRaise (dev.ifaces pf)).mono fun _ _ => trivial
  cases dev with
  | swCore | ups => cases hdev
  | swAccess num =>
      have happly : (SwAccess.applyState pf num).Ensures noRaise fun _ => True := by
        unfold SwAccess.applyState
        refine noRaise_call (by simp) fun state => ?_
        cases state with
        | healthy =>
            refine noRaise_call (by simp) fun _ => ?_
            refine noRaise_call (by simp) fun _ => ?_
            refine noRaise_call (by simp) fun _ => ?_
            exact ⟨by simp [noRaise], fun _ _ => trivial⟩
        | degraded =>
            refine noRaise_call (by simp) fun _ => ?_
            refine noRaise_call (by simp) fun _ => ?_
            refine noRaise_call (by simp) fun _ => ?_
            refine noRaise_call (by simp) fun _ => ?_
            exact ⟨by simp [noRaise], fun _ _ => trivial⟩
        | broken =>
            refine noRaise_call (by simp) fun _ => ?_
            refine noRaise_call (by simp) fun _ => ?_
            refine noRaise_call (by simp) fun _ => ?_
            exact ⟨by simp [noRaise], fun _ _ => trivial⟩
      rw [rows, SwAccess.rows, Program.ensures_bind]
      refine happly.mono fun _ _ => ?_
      refine Program.ensures_bind.mpr (hifaces.mono fun _ _ => ?_)
      refine noRaise_call (by simp) fun _ => ?_
      exact noRaise_call (by simp) fun _ => trivial
  | rtWan =>
      have hfactor : RtWan.factorCpu.Ensures noRaise fun _ => True := by
        unfold RtWan.factorCpu
        refine noRaise_call (by simp) fun state => ?_
        cases state with
        | healthy => exact noRaise_call (by simp) fun _ => trivial
        | degraded =>
            refine noRaise_call (by simp) fun _ => ?_
            exact noRaise_call (by simp) fun _ => trivial
        | broken =>
            refine noRaise_call (by simp) fun _ => ?_
            exact noRaise_call (by simp) fun _ => trivial
      rw [rows, RtWan.rows, Program.ensures_bind]
      refine hfactor.mono fun _ _ => ?_
      refine noRaise_call (by simp) fun _ => ?_
      refine noRaise_call (by simp) fun _ => ?_
      refine noRaise_call (by simp) fun _ => ?_
      refine Program.ensures_bind.mpr (hifaces.mono fun _ _ => ?_)
      exact noRaise_call (by simp) fun _ => trivial

end Ending

/-! ## Walks and tables that can be made -/

theorem oidKey_oidText (arc : Nat) (oid : Oid) : oidKey (oidText (arc :: oid)) = some (arc :: oid) := by
  have hfirst : ∀ c, (joined (arc :: oid)).head? = some c → (c == '.') = false :=
    fun c hc => beq_dot_of_isDigit (joined_head arc oid c hc)
  have hlast : ∀ c, (joined (arc :: oid)).getLast? = some c → (c == '.') = false :=
    fun c hc => beq_dot_of_isDigit (joined_getLast arc oid c hc)
  rcases Text.strip_append (· == '.') (a := joined (arc :: oid)) (b := [])
    hfirst hlast (by
      intro hnil
      have hread := mapM_splitOn_joined arc oid
      rw [hnil] at hread
      exact absurd hread (by simp [Text.intOf])) with ⟨rest, hrest, hstrip⟩
  rw [List.prefix_nil.mp hrest, List.append_nil] at hstrip
  rw [oidKey, oidText_eq_joined, Text.strip_cons (by rfl), hstrip, mapM_splitOn_joined]

/-- The OID texts of a device are written from OIDs. -/
theorem Synthetic.exists_oid (pf : Platform) (dev : Synthetic) {text : Text}
    (h : text ∈ dev.oids pf) : ∃ arc oid, text = oidText (arc :: oid) := by
  have hfixed : ∀ oids : List Oid, hcFree oids = true → text ∈ oids.map oidText →
      ∃ arc oid, text = oidText (arc :: oid) := by
    intro oids hfree hmem
    rcases List.mem_map.mp hmem with ⟨o, ho, rfl⟩
    cases o with
    | nil => simpa using List.all_eq_true.mp hfree [] ho
    | cons arc oid => exact ⟨arc, oid, rfl⟩
  have hiface : ∀ it : Iface, text ∈ it.oids → ∃ arc oid, text = oidText (arc :: oid) := by
    intro it hmem
    simp only [Iface.oids, Iface.rowsOf, List.map_cons, List.map_nil, List.mem_cons,
      List.not_mem_nil, or_false] at hmem
    rcases hmem with rfl | rfl | rfl | rfl | rfl | rfl | rfl | rfl | rfl | rfl | rfl | rfl | rfl |
      rfl | rfl | rfl | rfl | rfl | rfl | rfl | rfl | rfl <;> exact ⟨1, _, rfl⟩
  have hparts : text ∈ systemOids.map oidText ++ oidText ifNumberOid ::
      (dev.ifaces pf).flatMap Iface.oids ++ dev.platformOids.map oidText →
        ∃ arc oid, text = oidText (arc :: oid) := by
    intro hmem
    simp only [List.mem_append, List.mem_cons, List.mem_flatMap] at hmem
    rcases hmem with (hmem | rfl | ⟨it, -, hmem⟩) | hmem
    · exact hfixed _ hcFree_systemOids hmem
    · exact ⟨1, _, rfl⟩
    · exact hiface it hmem
    · exact hfixed _ (hcFree_platformOids dev) hmem
  cases dev with
  | ups => exact hfixed _ (by decide) h
  | swCore => exact hparts h
  | swAccess num => exact hparts h
  | rtWan => exact hparts h

section Made

variable {pf : Platform} {dev : Synthetic} {P : Text → ℤ → Prop} {rows : List Row}

/-- The rows of a device make a walk. -/
theorem exists_renderWalk (h : dev.Rendered pf P rows) : ∃ text, renderWalk rows = .ok text := by
  have hkeys : rows.all (fun row => (oidKey row.1).isSome) = true := by
    rw [List.all_eq_true]
    intro row hrow
    have hmem : row.1 ∈ dev.oids pf := h.oids_eq ▸ List.mem_map_of_mem hrow
    rcases dev.exists_oid pf hmem with ⟨arc, oid, htext⟩
    rw [htext, oidKey_oidText]
    rfl
  exact ⟨_, if_pos hkeys⟩

/-- The walk of a device's rows makes a table. -/
theorem exists_table (h : dev.Rendered pf P rows) {text : Text}
    (htext : renderWalk rows = .ok text) : ∃ t, Table.ofRows (walkRows text) = .ok t := by
  apply Table.exists_ofRows
  intro row hrow
  have hmem : row.1 ∈ dev.oids pf := h.oids_eq ▸ List.mem_map_of_mem (h.mem_walkRows htext hrow)
  rcases dev.exists_oid pf hmem with ⟨arc, oid, heq⟩
  exact ⟨arc :: oid, heq ▸ parseOid_oidText arc oid⟩

end Made

/-! ## What a rendering in a state shows -/

/-- The operational status of the first uplink in a state. -/
def uplinkOper : Incident → Nat
  | .broken => 2
  | .healthy | .degraded => 1

/-- The readings while the incident state and the uplink's status stay as they are; a gauge
stays within its amplitude. -/
def stateIs (v : Incident) (k : Nat) : Program.Contract Op Ans where
  asks
    | .storeOper .. | .raise => False
    | _ => True
  answers
    | .getState, a => a = v
    | .loadOper index, a => index = 49 → a = k
    | .gauge _ base amp, a => 0 ≤ amp → base - amp ≤ a ∧ a ≤ base + amp
    | _, _ => True

/-- The memory is in an incident state, and so is the uplink's status. -/
def InState (v : Incident) (k : Nat) (s : Shared) : Prop :=
  s.incident.state = v ∧ s.oper 49 = k

section Shown

variable {v : Incident} {k : Nat}

theorem reads_stateIs : Reads (stateIs v k) := by
  intro op hstore hraise
  cases op
  case storeOper index value => exact absurd rfl (hstore index value)
  case raise => exact absurd rfl hraise
  all_goals trivial

/-- The shared memory answers by the contract of its state. -/
theorem noisy_stateIs : ∀ s op ans s', InState v k s → (stateIs v k).asks op →
    noisy s op ans s' → (stateIs v k).answers op ans ∧ InState v k s' := by
  rintro s op ans s' ⟨hstate, hoper⟩ hasks ⟨d, raw, h⟩
  cases op
  case raise => exact nomatch ans
  case storeOper => exact hasks.elim
  all_goals cases h
  case getState => exact ⟨hstate, hstate, hoper⟩
  case loadOper index =>
    refine ⟨?_, hstate, hoper⟩
    rintro rfl
    exact hoper
  case gauge base amp =>
    refine ⟨fun hamp => ?_, hstate, hoper⟩
    have hlow := mul_le_mul_of_nonneg_left (neg_one_le_wobble raw) hamp
    have hhigh := mul_le_mul_of_nonneg_left (wobble_le_one raw) hamp
    constructor <;> linarith only [hlow, hhigh]
  all_goals exact ⟨trivial, hstate, hoper⟩

/-- Setting the uplinks' attributes leaves the status of the incident state. -/
theorem inState_of_applyState {pf : Platform} {num : Nat} {s s' : Shared}
    (hrun : (SwAccess.applyState pf num).Runs noisy s () s') (hstate : s.incident.state = v) :
    InState v (uplinkOper v) s' := by
  rcases hrun with ⟨a, s₁, ⟨d, raw, h⟩, hrest⟩
  cases h
  simp only [hstate] at hrest
  cases v with
  | healthy =>
      rcases hrest with ⟨_, s₂, ⟨_, _, h₂⟩, _, s₃, ⟨_, _, h₃⟩, _, s₄, ⟨_, _, h₄⟩, _, s₅, ⟨_, _, h₅⟩, -, rfl⟩
      cases h₂
      cases h₃
      cases h₄
      cases h₅
      exact ⟨hstate, by simp [uplinkOper]⟩
  | degraded =>
      rcases hrest with ⟨_, s₁, ⟨_, _, h₁⟩, _, s₂, ⟨_, _, h₂⟩, _, s₃, ⟨_, _, h₃⟩, _, s₄, ⟨_, _, h₄⟩,
        _, s₅, ⟨_, _, h₅⟩, -, rfl⟩
      cases h₁
      cases h₂
      cases h₃
      cases h₄
      cases h₅
      exact ⟨hstate, by simp [uplinkOper]⟩
  | broken =>
      rcases hrest with ⟨_, s₂, ⟨_, _, h₂⟩, _, s₃, ⟨_, _, h₃⟩, _, s₄, ⟨_, _, h₄⟩, _, s₅, ⟨_, _, h₅⟩, -, rfl⟩
      cases h₂
      cases h₃
      cases h₄
      cases h₅
      exact ⟨hstate, by simp [uplinkOper]⟩

/-- Every row under an OID shows a value that satisfies `p`. -/
def AllShow (oid : Oid) (p : Text → Prop) (rows : List Row) : Prop :=
  ∀ row ∈ rows, parseOid row.1 = .ok oid → p row.2

/-- A value under an OID that tells broken from healthy: every healthy rendering shows a
number up to a bound under it, every broken one a number above. -/
def Tells (pf : Platform) (dev : Synthetic) (oid : Oid) (bound : ℤ) : Prop :=
  ∀ now s rows s', (dev.rows pf now).Runs noisy s rows s' →
    AllShow oid (fun v => ∃ n : ℤ, v = Text.str n ∧
      (s.incident.state = .healthy → n ≤ bound) ∧ (s.incident.state = .broken → bound < n)) rows

/-- No row with a fixed OID stands under another OID. -/
theorem parseOid_ne_of_fixed (oids : List Oid) {rows : List Row}
    (hrows : rows.map Prod.fst = oids.map oidText) (hfree : hcFree oids = true) {oid : Oid}
    (hoid : oid ∉ oids) {row : Row} (hrow : row ∈ rows) : parseOid row.1 ≠ .ok oid := by
  have htext : row.1 ∈ oids.map oidText := hrows ▸ List.mem_map_of_mem hrow
  rcases List.mem_map.mp htext with ⟨o, ho, htext⟩
  cases o with
  | nil => exact absurd (List.all_eq_true.mp hfree [] ho) (by simp)
  | cons arc o =>
      rw [← htext, parseOid_oidText]
      intro heq
      exact hoid (Except.ok.inj heq ▸ ho)

/-- The uplink's status tells the states of an access switch apart. -/
theorem tells_uplink (pf : Platform) (num : Nat) : Tells pf (.swAccess num) (ifOid 8 49) 1 := by
  intro now s rows s' hrun row hrow hoid
  rcases Program.runs_bind.mp hrun with ⟨_, s₁, happly, hrest⟩
  have hstate : InState s.incident.state (uplinkOper s.incident.state) s₁ :=
    inState_of_applyState happly rfl
  have hshows : AllShow (ifOid 8 49) (· = Text.decimal (uplinkOper s.incident.state)) rows := by
    refine (Program.Ensures.of_runs noisy_stateIs ?_ hrest hstate).1
    refine Program.ensures_bind.mpr ((ifaceRows_reads reads_stateIs _).mono fun ifs hifs => ?_)
    refine reads_stateIs.call (by simp) (by simp) fun cpu _ => ?_
    refine reads_stateIs.call (by simp) (by simp) fun temp _ => ?_
    intro row hrow hoid
    simp only [List.mem_append, List.mem_cons] at hrow
    rcases hrow with (hrow | rfl | hrow) | hrow
    · exact absurd hoid
        (parseOid_ne_of_fixed Synthetic.systemOids rfl (by decide) (by decide) hrow)
    · rw [ifNumberRow, ifNumberOid, parseOid_oidText] at hoid
      exact absurd (Except.ok.inj hoid) (by decide)
    · rcases hifs.oper row hrow 49 hoid with ⟨oper, hoper, hvalue⟩
      rw [hvalue, hoper rfl]
    · exact absurd hoid (parseOid_ne_of_fixed
        Synthetic.swCore.platformOids rfl (by decide) (by decide) hrow)
  refine ⟨uplinkOper s.incident.state, hshows row hrow hoid, ?_, ?_⟩
  · intro hhealthy
    rw [hhealthy]
    rfl
  · intro hbroken
    rw [hbroken]
    decide

/-- The processor load of a state: the gauge's base and amplitude bound it. -/
def CpuIn (v : Incident) (cpu : ℚ) : Prop :=
  (v = .healthy → cpu ≤ 27) ∧ (v = .broken → 66 ≤ cpu)

theorem factorCpu_in : RtWan.factorCpu.Ensures (stateIs v k) fun r => CpuIn v r.2 := by
  unfold RtWan.factorCpu
  refine reads_stateIs.call (by simp) (by simp) fun state hstate => ?_
  cases hstate
  cases v with
  | healthy =>
      refine reads_stateIs.call (by simp) (by simp) fun cpu hcpu => ?_
      have hbound := (hcpu (by norm_num)).2
      exact ⟨fun _ => by linarith only [hbound], nofun⟩
  | degraded =>
      refine reads_stateIs.call (by simp) (by simp) fun minutes _ => ?_
      exact reads_stateIs.call (by simp) (by simp) fun cpu _ => ⟨nofun, nofun⟩
  | broken =>
      refine reads_stateIs.call (by simp) (by simp) fun r _ => ?_
      refine reads_stateIs.call (by simp) (by simp) fun cpu hcpu => ⟨nofun, fun _ => ?_⟩
      have hbound := (hcpu (by norm_num)).1
      have hbase : (68 : ℚ) ≤ ((lerp 68 93 r : ℚ≥0) : ℚ) := by
        have hle : (68 : ℚ≥0) ≤ lerp 68 93 r := le_self_add
        exact_mod_cast hle
      linarith only [hbound, hbase]

/-- The processor load tells the states of the router apart. -/
theorem tells_cpu (pf : Platform) : Tells pf .rtWan cpuOid 27 := by
  intro now s rows s' hrun row hrow hoid
  have hshows : AllShow cpuOid (fun v => ∃ cpu, CpuIn s.incident.state cpu ∧
      v = Text.str (round cpu)) rows := by
    refine (Program.Ensures.of_runs noisy_stateIs ?_ hrun (⟨rfl, rfl⟩ : InState s.incident.state
      (s.oper 49) s)).1
    refine Program.ensures_bind.mpr (factorCpu_in.mono fun r hr => ?_)
    refine reads_stateIs.call (by simp) (by simp) fun _ _ => ?_
    refine reads_stateIs.call (by simp) (by simp) fun _ _ => ?_
    refine reads_stateIs.call (by simp) (by simp) fun _ _ => ?_
    refine Program.ensures_bind.mpr ((ifaceRows_reads reads_stateIs _).mono fun ifs hifs => ?_)
    refine reads_stateIs.call (by simp) (by simp) fun temp _ => ?_
    intro row hrow hoid
    simp only [List.mem_append, List.mem_cons] at hrow
    rcases hrow with (hrow | rfl | hrow) | hrow
    · exact absurd hoid
        (parseOid_ne_of_fixed Synthetic.systemOids rfl (by decide) (by decide) hrow)
    · rw [ifNumberRow, ifNumberOid, parseOid_oidText] at hoid
      exact absurd (Except.ok.inj hoid) (by decide)
    · rcases hifs.oids row hrow with ⟨column, index, hif | hif⟩
      · rw [hif] at hoid
        exact absurd (Except.ok.inj hoid) (by simp [ifOid, cpuOid])
      · rw [hif] at hoid
        exact absurd (Except.ok.inj hoid) (by simp [hcOid, cpuOid])
    · have hrow : row ∈ (oidText cpuOid, Text.str (round r.2)) ::
          (RtWan.platformRows r.2 temp).tail := hrow
      rcases List.mem_cons.mp hrow with rfl | hrow
      · exact ⟨r.2, hr, rfl⟩
      · exact absurd hoid (parseOid_ne_of_fixed Synthetic.rtWan.platformOids.tail rfl (by decide)
          (by decide) hrow)
  rcases hshows row hrow hoid with ⟨cpu, ⟨hhealthy, hbroken⟩, hvalue⟩
  refine ⟨round cpu, hvalue, fun hstate => round_le (hhealthy hstate), fun hstate => ?_⟩
  have hlow : (66 : ℤ) ≤ round cpu := le_round (by exact_mod_cast hbroken hstate)
  omega

end Shown

/-! ## The ages at which a toggle takes effect -/

section Ages

variable {pf : Platform} {dev : Synthetic}

/-- Every device with toggles has a value that tells its states apart. -/
theorem exists_tells (pf : Platform) (hdev : dev.incident = true) :
    ∃ oid ∈ dev.stateOids, ∃ bound, Tells pf dev oid bound := by
  cases dev with
  | swCore | ups => cases hdev
  | swAccess num => exact ⟨ifOid 8 49, by simp [Synthetic.stateOids], 1, tells_uplink pf num⟩
  | rtWan => exact ⟨cpuOid, by simp [Synthetic.stateOids], 27, tells_cpu pf⟩

/-- A device with toggles can be rendered at once. -/
theorem exists_rows (pf : Platform) (hdev : dev.incident = true) (now : ℚ) (s : Shared) :
    ∃ rows s', (dev.rows pf now).Runs noisy s rows s' ∧ s'.now = s.now ∧
      s'.incident = s.incident := by
  have hanswers : ∀ t op, (t.now = s.now ∧ t.incident = s.incident) → noRaise.asks op →
      ∃ ans t', Shared.handler 0 t op = some (ans, t') ∧ noRaise.answers op ans ∧
        (t'.now = s.now ∧ t'.incident = s.incident) := by
    intro t op ht hop
    cases op
    case raise => exact absurd rfl hop
    all_goals exact ⟨_, _, rfl, trivial, ht⟩
  rcases (dev.rows_noRaise pf hdev now).run hanswers ⟨rfl, rfl⟩ with
    ⟨rows, s', hrun, -, hnow, hincident⟩
  refine ⟨rows, s', (Program.runs_of_run hrun).mono fun t op ans t' h => ?_, hnow, hincident⟩
  refine ⟨0, 0, ?_⟩
  rw [NNRat.cast_zero, add_zero]
  exact h

/-- A device with toggles can be rendered into its walk. -/
theorem exists_walk (pf : Platform) (hdev : dev.incident = true) (now : ℚ) (s : Shared) :
    ∃ rows s' text, (dev.rows pf now).Runs noisy s rows s' ∧ renderWalk rows = .ok text ∧
      ((Device.synthetic dev).walk pf now).Runs noisy s text s' ∧ s'.now = s.now ∧
      s'.incident = s.incident := by
  rcases exists_rows pf hdev now s with ⟨rows, s', hrun, hnow, hincident⟩
  rcases exists_renderWalk (rendered_of_runs hrun) with ⟨text, htext⟩
  refine ⟨rows, s', text, hrun, htext, ?_, hnow, hincident⟩
  refine Program.runs_bind.mpr ⟨rows, s', hrun, ?_⟩
  rw [htext]
  exact ⟨rfl, rfl⟩

/-- A poll that finds a cached table younger than its time to live may miss a toggle. -/
theorem not_atOnce_of_lt (pf : Platform) (hdev : dev.incident = true) {a : ℚ≥0}
    (ha : (a : ℚ) < tableTtl) : ¬ AtOnce pf dev (some a) := by
  intro h
  rcases exists_tells pf hdev with ⟨oid, hoid, bound, htells⟩
  -- a poll in the healthy state fills the cache
  let counters : Text → Counter := fun _ => ⟨0, 0, 0, le_rfl, zero_le_one⟩
  let l₀ := Live.boot 0 counters (DeviceState.init 0)
  rcases exists_walk pf hdev 0 l₀.shared with ⟨rows₀, s₁, text, hrows₀, htext, hwalk, hnow₁, -⟩
  rcases exists_table (rendered_of_runs hrows₀) htext with ⟨t, ht⟩
  have hbuild : (buildTable pf (.synthetic dev) 0).Runs noisy l₀.shared t s₁ := by
    refine Program.runs_bind.mpr ⟨text, s₁, hwalk, ?_⟩
    rw [ht]
    exact ⟨rfl, rfl⟩
  have hpoll : TableFor pf dev l₀ t ⟨s₁, some (0, t)⟩ := .build rfl hbuild
  let l₁ : Live := ⟨s₁, some (0, t)⟩
  have hreach : Live.Reachable pf dev (l₁.after a) :=
    .clock a (.poll (.boot 0 counters (DeviceState.init 0)) hpoll)
  -- the device is broken while the table is young
  rcases exists_walk pf hdev (l₁.after a).shared.now ((l₁.after a).set .broken).shared with
    ⟨-, s₂, text₂, -, -, hwalk₂, hnow₂, hincident₂⟩
  have htoggle : Toggled pf dev .broken (l₁.after a) { l₁.after a with shared := s₂ } :=
    .intro hdev hwalk₂
  have hnow : s₂.now = a := by
    rw [hnow₂]
    change s₁.now + (a : ℚ) = a
    rw [hnow₁]
    exact zero_add _
  have hage : (({ l₁.after a with shared := s₂ } : Live).after 0).age = some (a : ℚ) := by
    simp [Live.age, Live.after, l₁, hnow]
  have hhit : TableFor pf dev (({ l₁.after a with shared := s₂ } : Live).after 0) t
      (({ l₁.after a with shared := s₂ } : Live).after 0) := by
    refine .hit rfl ?_
    simpa [Live.after, hnow] using ha
  rcases h _ .broken _ 0 t _ hreach htoggle hage hhit with ⟨rows, s', hrun, hholds⟩
  -- the table still shows the healthy value
  rcases holds_of_ofRows (rendered_of_runs hrows₀) htext ht oid hoid with
    ⟨row₀, hrow₀, hparse₀, hget₀⟩
  rcases hholds oid hoid with ⟨row, hrow, hparse, hget⟩
  rcases htells _ _ _ _ hrows₀ row₀ hrow₀ hparse₀ with ⟨n₀, hn₀, hhealthy, -⟩
  rcases htells _ _ _ _ hrun row hrow hparse with ⟨n, hn, -, hbroken⟩
  have hlow := hhealthy rfl
  have hhigh : bound < n := by
    apply hbroken
    change s₂.incident.state = .broken
    rw [hincident₂]
    rfl
  rw [hget₀, hn₀, hn] at hget
  have heq : n₀ = n := numberTlv_injective (Option.some.inj hget)
  omega

/-- **A toggle takes effect on the next poll exactly when no table is cached or its time
has lapsed.** -/
theorem atOnce_iff (pf : Platform) (hdev : dev.incident = true) (age : Option ℚ≥0) :
    AtOnce pf dev age ↔ ∀ a ∈ age, tableTtl ≤ (a : ℚ) := by
  constructor
  · rintro h a rfl
    by_contra hlt
    exact not_atOnce_of_lt pf hdev (not_le.mp hlt) h
  · intro hage l value l' d t l'' _ _ hcache htable
    apply htable.takesEffect
    intro entry hentry
    have hsome : (l'.after d).age = some ((l'.after d).shared.now - entry.1) := by
      rw [Live.age, hentry]
      rfl
    rw [hcache, Option.map_eq_some_iff] at hsome
    rcases hsome with ⟨a, ha, heq⟩
    rw [← heq]
    exact hage a ha

/-- A table that is fifteen seconds old is refreshed after a toggle of the router. -/
theorem atOnce_iff_router : AtOnce Platform.still .rtWan (some 15) :=
  (atOnce_iff Platform.still rfl (some 15)).mpr (by
    intro a ha
    cases ha
    exact le_of_eq (by norm_num [tableTtl]))

/-- A table that is five seconds old still shows the uplink up after the switch broke. -/
theorem not_atOnce_five_seconds :
    ¬ ∀ (pf : Platform) (dev : Synthetic), dev.incident = true → ∀ age, AtOnce pf dev age := by
  intro h
  exact not_atOnce_of_lt Platform.still (rfl : (Synthetic.swAccess 1).incident = true)
    (a := 5) (by norm_num [tableTtl]) (h _ _ rfl _)

end Ages

end Netsim
end DemoEstate
