import DemoEstate.Netsim.Devices
import DemoEstate.Netsim.Replay
import DemoEstate.Snmp.Walk

/-!
# The tables the responder serves

The responder builds a device's table once from the text of its walk and then
stores the rows of its refreshes in place, while other threads run.

Main results:

- Theorem {lit}`Device.rendered`: the walk of a device always lists the OIDs its
  refreshes store.
- Theorem {lit}`Reachable.wellFormed`: every table reached is well-formed.
- Theorem {lit}`Reachable.walked_by_getBulk`: a client's walk of it delivers exactly the
  stored pairs above its start.
- Theorem {lit}`not_walked_by_getBulk_high`: a start under 0 whose second arc does not fit the
  first octet is read as another OID.
-/

namespace DemoEstate
namespace Netsim

open Interaction
open Snmp (Row Oid Table parseOid)

/-! ## Devices -/

/-- A device of the responder. -/
inductive Device where
  | synthetic (dev : Synthetic)
  | replay (d : ReplayDevice)

namespace Device

def walk (pf : Platform) (dev : Device) (now : ℚ) : Render Text :=
  match dev with
  | synthetic dev => do
      let rows ← dev.rows pf now
      Render.ofResult (renderWalk rows)
  | replay d => d.walk pf now

def dynamicRows (pf : Platform) (dev : Device) (now : ℚ) : Render (List Row) :=
  match dev with
  | synthetic dev => dev.rows pf now
  | replay d => d.dynamicRows pf now

end Device

/-- The rows of a walk's text; lines without an OID are dropped. -/
def walkRows (text : Text) : List Row :=
  ((Text.splitlines text).map (Text.cut ' ')).filter (·.1 ≠ [])

/-! ## The lines of a rendered walk -/

theorem Numeric.notMem_blank {oid : Text} (h : Numeric oid) : ' ' ∉ oid := by
  intro hc
  rcases h ' ' hc with hdigit | hdot
  · exact absurd hdigit (by decide)
  · exact absurd hdot (by decide)

theorem Numeric.plain {oid : Text} (h : Numeric oid) : Text.Plain oid := by
  intro c hc
  rcases h c hc with hdigit | rfl
  · exact Text.isLineBreak_of_isDigit hdigit
  · rfl

/-- A rendered row starts a line of the walk, whatever the values contain. -/
theorem exists_mem_walkRows {rows : List Row} {row : Row} (hrow : row ∈ rows)
    (hnumeric : Numeric row.1) (hne : row.1 ≠ []) :
    ∃ v, (row.1, v) ∈ walkRows (rows.flatMap rowLine) := by
  rcases List.append_of_mem hrow with ⟨before, after, rfl⟩
  -- the lines split off in front end where the row's line starts
  have hbefore : ∃ ls, Text.splitlines ((before ++ row :: after).flatMap rowLine) =
      ls ++ Text.splitlines ((row :: after).flatMap rowLine) := by
    rcases List.eq_nil_or_concat before with rfl | ⟨init, last, rfl⟩
    · exact ⟨[], rfl⟩
    · have htext : ((init.concat last) ++ row :: after).flatMap rowLine =
          (init.flatMap rowLine ++ (last.1 ++ ' ' :: last.2)) ++
            '\n' :: (row :: after).flatMap rowLine := by
        simp [rowLine]
      rw [Text.splitlines, htext]
      exact Text.linesFrom_break [] _ _
  have hplain : Text.Plain (row.1 ++ [' ']) := hnumeric.plain.append (by decide)
  have hline : ∃ tail ls, Text.splitlines ((row :: after).flatMap rowLine) =
      (row.1 ++ ' ' :: tail) :: ls := by
    have htext : (row :: after).flatMap rowLine =
        (row.1 ++ [' ']) ++ (row.2 ++ '\n' :: after.flatMap rowLine) := by
      simp [rowLine]
    rw [Text.splitlines, htext, Text.linesFrom_append hplain]
    rcases Text.linesFrom_start ((row.1 ++ [' ']).reverse ++ []) (by simp)
      (row.2 ++ '\n' :: after.flatMap rowLine) with ⟨tail, ls, hls⟩
    refine ⟨tail, ls, ?_⟩
    rw [hls]
    simp
  rcases hbefore with ⟨ls₁, hls₁⟩
  rcases hline with ⟨tail, ls₂, hls₂⟩
  refine ⟨tail, List.mem_filter.mpr ⟨?_, by simpa using hne⟩⟩
  rw [hls₁, hls₂, ← Text.cut_append hnumeric.notMem_blank tail]
  exact List.mem_map_of_mem (List.mem_append_right ls₁ List.mem_cons_self)

/-- A rendered walk whose values have no line breaks is read back row by row. -/
theorem walkRows_flatMap_rowLine {rows : List Row}
    (h : ∀ row ∈ rows, Numeric row.1 ∧ Text.Plain row.2) :
    walkRows (rows.flatMap rowLine) = rows.filter (·.1 ≠ []) := by
  have hlines : (Text.splitlines (rows.flatMap rowLine)).map (Text.cut ' ') = rows := by
    induction rows with
    | nil => rfl
    | cons row rows ih =>
        rcases h row List.mem_cons_self with ⟨hnumeric, hplain⟩
        have hline : Text.Plain (row.1 ++ ' ' :: row.2) :=
          hnumeric.plain.append (Text.Plain.cons rfl hplain)
        have htext : (row :: rows).flatMap rowLine =
            (row.1 ++ ' ' :: row.2) ++ '\n' :: rows.flatMap rowLine := by
          simp [rowLine]
        rw [htext, Text.splitlines_line hline, List.map_cons, Text.cut_append hnumeric.notMem_blank,
          ih fun row' hrow' => h row' (List.mem_cons_of_mem row hrow')]
  rw [walkRows, hlines]

/-! ## The OIDs of a device -/

/-- Every answer is possible. -/
def anything : Program.Contract Op Ans :=
  readings (fun _ _ => True) fun _ _ => True

theorem answering_anything {σ : Type} (env : Program.Env σ Op Ans) :
    ∀ s op ans t, True → anything.asks op → env s op ans t → anything.answers op ans ∧ True := by
  intro s op ans t _ _ _
  refine ⟨?_, trivial⟩
  cases op <;> first | trivial | exact fun _ _ => trivial

theorem asks_anything (op : Op) : anything.asks op := by
  cases op <;> trivial

theorem ReplayDevice.allows_anything (d : ReplayDevice) (pf : Platform) (slots : List Slot) :
    d.Allows pf anything slots where
  sample _ _ _ := asks_anything _
  gauge _ _ _ := asks_anything _
  getIdent _ := asks_anything _
  setIdent _ _ _ _ _ := asks_anything _
  raise _ _ _ _ _ := asks_anything _

/-- The OID texts of a synthetic device are dotted numerals. -/
theorem Synthetic.numeric_oids (pf : Platform) (dev : Synthetic) {oid : Text}
    (h : oid ∈ dev.oids pf) : Numeric oid := by
  have hfixed : ∀ oids : List Oid, oid ∈ oids.map oidText → Numeric oid := by
    intro oids hmem
    rcases List.mem_map.mp hmem with ⟨o, -, rfl⟩
    exact numeric_oidText o
  have hiface : ∀ it : Iface, oid ∈ it.oids → Numeric oid := by
    intro it hmem
    simp only [Iface.oids, Iface.rowsOf, List.map_cons, List.map_nil, List.mem_cons,
      List.not_mem_nil, or_false] at hmem
    rcases hmem with rfl | rfl | rfl | rfl | rfl | rfl | rfl | rfl | rfl | rfl | rfl | rfl | rfl |
      rfl | rfl | rfl | rfl | rfl | rfl | rfl | rfl | rfl <;> exact numeric_oidText _
  have hparts : oid ∈ Synthetic.systemOids.map oidText ++ oidText ifNumberOid ::
      (dev.ifaces pf).flatMap Iface.oids ++ dev.platformOids.map oidText → Numeric oid := by
    intro hmem
    simp only [List.mem_append, List.mem_cons, List.mem_flatMap] at hmem
    rcases hmem with (hmem | rfl | ⟨it, -, hmem⟩) | hmem
    · exact hfixed _ hmem
    · exact numeric_oidText _
    · exact hiface it hmem
    · exact hfixed _ hmem
  cases dev with
  | ups => exact hfixed _ h
  | swCore => exact hparts h
  | swAccess num => exact hparts h
  | rtWan => exact hparts h

/-- The walk of a device always lists the OIDs its refreshes store. -/
theorem Device.rendered (pf : Platform) (dev : Device) : ∃ oids : List Text,
    (∀ oid ∈ oids, Numeric oid) ∧
    (∀ now, (dev.walk pf now).Ensures anything fun text =>
      ∃ rows : List Row, text = rows.flatMap rowLine ∧ ∀ oid ∈ oids, ∃ row ∈ rows, row.1 = oid) ∧
    ∀ now, (dev.dynamicRows pf now).Ensures anything fun rows => ∀ row ∈ rows, row.1 ∈ oids := by
  cases dev with
  | synthetic dev =>
      refine ⟨dev.oids pf, fun _ => dev.numeric_oids pf, fun now => ?_, fun now => ?_⟩
      · refine Program.ensures_bind.mpr
          ((Synthetic.rows_ensures pf dev now _ _).mono fun rows hrows => ?_)
        cases htext : renderWalk rows with
        | error e => exact ⟨trivial, fun v => nomatch v⟩
        | ok text =>
            rcases renderWalk_eq_ok htext with ⟨sorted, hsorted, rfl⟩
            refine ⟨sorted, rfl, fun oid hoid => ?_⟩
            rw [← hrows.oids_eq] at hoid
            rcases List.mem_map.mp hoid with ⟨row, hrow, rfl⟩
            exact ⟨row, hsorted.mem_iff.mpr hrow, rfl⟩
      · refine (Synthetic.rows_ensures pf dev now _ _).mono fun rows hrows row hrow => ?_
        rw [← hrows.oids_eq]
        exact List.mem_map_of_mem hrow
  | replay d =>
      rcases ReplayModel.ofRows_segments d.loaded with ⟨pieces, hrows, hsegments⟩
      have hallows := d.allows_anything pf (pieces.filterMap Piece.slot)
      have hslot : ∀ slot ∈ pieces.filterMap Piece.slot, ∃ piece ∈ pieces,
          slot.oid = piece.row.1 := by
        intro slot hslot
        rcases List.mem_filterMap.mp hslot with ⟨piece, hpiece, hslot⟩
        exact ⟨piece, hpiece, (piece.reads slot hslot).oid_eq⟩
      refine ⟨(pieces.filterMap Piece.slot).map Slot.oid, ?_, fun now => ?_, fun now => ?_⟩
      · intro oid hoid
        rcases List.mem_map.mp hoid with ⟨slot, hmem, rfl⟩
        rcases hslot slot hmem with ⟨piece, hpiece, hoid⟩
        have hrow : piece.row ∈ d.file.rows := hrows ▸ List.mem_map_of_mem hpiece
        exact hoid ▸ d.file.numeric _ hrow
      · refine (ReplayDevice.walk_ensures hsegments hallows).mono fun text htext => ?_
        rcases htext with ⟨rows, hrendered, rfl⟩
        refine ⟨rows, rfl, fun oid hoid => ?_⟩
        rcases List.mem_map.mp hoid with ⟨slot, hmem, rfl⟩
        rcases hslot slot hmem with ⟨piece, hpiece, hoid⟩
        rcases hrendered.exists_right hpiece with ⟨row, hrow, hshown⟩
        exact ⟨row, hrow, hshown.1.trans hoid.symm⟩
      · refine (ReplayDevice.dynamicRows_ensures hsegments hallows).mono fun rows hrows row hrow => ?_
        rcases hrows.exists_left hrow with ⟨slot, hmem, hshown⟩
        exact List.mem_map.mpr ⟨slot, (List.mem_filter.mp hmem).1, hshown.1.symm⟩

/-! ## Reachable tables -/

/-- The tables of a device in any environment: built from a walk, and then with the
rows of refreshes stored one by one, in any order. -/
inductive Reachable (pf : Platform) (dev : Device) : Table → Prop
  | build {σ : Type} {env : Program.Env σ Op Ans} {now : ℚ} {s s' : σ} {text : Text} {t : Table}
      (hwalk : (dev.walk pf now).Runs env s text s') (ht : Table.ofRows (walkRows text) = .ok t) :
      Reachable pf dev t
  | store {σ : Type} {env : Program.Env σ Op Ans} {now : ℚ} {s s' : σ} {rows : List Row}
      {row : Row} {t t' : Table} (ht : Reachable pf dev t)
      (hrows : (dev.dynamicRows pf now).Runs env s rows s') (hrow : row ∈ rows)
      (ht' : t.patchRow row = .ok t') : Reachable pf dev t'

namespace Reachable

variable {pf : Platform} {dev : Device} {t : Table}

/-- A refresh stores all its rows. -/
theorem patch {σ : Type} {env : Program.Env σ Op Ans} {now : ℚ} {s s' : σ} {rows : List Row}
    {t' : Table} (ht : Reachable pf dev t) (hrows : (dev.dynamicRows pf now).Runs env s rows s')
    (ht' : t.patch rows = .ok t') : Reachable pf dev t' := by
  have hstores : ∀ (some : List Row) (t₀ : Table), some ⊆ rows → Reachable pf dev t₀ →
      t₀.patch some = .ok t' → Reachable pf dev t' := by
    intro some
    induction some with
    | nil =>
        intro t₀ _ ht₀ hpatch
        cases hpatch
        exact ht₀
    | cons row some ih =>
        intro t₀ hsub ht₀ hpatch
        simp only [Table.patch, List.foldlM_cons, bind, Except.bind] at hpatch
        split at hpatch
        · cases hpatch
        · rename_i t₁ hrow
          exact ih t₁ (List.subset_of_cons_subset hsub)
            (ht₀.store hrows (hsub List.mem_cons_self) hrow) hpatch
  exact hstores rows t (List.Subset.refl rows) ht ht'

/-- Every table reached is well-formed and stores every OID a refresh may store. -/
theorem invariant {oids : List Text} (hnumeric : ∀ oid ∈ oids, Numeric oid)
    (hwalk : ∀ now, (dev.walk pf now).Ensures anything fun text =>
      ∃ rows : List Row, text = rows.flatMap rowLine ∧ ∀ oid ∈ oids, ∃ row ∈ rows, row.1 = oid)
    (hdynamic : ∀ now, (dev.dynamicRows pf now).Ensures anything fun rows =>
      ∀ row ∈ rows, row.1 ∈ oids)
    (ht : Reachable pf dev t) :
    t.WellFormed ∧ ∀ text ∈ oids, ∀ oid, parseOid text = .ok oid → oid ∈ t.value.keys := by
  induction ht with
  | build hrun hbuild =>
      rcases ((hwalk _).of_runs (answering_anything _) hrun trivial).1 with ⟨rows, rfl, hlisted⟩
      refine ⟨Table.ofRows_wellFormed hbuild, fun text htext oid hoid => ?_⟩
      rcases hlisted text htext with ⟨row, hrow, rfl⟩
      have hne : row.1 ≠ [] := by
        intro hnil
        rw [hnil] at hoid
        cases hoid
      rcases exists_mem_walkRows hrow (hnumeric _ htext) hne with ⟨v, hv⟩
      exact (Table.mem_keys_ofRows hbuild).mpr ⟨_, hv, hoid⟩
  | store _ hrun hrow hstore ih =>
      have hmem := ((hdynamic _).of_runs (answering_anything _) hrun trivial).1 _ hrow
      rcases Table.patchRow_wellFormed ih.1 hstore (ih.2 _ hmem) with ⟨hwf, -⟩
      refine ⟨hwf, fun text htext oid hoid => ?_⟩
      rcases Table.patchRow_eq_ok hstore with ⟨stored, -, rfl⟩
      exact Dict.mem_keys_set.mpr (Or.inr (ih.2 text htext oid hoid))

theorem wellFormed (ht : Reachable pf dev t) : t.WellFormed := by
  rcases dev.rendered pf with ⟨oids, hnumeric, hwalk, hdynamic⟩
  exact (ht.invariant hnumeric hwalk hdynamic).1

/-- The OIDs of a table reached are strictly increasing and are its keys, and a
client's walk of it delivers exactly the stored pairs above its start, in order. -/
theorem walked_by_getBulk (ht : Reachable pf dev t) (hserved : ∀ oid ∈ t.oids, Snmp.Served oid) :
    (t.oids.Pairwise (· < ·) ∧ ∀ oid, oid ∈ t.oids ↔ oid ∈ t.value.keys) ∧
      ∀ (requestId : ℤ) (community : Snmp.Bytes) (n : Nat) (start : Oid), 1 ≤ n →
        Snmp.Askable start → Snmp.FitsMemory t requestId community n start →
          ∀ fuel > (t.above start).length, ∃ bindings,
            Snmp.bulkWalk (fun request => Snmp.handleMessage request t none) requestId community n
                fuel start = some bindings ∧
              List.Forall₂ (Snmp.Delivers t) (t.above start) bindings := by
  have hwf := ht.wellFormed
  refine ⟨⟨hwf.increasing, hwf.mem_oids⟩, ?_⟩
  intro requestId community n start hn hask hfits fuel hfuel
  exact Snmp.bulkWalk_eq hwf hserved hn hfits List.mem_cons_self hask hfuel

end Reachable

theorem plain_rack : Text.Plain "rack".toList := by decide

/-- The walk of a device with two fixed rows. -/
def twoRows : ReplayDevice where
  short := "pdu-01".toList
  location := "rack".toList
  file := { content := ".1.3.6.2 b\n.1.3.6.1 a\n".toList, numeric := by decide +kernel }
  model := { ReplayModel.empty with segments := [.static ".1.3.6.2 b\n.1.3.6.1 a\n".toList] }
  loaded := by rfl
  short_plain := by decide
  location_plain := plain_rack

/-- The table of the two rows. -/
def twoRowsTable : Table where
  oids := [[1, 3, 6, 1], [1, 3, 6, 2]]
  value := Dict.ofRows [([1, 3, 6, 2], [4, 1, 98]), ([1, 3, 6, 1], [4, 1, 97])]

theorem reachable_twoRows (pf : Platform) : Reachable pf (.replay twoRows) twoRowsTable := by
  have hwalk : ((Device.replay twoRows).walk pf 0).Runs (fun _ _ _ _ => True) ()
      ".1.3.6.2 b\n.1.3.6.1 a\n".toList () := ⟨by rfl, rfl⟩
  exact .build hwalk (by decide +kernel)

/-- The exchanges of a walk of the two rows are short. -/
theorem fitsMemory_twoRows : Snmp.FitsMemory twoRowsTable 7 [112] 1 [1, 3] := by
  have hshort : ∀ cur ∈ [1, 3] :: twoRowsTable.oids,
      ∃ request reply, Snmp.build 7 [112] Snmp.tGetBulk 0 1 [cur] = .ok request ∧
        Snmp.handleMessage request twoRowsTable none = .ok (some reply) ∧
          request.length < 100 ∧ reply.length < 100 := by
    intro cur hcur
    simp only [twoRowsTable, List.mem_cons, List.not_mem_nil, or_false] at hcur
    rcases hcur with rfl | rfl | rfl <;> exact ⟨_, _, rfl, rfl, by decide, by decide⟩
  intro cur hcur request hrequest
  rcases hshort cur hcur with ⟨request', reply', hbuild, hreply, hlen, hlen'⟩
  cases hrequest.symm.trans hbuild
  refine ⟨lt_trans hlen (by norm_num), fun reply h => ?_⟩
  cases h.symm.trans hreply
  exact lt_trans hlen' (by norm_num)

theorem served_twoRows : ∀ oid ∈ twoRowsTable.oids, Snmp.Served oid := by
  intro oid hoid
  simp only [twoRowsTable, List.mem_cons, List.not_mem_nil, or_false] at hoid
  rcases hoid with rfl | rfl <;> exact ⟨1, 3, _, rfl, by decide, by decide⟩

/-- A walk of the two rows with one repetition a request ends on a full batch. -/
theorem walked_by_getBulk_twoRows : ∃ bindings,
    Snmp.bulkWalk (fun request => Snmp.handleMessage request twoRowsTable none) 7 [112] 1 3 [1, 3] =
        some bindings ∧
      List.Forall₂ (Snmp.Delivers twoRowsTable) [[1, 3, 6, 1], [1, 3, 6, 2]] bindings := by
  have hask : Snmp.Askable [1, 3] := ⟨1, 3, [], rfl, by decide⟩
  have hfuel : 3 > (twoRowsTable.above [1, 3]).length := by decide
  exact ((reachable_twoRows Platform.still).walked_by_getBulk served_twoRows).2 7 [112] 1 [1, 3]
    (by decide) hask fitsMemory_twoRows 3 hfuel

/-- The start 0.45 is sent as the octet of 1.5 and read as that, behind both rows. -/
theorem not_walked_by_getBulk_high :
    ¬ ∀ (pf : Platform) (dev : Device) (t : Table), Reachable pf dev t →
      (∀ oid ∈ t.oids, Snmp.Served oid) →
      ∀ (requestId : ℤ) (community : Snmp.Bytes) (n : Nat) (start : Oid), 1 ≤ n →
        2 ≤ start.length → ∃ fuel bindings,
          Snmp.bulkWalk (fun request => Snmp.handleMessage request t none) requestId community n
              fuel start = some bindings ∧
            List.Forall₂ (Snmp.Delivers t) (t.above start) bindings := by
  intro hclaim
  rcases hclaim Platform.still _ _ (reachable_twoRows Platform.still) served_twoRows 7 [112] 1
    [0, 45] (by decide) (by decide) with ⟨fuel, bindings, hwalk, hdelivered⟩
  have habove : (twoRowsTable.above [0, 45]).length = 2 := by decide
  rw [hdelivered.length_eq] at habove
  cases fuel with
  | zero => cases hwalk
  | succ fuel =>
      -- the first reply already says that the view has ended
      have hstep : Snmp.bulkStep (fun request => Snmp.handleMessage request twoRowsTable none)
          7 [112] 1 [0, 45] = some [⟨[1, 5], Snmp.tEndOfMibView, []⟩] := by decide +kernel
      have hnone : some [] = some bindings := by
        rw [← hwalk, Snmp.bulkWalk, hstep]
        rfl
      cases hnone
      cases habove

end Netsim
end DemoEstate
