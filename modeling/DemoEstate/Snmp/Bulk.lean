import Mathlib.Algebra.Order.BigOperators.Group.List
import DemoEstate.Library.Grid
import DemoEstate.Snmp.Walk

/-!
# The order of a GETBULK reply

A reply to GETBULK lists repetitions row by row: one binding of every column in each row, and
each column goes on from its own last binding.  The responder lists them column by column.

Main definitions:

- Definition {lit}`cell`: the bindings a column goes through.
- Structure {lit}`RowByRow`: the bindings the protocol asks for.
- Definition {lit}`Aligned`: the requests whose columns and rows read alike.

Main results:

- Theorem {lit}`bulkColumn_eq_cells`: a column of the responder.
- Theorem {lit}`rows_iff_cells`: the rows of the protocol.
- Theorem {lit}`inOrder_iff`: when the reply is the one the protocol asks for.
-/

namespace DemoEstate
namespace Snmp

/-! ## What the protocol asks for -/

/-- Rows of bindings, each from the OIDs of the row before. -/
inductive Rows (t : Table) : List Oid → List (List VarBind) → Prop
  | nil (curs : List Oid) : Rows t curs []
  | cons {curs : List Oid} {row : List VarBind} {rows : List (List VarBind)}
      (head : curs.mapM (nextVb t) = .ok row) (tail : Rows t (row.map VarBind.oid) rows) :
      Rows t curs (row :: rows)

/-- The successors of the first OIDs, and the repetitions of the others row by row.  The rows
stop early only after one that is all at the end of the view. -/
structure RowByRow (t : Table) (nonRep maxRep : Nat) (oids : List Oid) (single : List VarBind)
    (rows : List (List VarBind)) : Prop where
  singles : (oids.take nonRep).mapM (nextVb t) = .ok single
  repeats : Rows t (oids.drop nonRep) rows
  length_le : rows.length ≤ maxRep
  stops : rows.length < maxRep → ∃ row, rows.getLast? = some row ∧
    ∀ vb ∈ row, vb.valueTlv = endOfMibView

/-- The reply to a GETBULK request has the bindings the protocol asks for, in its order. -/
def InOrder (t : Table) (nonRep maxRep : Nat) (oids : List Oid) : Prop :=
  ∃ single rows, RowByRow t nonRep maxRep oids single rows ∧
    replyBindings t tGetBulk nonRep maxRep oids = .ok (single ++ rows.flatten)

/-- The repeated OIDs are as many as a power of the repetitions, each one's position in the table
is the first one's and the digit sum of its index, and no column ends before its last row. -/
structure Staircase (t : Table) (repeated : List Oid) (maxRep : Nat) : Prop where
  power : ∃ k, repeated.length = maxRep ^ k
  steps : ∀ i oid, repeated[i]? = some oid → Table.bisectRight t.oids oid =
    Table.bisectRight t.oids (repeated.headD []) + Grid.digitSum maxRep i
  room : ∀ oid ∈ repeated, Table.bisectRight t.oids oid + maxRep ≤ t.oids.length + 1

/-- At most one column or one row, or nothing above any repeated OID, or a staircase. -/
def Aligned (t : Table) (repeated : List Oid) (maxRep : Nat) : Prop :=
  repeated.length ≤ 1 ∨ maxRep ≤ 1 ∨ (∀ oid ∈ repeated, t.next oid = none) ∨
    Staircase t repeated maxRep

/-! ## The bindings of a column -/

/-- The binding a column has after some repetitions. -/
def cell (t : Table) (cur : Oid) (j : Nat) : VarBind :=
  match (t.above cur)[j]? with
  | some x => stored t x
  | none => ⟨(t.above cur).getLast?.getD cur, endOfMibView⟩

section Cells

variable {t : Table} {cur oid : Oid} {curs : List Oid} {j n : Nat}

theorem value_stored_ne (ht : t.WellFormed) (hx : oid ∈ t.oids) :
    (stored t oid).valueTlv ≠ endOfMibView := by
  obtain ⟨payload, hget⟩ := Table.exists_get_of_mem ht hx
  simpa [stored, hget] using encOctetStr_ne_endOfMibView payload

theorem cell_ended_iff (ht : t.WellFormed) (cur : Oid) (j : Nat) :
    (cell t cur j).valueTlv = endOfMibView ↔ (t.above cur).length ≤ j := by
  unfold cell
  cases hx : (t.above cur)[j]? with
  | none => exact iff_of_true rfl (List.getElem?_eq_none_iff.mp hx)
  | some x =>
      have hmem := Table.mem_oids_of_mem_above (List.mem_of_getElem? hx)
      obtain ⟨hlt, -⟩ := List.getElem?_eq_some_iff.mp hx
      exact iff_of_false (value_stored_ne ht hmem) (not_le.mpr hlt)

theorem nextVb_eq_cell (ht : t.WellFormed) (cur : Oid) : nextVb t cur = .ok (cell t cur 0) := by
  cases habove : t.above cur with
  | nil =>
      have hnext : t.next cur = none := by rw [Table.next_eq_head_above ht, habove]; rfl
      simp [nextVb, hnext, cell, habove]
  | cons x xs =>
      have hnext : t.next cur = some x := by rw [Table.next_eq_head_above ht, habove]; rfl
      have hx : x ∈ t.oids := Table.mem_oids_of_mem_above (habove ▸ List.mem_cons_self)
      obtain ⟨payload, hget⟩ := Table.exists_get_of_mem ht hx
      simp [nextVb, hnext, hget, stored, cell, habove]

/-- A column goes on from its own last binding. -/
theorem cell_oid (ht : t.WellFormed) (cur : Oid) (j : Nat) :
    cell t (cell t cur 0).oid j = cell t cur (j + 1) := by
  cases habove : t.above cur with
  | nil =>
      have hcur : (cell t cur 0).oid = cur := by simp [cell, habove]
      rw [hcur]
      simp [cell, habove]
  | cons x xs =>
      have hcur : (cell t cur 0).oid = x := by simp [cell, habove, stored]
      have hxs := Table.above_head ht habove
      have hlast : (x :: xs).getLast? = some (xs.getLast?.getD x) := by
        cases xs with
        | nil => rfl
        | cons y ys => simp [List.getLast?_eq_some_getLast]
      rw [hcur]
      simp only [cell, habove, hxs, List.getElem?_cons_succ, hlast, Option.getD_some]

/-- The responder's column: up to the first binding at the end of the view. -/
theorem bulkColumn_eq_cells (ht : t.WellFormed) (cur : Oid) (n : Nat) :
    bulkColumn t cur n =
      .ok ((List.range (min n ((t.above cur).length + 1))).map (cell t cur)) := by
  induction n generalizing cur with
  | zero => simp [bulkColumn]
  | succ n ih =>
      simp only [bulkColumn, nextVb_eq_cell ht, bind, Except.bind, pure, Except.pure]
      by_cases hend : (cell t cur 0).valueTlv = endOfMibView
      · have hnone := Nat.le_zero.mp ((cell_ended_iff ht cur 0).mp hend)
        rw [if_pos hend, hnone, Nat.zero_add, Nat.min_eq_right (by omega)]
        rfl
      · have hsome : ¬ (t.above cur).length ≤ 0 := fun h => hend ((cell_ended_iff ht cur 0).mpr h)
        obtain ⟨x, xs, habove⟩ : ∃ x xs, t.above cur = x :: xs := by
          cases habove : t.above cur with
          | nil => simp [habove] at hsome
          | cons x xs => exact ⟨x, xs, rfl⟩
        have hcur : (cell t cur 0).oid = x := by simp [cell, habove, stored]
        have hcells : (cell t (cell t cur 0).oid) = cell t cur ∘ Nat.succ :=
          funext fun j => cell_oid ht cur j
        have hlength : (t.above (cell t cur 0).oid).length + 1 = (t.above cur).length := by
          rw [hcur, Table.above_head ht habove, habove, List.length_cons]
        rw [if_neg hend, ih, ← hlength, hcells]
        simp only [Except.ok.injEq]
        rw [Nat.add_min_add_right, List.range_succ_eq_map, List.map_cons, List.map_map]

theorem mapM_nextVb (ht : t.WellFormed) (curs : List Oid) :
    curs.mapM (nextVb t) = .ok (curs.map (cell t · 0)) := by
  induction curs with
  | nil => rfl
  | cons cur curs ih =>
      simp only [List.mapM_cons, nextVb_eq_cell ht, ih, bind, Except.bind, pure, Except.pure,
        List.map_cons]

theorem mapM_bulkColumn (ht : t.WellFormed) (curs : List Oid) (n : Nat) :
    curs.mapM (fun cur => bulkColumn t cur n) =
      .ok (curs.map fun cur =>
        (List.range (min n ((t.above cur).length + 1))).map (cell t cur)) := by
  induction curs with
  | nil => rfl
  | cons cur curs ih =>
      rw [List.mapM_cons, ih, bulkColumn_eq_cells ht]
      rfl

/-- The rows of the protocol, each with one cell of every column. -/
theorem rows_iff_cells (ht : t.WellFormed) {rows : List (List VarBind)} :
    Rows t curs rows ↔
      rows = (List.range rows.length).map fun j => curs.map fun cur => cell t cur j := by
  induction rows generalizing curs with
  | nil => exact iff_of_true (.nil curs) rfl
  | cons row rows ih =>
      have hnext : ∀ cur : Oid, ∀ j, cell t (cell t cur 0).oid j = cell t cur (j + 1) :=
        cell_oid ht
      have hcells : (List.range (rows.length + 1)).map (fun j => curs.map fun cur => cell t cur j) =
          curs.map (cell t · 0) :: (List.range rows.length).map fun j =>
            ((curs.map (cell t · 0)).map VarBind.oid).map fun cur => cell t cur j := by
        rw [List.range_succ_eq_map, List.map_cons, List.map_map]
        simp only [List.map_map, Function.comp_def, hnext]
      rw [List.length_cons, hcells]
      constructor
      · intro hrows
        cases hrows with
        | cons head tail =>
            rw [mapM_nextVb ht, Except.ok.injEq] at head
            subst head
            rw [← ih.mp tail]
      · intro heq
        obtain ⟨hrow, hrest⟩ := List.cons.inj heq
        apply Rows.cons
        · show curs.mapM (nextVb t) = .ok row
          rw [mapM_nextVb ht, hrow]
        · rw [hrow]
          exact ih.mpr hrest

end Cells

/-! ## Columns and rows as a grid -/

section Grid

open Grid (byColumns byRows)

variable {t : Table} {curs : List Oid} {nonRep maxRep c m q q' : Nat}

/-- The grid of the columns' bindings. -/
def cells (t : Table) (curs : List Oid) (i j : Nat) : VarBind :=
  cell t (curs[i]?.getD []) j

theorem map_range_getD (curs : List Oid) :
    (List.range curs.length).map (fun i => curs[i]?.getD []) = curs := by
  apply List.ext_getElem
  · simp
  · intro i hleft hright
    simp [List.getElem?_eq_getElem hright]

theorem flatMap_columns (t : Table) (curs : List Oid) (m : Nat) :
    (curs.flatMap fun cur => (List.range m).map (cell t cur)) =
      byColumns (cells t curs) curs.length m := by
  calc (curs.flatMap fun cur => (List.range m).map (cell t cur))
      = ((List.range curs.length).map fun i => curs[i]?.getD []).flatMap
          fun cur => (List.range m).map (cell t cur) := by rw [map_range_getD]
    _ = byColumns (cells t curs) curs.length m := by rw [List.flatMap_map]; rfl

theorem flatMap_rows (t : Table) (curs : List Oid) (m : Nat) :
    ((List.range m).flatMap fun j => curs.map fun cur => cell t cur j) =
      byRows (cells t curs) curs.length m := by
  have hrow : ∀ j, (curs.map fun cur => cell t cur j) =
      (List.range curs.length).map fun i => cells t curs i j := by
    intro j
    calc (curs.map fun cur => cell t cur j)
        = ((List.range curs.length).map fun i => curs[i]?.getD []).map fun cur => cell t cur j := by
          rw [map_range_getD]
      _ = (List.range curs.length).map fun i => cells t curs i j := by rw [List.map_map]; rfl
  simp only [hrow, byRows]

/-- Pieces of at most some length that fill as many of that length all have it. -/
theorem eq_of_sum_eq {α : Type} {f : α → Nat} {l : List α} (hle : ∀ x ∈ l, f x ≤ m)
    (hsum : (l.map f).sum = l.length * m) : ∀ x ∈ l, f x = m := by
  induction l with
  | nil => simp
  | cons a l ih =>
      have hrest : (l.map f).sum ≤ l.length * m := by
        have hbound := List.sum_le_card_nsmul (l.map f) m fun y hy => by
          obtain ⟨x, hx, rfl⟩ := List.mem_map.mp hy
          exact hle x (List.mem_cons_of_mem _ hx)
        simpa using hbound
      have ha := hle a List.mem_cons_self
      rw [List.map_cons, List.sum_cons, List.length_cons, Nat.succ_mul] at hsum
      intro x hx
      rcases List.mem_cons.mp hx with rfl | hx
      · omega
      · exact ih (fun y hy => hle y (List.mem_cons_of_mem _ hy)) (by omega) x hx

/-- The reply is in order exactly if all columns have one length and their cells are read alike
by columns and by rows. -/
theorem inOrder_iff_byColumns (ht : t.WellFormed) (oids : List Oid) :
    InOrder t nonRep maxRep oids ↔
      ∃ m, (∀ cur ∈ oids.drop nonRep, min maxRep ((t.above cur).length + 1) = m) ∧
        byColumns (cells t (oids.drop nonRep)) (oids.drop nonRep).length m =
          byRows (cells t (oids.drop nonRep)) (oids.drop nonRep).length m := by
  have hreply : replyBindings t tGetBulk nonRep maxRep oids =
      .ok ((oids.take nonRep).map (cell t · 0) ++ (oids.drop nonRep).flatMap fun cur =>
        (List.range (min maxRep ((t.above cur).length + 1))).map (cell t cur)) := by
    have hmax : ∀ n : Nat, (max 0 (n : ℤ)).toNat = n := by omega
    rw [replyBindings, if_neg (by decide), if_neg (by decide), hmax, hmax]
    simp only [mapM_nextVb ht, mapM_bulkColumn ht, bind, Except.bind, pure, Except.pure,
      List.flatMap_def]
  generalize hcurs : oids.drop nonRep = curs at hreply ⊢
  constructor
  · rintro ⟨single, rows, hrows, hout⟩
    have hsingle := hrows.singles
    rw [mapM_nextVb ht, Except.ok.injEq] at hsingle
    rw [hreply, Except.ok.injEq, ← hsingle, List.append_cancel_left_eq] at hout
    have hrepeats := (rows_iff_cells ht).mp (hcurs ▸ hrows.repeats)
    have hcolumns : ∀ cur ∈ curs, min maxRep ((t.above cur).length + 1) = rows.length := by
      apply eq_of_sum_eq
      · intro cur hcur
        by_cases hall : rows.length = maxRep
        · rw [hall]
          exact min_le_left _ _
        · -- the last row is at the end of the view in every column
          have hshort : rows.length < maxRep := lt_of_le_of_ne hrows.length_le hall
          obtain ⟨row, hlast, hend⟩ := hrows.stops hshort
          obtain ⟨n, hn⟩ : ∃ n, rows.length = n + 1 := by
            cases hrows' : rows with
            | nil => simp [hrows'] at hlast
            | cons row rows => exact ⟨rows.length, rfl⟩
          rw [hrepeats, hn, List.range_succ, List.map_append, List.map_singleton,
            List.getLast?_concat, Option.some.injEq] at hlast
          have hcell := hend (cell t cur n) (hlast ▸ List.mem_map_of_mem hcur)
          have hlength := (cell_ended_iff ht cur n).mp hcell
          rw [hn]
          exact (min_le_right _ _).trans (Nat.succ_le_succ hlength)
      · have hlength := congrArg List.length hout
        rw [hrepeats] at hlength
        simpa [List.length_flatMap, List.length_flatten, Function.comp_def, Nat.mul_comm] using hlength
    have hflat : rows.flatten = (List.range rows.length).flatMap fun j =>
        curs.map fun cur => cell t cur j := by
      conv_lhs => rw [hrepeats]
      rw [List.flatMap_def]
    refine ⟨rows.length, hcolumns, ?_⟩
    rw [← flatMap_columns, ← flatMap_rows, ← hflat, ← hout]
    apply List.flatMap_congr
    intro cur hcur
    rw [hcolumns cur hcur]
  · rintro ⟨m, hcolumns, hgrid⟩
    -- without columns the rows are empty, and there are as many as asked for
    obtain ⟨m, hcolumns, hgrid, hm⟩ : ∃ m,
        (∀ cur ∈ curs, min maxRep ((t.above cur).length + 1) = m) ∧
        byColumns (cells t curs) curs.length m = byRows (cells t curs) curs.length m ∧
        (m ≠ maxRep → curs ≠ []) := by
      by_cases hnil : curs = []
      · refine ⟨maxRep, ?_, ?_, fun hne => absurd rfl hne⟩
        · simp [hnil]
        · exact Grid.byColumns_eq_byRows_of_le_one (Or.inl (by simp [hnil]))
      · exact ⟨m, hcolumns, hgrid, fun _ => hnil⟩
    refine ⟨_, (List.range m).map fun j => curs.map fun cur => cell t cur j,
      ⟨mapM_nextVb ht _, ?_, ?_, ?_⟩, ?_⟩
    · rw [hcurs]
      exact (rows_iff_cells ht).mpr (by simp)
    · by_cases hall : m = maxRep
      · simp [hall]
      · obtain ⟨cur, hcur⟩ := List.exists_mem_of_ne_nil _ (hm hall)
        simp [← hcolumns cur hcur]
    · intro hshort
      rw [List.length_map, List.length_range] at hshort
      obtain ⟨cur, hcur⟩ := List.exists_mem_of_ne_nil _ (hm hshort.ne)
      have hpos : m = m - 1 + 1 := by
        have hlength := hcolumns cur hcur
        omega
      refine ⟨curs.map fun cur => cell t cur (m - 1), ?_, ?_⟩
      · rw [hpos, List.range_succ, List.map_append, List.map_singleton, List.getLast?_concat,
          Nat.add_sub_cancel]
      · intro vb hvb
        obtain ⟨cur', hcur', rfl⟩ := List.mem_map.mp hvb
        have hlength := hcolumns cur' hcur'
        exact (cell_ended_iff ht cur' _).mpr (by omega)
    · rw [hreply, ← List.flatMap_def, flatMap_rows, ← hgrid, ← flatMap_columns]
      congr 2
      apply List.flatMap_congr
      intro cur hcur
      rw [hcolumns cur hcur]

/-! ### Positions in the table -/

theorem above_eq_drop (ht : t.WellFormed) (oid : Oid) :
    t.above oid = t.oids.drop (Table.bisectRight t.oids oid) := by
  rw [Table.above, ← Table.dropWhile_le_eq_filter ht.increasing, Table.bisectRight]
  have hsplit := List.takeWhile_append_dropWhile (p := (· ≤ oid)) (l := t.oids)
  conv_rhs => arg 2; rw [← hsplit]
  rw [List.drop_left]

theorem length_above (ht : t.WellFormed) (oid : Oid) :
    (t.above oid).length = t.oids.length - Table.bisectRight t.oids oid := by
  rw [above_eq_drop ht, List.length_drop]

/-- The binding at a position of the table, the end of the view behind its last one. -/
def bindingAt (t : Table) (q : Nat) : VarBind :=
  match t.oids[q]? with
  | some x => stored t x
  | none => ⟨t.oids.getLast?.getD [], endOfMibView⟩

theorem cell_eq_bindingAt (ht : t.WellFormed) {cur : Oid} (hmore : t.above cur ≠ []) (j : Nat) :
    cell t cur j = bindingAt t (Table.bisectRight t.oids cur + j) := by
  have hdrop := above_eq_drop ht cur
  have hlast : (t.above cur).getLast? = t.oids.getLast? := by
    have hlt : Table.bisectRight t.oids cur < t.oids.length := by
      have hpos := List.length_pos_iff.mpr hmore
      rw [length_above ht] at hpos
      omega
    rw [hdrop, List.getLast?_drop, if_neg (by omega)]
  have hget : (t.above cur)[j]? = t.oids[Table.bisectRight t.oids cur + j]? := by
    rw [hdrop, List.getElem?_drop]
  unfold cell bindingAt
  rw [hget, hlast]
  cases hx : t.oids[Table.bisectRight t.oids cur + j]? with
  | some x => rfl
  | none =>
      cases hoids : t.oids with
      | nil => simp [hdrop, hoids] at hmore
      | cons x xs => simp [List.getLast?_eq_some_getLast]

/-- Positions up to the one behind the last are told apart by their bindings. -/
theorem bindingAt_injective (ht : t.WellFormed) (hq : q ≤ t.oids.length)
    (hq' : q' ≤ t.oids.length) : bindingAt t q = bindingAt t q' ↔ q = q' := by
  constructor
  · intro heq
    have hnodup : t.oids.Nodup := ht.increasing.imp fun h => ne_of_lt h
    unfold bindingAt at heq
    cases hx : t.oids[q]? with
    | none =>
        have hend := List.getElem?_eq_none_iff.mp hx
        cases hy : t.oids[q']? with
        | none =>
            have hend' := List.getElem?_eq_none_iff.mp hy
            omega
        | some y =>
            simp only [hx, hy] at heq
            have hvalue := congrArg VarBind.valueTlv heq
            exact absurd hvalue.symm (value_stored_ne ht (List.mem_of_getElem? hy))
    | some x =>
        cases hy : t.oids[q']? with
        | none =>
            simp only [hx, hy] at heq
            have hvalue := congrArg VarBind.valueTlv heq
            exact absurd hvalue (value_stored_ne ht (List.mem_of_getElem? hx))
        | some y =>
            simp only [hx, hy] at heq
            have hsame : x = y := congrArg VarBind.oid heq
            subst hsame
            obtain ⟨hlt, -⟩ := List.getElem?_eq_some_iff.mp hx
            exact (List.getElem?_inj hlt hnodup).mp (hx.trans hy.symm)
  · rintro rfl
    rfl

/-- Several columns of the same length, of several bindings, are read alike exactly if their
positions climb a staircase. -/
theorem byColumns_eq_byRows_iff_steps (ht : t.WellFormed) (hc : 2 ≤ curs.length) (hm : 2 ≤ m)
    (hroom : ∀ cur ∈ curs, m ≤ (t.above cur).length + 1) :
    byColumns (cells t curs) curs.length m = byRows (cells t curs) curs.length m ↔
      (∃ k, curs.length = m ^ k) ∧ ∀ i oid, curs[i]? = some oid →
        Table.bisectRight t.oids oid =
          Table.bisectRight t.oids (curs.headD []) + Grid.digitSum m i := by
  let p : Nat → Nat := fun i => Table.bisectRight t.oids (curs[i]?.getD [])
  have hcell : ∀ i < curs.length, ∀ j < m,
      cells t curs i j = bindingAt t (p i + j) ∧ p i + j ≤ t.oids.length := by
    intro i hi j hj
    have hcur : curs[i]?.getD [] ∈ curs := by simp [List.getElem?_eq_getElem hi]
    have hlength := hroom _ hcur
    have hmore : t.above (curs[i]?.getD []) ≠ [] := by
      intro hnil
      rw [hnil, List.length_nil] at hlength
      omega
    rw [length_above ht] at hlength
    refine ⟨cell_eq_bindingAt ht hmore j, ?_⟩
    have hpos := List.length_pos_iff.mpr hmore
    rw [length_above ht] at hpos
    simp only [p]
    omega
  have hpositions : byColumns (cells t curs) curs.length m = byRows (cells t curs) curs.length m ↔
      ∀ k < curs.length * m, p (k / m) + k % m = p (k % curs.length) + k / curs.length := by
    rw [Grid.byColumns_eq_byRows_iff]
    refine forall_congr' fun k => imp_congr_right fun hk => ?_
    obtain ⟨hleft, hle⟩ := hcell (k / m) (Nat.div_lt_of_lt_mul (by rwa [Nat.mul_comm])) (k % m)
      (Nat.mod_lt _ (by omega))
    obtain ⟨hright, hle'⟩ := hcell (k % curs.length) (Nat.mod_lt _ (by omega)) (k / curs.length)
      (Nat.div_lt_of_lt_mul hk)
    rw [hleft, hright]
    exact bindingAt_injective ht hle hle'
  have hhead : p 0 = Table.bisectRight t.oids (curs.headD []) := by
    cases curs with
    | nil => rfl
    | cons cur curs => rfl
  rw [hpositions, Grid.staircase_iff hc hm, hhead]
  refine and_congr_right fun _ => ?_
  constructor
  · intro hall i oid hget
    have hi := hall i (List.getElem?_eq_some_iff.mp hget).1
    simpa [p, hget] using hi
  · intro hall i hi
    simpa [p, List.getElem?_eq_getElem hi] using hall i _ (List.getElem?_eq_getElem hi)

/-- A reply to GETBULK is in the protocol's order exactly for aligned requests. -/
theorem inOrder_iff (ht : t.WellFormed) (nonRep maxRep : Nat) (oids : List Oid) :
    InOrder t nonRep maxRep oids ↔ Aligned t (oids.drop nonRep) maxRep := by
  rw [inOrder_iff_byColumns ht]
  generalize oids.drop nonRep = curs
  constructor
  · rintro ⟨m, hcolumns, hgrid⟩
    by_contra hnot
    simp only [Aligned, not_or, not_le, not_forall] at hnot
    obtain ⟨hc, hrep, ⟨oid, hoid, hnext⟩, hstair⟩ := hnot
    rw [Table.next_eq_head_above ht, List.head?_eq_none_iff] at hnext
    have hpos := List.length_pos_iff.mpr hnext
    have hm : 2 ≤ m := by
      have hlength := hcolumns oid hoid
      omega
    have hroom : ∀ cur ∈ curs, m ≤ (t.above cur).length + 1 := fun cur hcur =>
      (hcolumns cur hcur).ge.trans (min_le_right _ _)
    obtain ⟨hpower, hsteps⟩ := (byColumns_eq_byRows_iff_steps ht hc hm hroom).mp hgrid
    -- columns that end together start together, but a staircase climbs
    have hall : m = maxRep := by
      by_contra hne
      have hsame : ∀ cur ∈ curs, Table.bisectRight t.oids cur + m = t.oids.length + 1 := by
        intro cur hcur
        have hlength := hcolumns cur hcur
        rw [length_above ht] at hlength
        omega
      have hzero := hsame _ (List.getElem_mem (show 0 < curs.length by omega))
      have hone := hsame _ (List.getElem_mem (show 1 < curs.length by omega))
      have hfirst := hsteps 0 _ (List.getElem?_eq_getElem (show 0 < curs.length by omega))
      have hsecond := hsteps 1 _ (List.getElem?_eq_getElem (show 1 < curs.length by omega))
      rw [Grid.digitSum_of_lt hm (by omega)] at hfirst hsecond
      omega
    subst hall
    apply hstair
    refine ⟨hpower, hsteps, fun cur hcur => ?_⟩
    have hlength := hroom cur hcur
    rw [length_above ht] at hlength
    omega
  · intro haligned
    by_cases hc : curs.length ≤ 1
    · have hsame : ∃ m, ∀ cur ∈ curs, min maxRep ((t.above cur).length + 1) = m := by
        match curs, hc with
        | [], _ => exact ⟨0, by simp⟩
        | [cur], _ => exact ⟨min maxRep ((t.above cur).length + 1), by simp⟩
      obtain ⟨m, hm⟩ := hsame
      exact ⟨m, hm, Grid.byColumns_eq_byRows_of_le_one (Or.inl hc)⟩
    by_cases hrep : maxRep ≤ 1
    · exact ⟨maxRep, fun cur _ => by omega, Grid.byColumns_eq_byRows_of_le_one (Or.inr hrep)⟩
    rcases (haligned.resolve_left hc).resolve_left hrep with hnone | hstair
    · refine ⟨min maxRep 1, ?_, Grid.byColumns_eq_byRows_of_le_one (Or.inr (min_le_right _ _))⟩
      intro cur hcur
      have hnext := hnone cur hcur
      rw [Table.next_eq_head_above ht, List.head?_eq_none_iff] at hnext
      rw [hnext, List.length_nil]
    · have hroom : ∀ cur ∈ curs, maxRep ≤ (t.above cur).length + 1 := by
        intro cur hcur
        have hfits := hstair.room cur hcur
        rw [length_above ht]
        omega
      refine ⟨maxRep, fun cur hcur => min_eq_left (hroom cur hcur), ?_⟩
      exact (byColumns_eq_byRows_iff_steps ht (not_le.mp hc) (not_le.mp hrep) hroom).mpr
        ⟨hstair.power, hstair.steps⟩

/-- A table of three rows. -/
def threeRows : Table where
  oids := [[1, 3, 6, 1], [1, 3, 6, 2], [1, 3, 6, 3]]
  value := Dict.ofRows
    [([1, 3, 6, 1], [4, 1, 97]), ([1, 3, 6, 2], [4, 1, 98]), ([1, 3, 6, 3], [4, 1, 99])]

theorem wellFormed_threeRows : threeRows.WellFormed := by
  have hrows : Table.ofRows [(".1.3.6.1".toList, ['a']), (".1.3.6.2".toList, ['b']),
      (".1.3.6.3".toList, ['c'])] = .ok threeRows := by decide +kernel
  exact Table.ofRows_wellFormed hrows

theorem inOrder_iff_threeRows :
    InOrder threeRows 0 2 [[1, 3, 6], [1, 3, 6, 1]] ↔
      Aligned threeRows [[1, 3, 6], [1, 3, 6, 1]] 2 :=
  inOrder_iff wellFormed_threeRows 0 2 [[1, 3, 6], [1, 3, 6, 1]]

/-- Two columns that start two rows apart are listed one after the other. -/
theorem not_inOrder_threeRows : ¬ ∀ t : Table, t.WellFormed → ∀ nonRep maxRep oids,
    InOrder t nonRep maxRep oids := by
  intro hall
  have horder := hall threeRows wellFormed_threeRows 0 2 [[1, 3, 6], [1, 3, 6, 2]]
  obtain ⟨m, hcolumns, hgrid⟩ := (inOrder_iff_byColumns wellFormed_threeRows _).mp horder
  have hm : m = 2 := (hcolumns [1, 3, 6] (by decide)).symm.trans (by decide +kernel)
  subst hm
  exact absurd hgrid (by decide +kernel)

end Grid

end Snmp
end DemoEstate
