import DemoEstate.Snmp.Walk

/-!
# Walking a subtree of a table that is being refreshed

A client asks for one subtree: it sends single-binding GETBULK requests, each from the last OID it
got, until a reply leaves the subtree or the view ends.  The responder reads one cell of a reply
after the other, and a refresh may store new values between two of them.  No OID is read twice for
a reply, so the reply is that of one table in which values of several moments are mixed.

Main definitions:

- Definition {lit}`subtree`: the OIDs below a root.
- Definition {lit}`columnDuring`: a column whose cells are read from the table at different moments.
- Structure {lit}`Mixes`: a table that holds values of several tables.

Main results:

- Theorem {lit}`exists_mixes`: a column read during a refresh is the column of a mixed table.
- Theorem {lit}`exchange_cases`: an exchange delivers the next OIDs of the subtree, or its last ones.
-/

namespace DemoEstate
namespace Snmp

/-! ## Subtrees in order -/

/-- The OIDs below a root; the root itself is not one of them. -/
def subtree (oids : List Oid) (root : Oid) : List Oid :=
  (oids.filter (root < ·)).filter (root.isPrefixOf ·)

/-- Behind an OID that lies above a root and outside of its subtree there is nothing of it. -/
theorem not_prefix_of_lt {root x y : Oid} (hroot : root < x) (hx : ¬ root <+: x) (hxy : x < y) :
    ¬ root <+: y := by
  rintro ⟨rest, rfl⟩
  induction root generalizing x with
  | nil => exact hx (List.nil_prefix)
  | cons a root ih =>
      cases x with
      | nil => exact absurd hroot (List.not_lt_nil _)
      | cons b x =>
          rw [List.cons_append, List.cons_lt_cons_iff] at hxy
          rw [List.cons_lt_cons_iff] at hroot
          rcases hroot with hab | ⟨rfl, hlt⟩
          · rcases hxy with hba | ⟨rfl, -⟩
            · exact absurd hab hba.not_gt
            · exact absurd hab (lt_irrefl _)
          · rcases hxy with hba | ⟨-, hxy⟩
            · exact absurd hba (lt_irrefl _)
            · exact ih hlt (fun h => hx (List.cons_prefix_cons.mpr ⟨rfl, h⟩)) hxy

/-- Where a property does not come back once it is lost, the elements that have it stand in front. -/
theorem takeWhile_eq_filter {α : Type} {p : α → Bool} {l : List α}
    (h : l.Pairwise fun a b => p b = true → p a = true) : l.takeWhile p = l.filter p := by
  induction l with
  | nil => rfl
  | cons a l ih =>
      rcases List.pairwise_cons.mp h with ⟨ha, htail⟩
      by_cases hp : p a = true
      · rw [List.takeWhile_cons_of_pos hp, List.filter_cons_of_pos hp, ih htail]
      · have hnone : l.filter p = [] :=
          List.filter_eq_nil_iff.mpr fun b hb hpb => hp (ha b hb hpb)
        rw [List.takeWhile_cons_of_neg hp, List.filter_cons_of_neg hp, hnone]

/-- A prefix that loses the property somewhere stands for the whole list. -/
theorem takeWhile_take_of_lt {α : Type} {p : α → Bool} {l : List α} {n : Nat}
    (h : ((l.take n).takeWhile p).length < (l.take n).length) :
    (l.take n).takeWhile p = l.takeWhile p := by
  have hsplit := List.take_append_drop n l
  conv_rhs => rw [← hsplit]
  rw [List.takeWhile_append, if_neg (by omega)]

/-- What is left of a subtree above an OID of the walk. -/
def Table.left (t : Table) (root cur : Oid) : List Oid :=
  (t.above cur).takeWhile (root.isPrefixOf ·)

/-- The OIDs above one of the walk are in front of those outside of the subtree. -/
theorem Table.left_eq_filter {t : Table} (ht : t.WellFormed) {root cur : Oid} (hcur : root ≤ cur) :
    t.left root cur = (t.above cur).filter (root.isPrefixOf ·) := by
  refine takeWhile_eq_filter ((ht.increasing.filter _).imp_of_mem fun {a b} ha hb hab hpb => ?_)
  have hlt : root < a := by
    refine lt_of_le_of_lt hcur ?_
    simpa [Table.above] using (List.mem_filter.mp ha).2
  by_contra hpa
  rw [List.isPrefixOf_iff_prefix] at hpa hpb
  exact not_prefix_of_lt hlt hpa hab hpb

theorem Table.left_root {t : Table} (ht : t.WellFormed) (root : Oid) :
    t.left root root = subtree t.oids root :=
  Table.left_eq_filter ht le_rfl

theorem Table.above_congr {t t' : Table} (h : t.oids = t'.oids) (cur : Oid) :
    t.above cur = t'.above cur := by
  rw [above, above, h]

/-! ## Reading during a refresh -/

/-- The repetitions of one column, each read from the table of its moment. -/
def columnDuring (tables : Nat → Table) : Nat → Oid → Nat → Result (List VarBind)
  | _, _, 0 => .ok []
  | i, cur, n + 1 => do
      let vb ← nextVb (tables i) cur
      if vb.valueTlv = endOfMibView then pure [vb]
      else
        let rest ← columnDuring tables (i + 1) vb.oid n
        pure (vb :: rest)

/-- A table with the OIDs that all tables have, and for each OID a value of one of them. -/
structure Mixes (ts : List Table) (m : Table) : Prop where
  wellFormed : m.WellFormed
  oids : ∀ t ∈ ts, m.oids = t.oids
  value : ∀ oid ∈ m.oids, ∃ t ∈ ts, m.get oid = t.get oid

theorem Mixes.self {t : Table} (ht : t.WellFormed) {ts : List Table} (hmem : t ∈ ts)
    (hoids : ∀ t' ∈ ts, t.oids = t'.oids) : Mixes ts t where
  wellFormed := ht
  oids := hoids
  value := fun _ _ => ⟨t, hmem, rfl⟩

section Mixture

variable {tables : Nat → Table} {m : Table} {oids : List Oid}

theorem nextVb_congr {t t' : Table} (ht : t.WellFormed) (ht' : t'.WellFormed)
    (hoids : t.oids = t'.oids) {cur : Oid}
    (hget : ∀ oid, (t.above cur).head? = some oid → t.get oid = t'.get oid) :
    nextVb t cur = nextVb t' cur := by
  rw [nextVb, nextVb, Table.next_eq_head_above ht, Table.next_eq_head_above ht',
    ← Table.above_congr hoids]
  cases hhead : (t.above cur).head? with
  | none => rfl
  | some oid =>
      dsimp only
      rw [hget oid hhead]

/-- The cells of a column are those of a table that has the value of each at its moment. -/
theorem columnDuring_eq (hwf : ∀ i, (tables i).WellFormed) (hoids : ∀ i, (tables i).oids = m.oids)
    (hm : m.WellFormed) {i : Nat} {cur : Oid} {n : Nat}
    (hvalue : ∀ j oid, j < n → (m.above cur)[j]? = some oid →
      (tables (i + j)).get oid = m.get oid) :
    columnDuring tables i cur n = bulkColumn m cur n := by
  induction n generalizing i cur with
  | zero => rfl
  | succ n ih =>
      have hnext : nextVb (tables i) cur = nextVb m cur := by
        refine nextVb_congr (hwf i) hm (hoids i) fun oid hoid => ?_
        rw [Table.above_congr (hoids i), List.head?_eq_getElem?] at hoid
        exact hvalue 0 oid (Nat.succ_pos n) hoid
      rw [columnDuring, bulkColumn, hnext]
      cases habove : m.above cur with
      | nil =>
          have hend : nextVb m cur = .ok ⟨cur, endOfMibView⟩ := by
            rw [nextVb, Table.next_eq_head_above hm, habove]
            rfl
          simp [hend, bind, Except.bind]
      | cons x xs =>
          have hx : x ∈ m.oids := Table.mem_oids_of_mem_above (habove ▸ List.mem_cons_self)
          rcases Table.exists_get_of_mem hm hx with ⟨payload, hget⟩
          have hstored : nextVb m cur = .ok ⟨x, encOctetStr payload⟩ := by
            rw [nextVb, Table.next_eq_head_above hm, habove]
            simp [hget]
          have hrest : columnDuring tables (i + 1) x n = bulkColumn m x n := by
            refine ih fun j oid hj hoid => ?_
            rw [Table.above_head hm habove] at hoid
            rw [Nat.add_right_comm, Nat.add_assoc]
            exact hvalue (j + 1) oid (Nat.succ_lt_succ hj) (by rw [habove]; exact hoid)
          simp [hstored, bind, Except.bind, encOctetStr_ne_endOfMibView, hrest]

/-- A table of some OIDs with one value each. -/
def tableOf (oids : List Oid) (value : Oid → Bytes) : Table where
  oids := oids
  value := Dict.ofRows (oids.map fun oid => (oid, value oid))

theorem get_tableOf {value : Oid → Bytes} (hnodup : oids.Nodup) {oid : Oid} (h : oid ∈ oids) :
    (tableOf oids value).get oid = some (value oid) := by
  refine Dict.get_ofRows_of_nodup ?_ (List.mem_map.mpr ⟨oid, h, rfl⟩)
  simpa [List.map_map, Function.comp_def] using hnodup

theorem wellFormed_tableOf {value : Oid → Bytes} (hoids : oids.Pairwise (· < ·))
    (hvalue : ∀ oid ∈ oids, ∃ payload, value oid = encOctetStr payload) :
    (tableOf oids value).WellFormed := by
  have hkeys : ∀ oid, oid ∈ oids ↔ oid ∈ (tableOf oids value).value.keys := by
    intro oid
    rw [tableOf, Dict.mem_keys_ofRows, List.map_map]
    simp [Function.comp_def]
  refine { increasing := hoids, mem_oids := hkeys, octetStr := fun oid v hget => ?_ }
  have hmem : oid ∈ oids := (hkeys oid).mpr (Dict.mem_keys_iff.mpr ⟨v, hget⟩)
  rw [get_tableOf (hoids.imp ne_of_lt) hmem] at hget
  rcases hvalue oid hmem with ⟨payload, hpayload⟩
  exact ⟨payload, by rw [← hpayload, Option.some.inj hget]⟩

/-- A column that is read while rows are stored is the column of a table that mixes the tables of
its moments: every OID is read once. -/
theorem exists_mixes (hwf : ∀ i, (tables i).WellFormed) (hoids : ∀ i, (tables i).oids = oids)
    (cur : Oid) (n : Nat) :
    ∃ m, Mixes ((List.range (n + 1)).map tables) m ∧
      columnDuring tables 0 cur n = bulkColumn m cur n := by
  have hsorted : oids.Pairwise (· < ·) := hoids 0 ▸ (hwf 0).increasing
  have hnodup : oids.Nodup := hsorted.imp ne_of_lt
  -- the moment at which an OID is read, if it is, is its place above the requested one
  let place : Oid → Nat := fun oid => min n ((oids.filter (cur < ·)).idxOf oid)
  let value : Oid → Bytes := fun oid => ((tables (place oid)).get oid).getD []
  have hvalue : ∀ oid ∈ oids, ∃ payload, (tables (place oid)).get oid = some (encOctetStr payload) :=
    fun oid hoid => Table.exists_get_of_mem (hwf _) (by rw [hoids]; exact hoid)
  have hget : ∀ oid ∈ oids, (tableOf oids value).get oid = (tables (place oid)).get oid := by
    intro oid hoid
    rcases hvalue oid hoid with ⟨payload, hpayload⟩
    rw [get_tableOf hnodup hoid, hpayload]
    exact congrArg some (by simp only [value, hpayload, Option.getD_some])
  have hm : (tableOf oids value).WellFormed := by
    refine wellFormed_tableOf hsorted fun oid hoid => ?_
    rcases hvalue oid hoid with ⟨payload, hpayload⟩
    exact ⟨payload, by simp only [value, hpayload, Option.getD_some]⟩
  refine ⟨tableOf oids value, ⟨hm, ?_, ?_⟩, columnDuring_eq hwf hoids hm ?_⟩
  · intro t ht
    rcases List.mem_map.mp ht with ⟨i, -, rfl⟩
    exact (hoids i).symm
  · intro oid hoid
    refine ⟨_, List.mem_map.mpr ⟨place oid, List.mem_range.mpr ?_, rfl⟩, hget oid hoid⟩
    exact Nat.lt_succ_of_le (min_le_left _ _)
  · intro j oid hj hoid
    have hmem : oid ∈ oids := Table.mem_oids_of_mem_above (List.mem_of_getElem? hoid)
    have hplace : place oid = j := by
      rcases List.getElem?_eq_some_iff.mp hoid with ⟨hlt, rfl⟩
      have hidx := (hnodup.filter (cur < ·)).idxOf_getElem j hlt
      exact (congrArg (min n) hidx).trans (min_eq_right hj.le)
    rw [hget oid hmem, hplace, Nat.zero_add]

end Mixture

/-! ## One exchange of the walk -/

/-- The bindings that the walk takes from a reply: those of the subtree, up to the end of the view. -/
def taken (root : Oid) (bindings : List Binding) : List Binding :=
  bindings.takeWhile fun b => decide (b.tag ≠ tEndOfMibView) && root.isPrefixOf b.oid

section Exchange

variable {m : Table} {root cur : Oid} {requestId : ℤ} {community : Bytes} {n : Nat}

/-- Delivered bindings are taken as long as they belong to the subtree. -/
theorem taken_of_delivers {oids : List Oid} {bindings : List Binding}
    (h : List.Forall₂ (Delivers m) oids bindings) :
    List.Forall₂ (Delivers m) (oids.takeWhile (root.isPrefixOf ·)) (taken root bindings) := by
  induction h with
  | nil => exact .nil
  | @cons oid b oids bindings hb _ ih =>
      have hopen : b.tag ≠ tEndOfMibView := by
        rw [hb.2.1]
        decide
      rw [taken, List.takeWhile_cons, List.takeWhile_cons, hb.1]
      by_cases hin : root.isPrefixOf oid = true
      · simp only [hin, hopen, ne_eq, not_false_eq_true, decide_true, Bool.and_self, if_true]
        exact .cons hb ih
      · simp only [hin, Bool.and_false, if_false, Bool.false_eq_true]
        exact .nil

/-- A reply is taken up to where it leaves the subtree; a reply that does not leave it, and does
not end the view, is a full batch. -/
theorem exchange_cases (hm : m.WellFormed) (hserved : ∀ x ∈ m.oids, Served x)
    (hfits : FitsMemory m requestId community n root) (hcur : cur ∈ root :: m.oids)
    (hask : Askable cur) :
    ∃ bindings, bulkStep (fun request => handleMessage request m none) requestId community n cur =
        some bindings ∧
      (((taken root bindings).length = bindings.length ∧ bindings.length = n ∧
          m.left root cur =
            (m.above cur).take n ++ ((m.above cur).drop n).takeWhile (root.isPrefixOf ·) ∧
          List.Forall₂ (Delivers m) ((m.above cur).take n) (taken root bindings)) ∨
        ((taken root bindings).length < bindings.length ∧
          List.Forall₂ (Delivers m) (m.left root cur) (taken root bindings))) := by
  rcases bulkStep_eq hm hserved hfits hcur hask with ⟨got, closed, hstep, hgot, hend⟩
  refine ⟨got ++ closed, hstep, ?_⟩
  have htaken : List.Forall₂ (Delivers m) (((m.above cur).take n).takeWhile (root.isPrefixOf ·))
      (taken root got) := taken_of_delivers hgot
  have hsplit : taken root (got ++ closed) =
      if (taken root got).length = got.length then got ++ taken root closed else taken root got := by
    rw [taken, List.takeWhile_append]
    rfl
  have hclosed : taken root closed = [] := by
    split at hend
    · rcases List.map_eq_singleton_iff.mp hend with ⟨b, rfl, hb⟩
      simp [taken, hb]
    · rw [hend]
      rfl
  have hall : (taken root got).length = got.length → taken root got = got := by
    intro hlen
    exact (List.takeWhile_prefix _).eq_of_length hlen
  have hcut : taken root (got ++ closed) = taken root got := by
    rw [hsplit]
    split
    · rename_i hlen
      rw [hclosed, List.append_nil, hall hlen]
    · rfl
  rw [hcut, List.length_append]
  have hle : (taken root got).length ≤ got.length := (List.takeWhile_sublist _).length_le
  by_cases hmore : (taken root got).length = got.length ∧ closed = []
  · rcases hmore with ⟨hlen, rfl⟩
    left
    have hfull : n ≤ (m.above cur).length := by
      by_contra hshort
      rw [if_pos (by omega)] at hend
      cases hend
    have hinside : ((m.above cur).take n).takeWhile (root.isPrefixOf ·) = (m.above cur).take n := by
      refine (List.takeWhile_prefix _).eq_of_length ?_
      rw [htaken.length_eq, hgot.length_eq, hlen]
    refine ⟨by simpa using hlen, ?_, ?_, ?_⟩
    · rw [List.length_nil, Nat.add_zero, ← hgot.length_eq, List.length_take, min_eq_left hfull]
    · conv_lhs => rw [Table.left, ← List.take_append_drop n (m.above cur), List.takeWhile_append,
        if_pos (by rw [hinside])]
    · rw [← hinside]
      exact htaken
  · right
    have hshown : ((m.above cur).take n).takeWhile (root.isPrefixOf ·) = m.left root cur := by
      by_cases hlen : (taken root got).length = got.length
      · -- nothing leaves the subtree, so the view ends
        have hne : closed ≠ [] := fun hnil => hmore ⟨hlen, hnil⟩
        have hshort : (m.above cur).length < n := by
          by_contra hlong
          rw [if_neg hlong] at hend
          exact hne hend
        rw [List.take_of_length_le hshort.le]
        rfl
      · refine takeWhile_take_of_lt ?_
        rw [htaken.length_eq, hgot.length_eq]
        omega
    refine ⟨?_, hshown ▸ htaken⟩
    by_contra hnot
    refine hmore ⟨by omega, List.eq_nil_of_length_eq_zero (by omega)⟩

end Exchange

end Snmp
end DemoEstate
