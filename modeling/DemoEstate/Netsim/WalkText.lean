import DemoEstate.Netsim.TableFor

/-!
# Reading a walk's text back

The writer of a walk ends its lines with a line feed, and the reader splits the text at every
line boundary of a string.  The rows are read back exactly where no value has a boundary.

Main definitions:

- Definition {lit}`Dotted`: the OIDs that can be sorted and read.
- Structure {lit}`ReadBack`: what is read from the text of some rows.

Main results:

- Theorem {lit}`parseOid_eq`: a dotted OID is read as its sort key.
- Theorem {lit}`readBack_iff_plain`: when rows are read back.
-/

namespace DemoEstate
namespace Netsim

open Snmp (Row Oid Table parseOid encOctetStr encodeValue)

/-- Decimal numerals with dots between them. -/
def Dotted (oid : Text) : Prop :=
  Numeric oid ∧ (oidKey oid).isSome = true

instance : DecidablePred Dotted := fun _ =>
  inferInstanceAs (Decidable (_ ∧ _))

/-- The table has the value of every row whose OID no other row has. -/
def HoldsRows (t : Table) (rows : List Row) : Prop :=
  ∀ row ∈ rows, ∀ oid, parseOid row.1 = .ok oid →
    (∀ other ∈ rows, parseOid other.1 = .ok oid → other = row) →
    t.get oid = some (encOctetStr (encodeValue row.2))

/-- The lines of the rows, as they stand and sorted, are read as the same rows, and tables are
built of them. -/
structure ReadBack (rows : List Row) : Prop where
  lines : walkRows (rows.flatMap rowLine) = rows
  table : ∃ t, Table.ofRows (walkRows (rows.flatMap rowLine)) = .ok t ∧ HoldsRows t rows
  sorted : ∃ text, renderWalk rows = .ok text ∧ (walkRows text).Perm rows ∧
    (walkRows text).Pairwise rowLe ∧
      ∃ t, Table.ofRows (walkRows text) = .ok t ∧ HoldsRows t rows

section ReadBack

variable {rows rows' : List Row} {oid : Text}

theorem Numeric.strip_isSpace (h : Numeric oid) : Text.strip Text.isSpace oid = oid := by
  have hno : ∀ c ∈ oid, Text.isSpace c = false := by
    intro c hc
    rcases h c hc with hdigit | rfl
    · exact Text.isSpace_of_isDigit hdigit
    · rfl
  have hfront : ∀ s : Text, (∀ c ∈ s, Text.isSpace c = false) → s.dropWhile Text.isSpace = s := by
    intro s hs
    cases s with
    | nil => rfl
    | cons c s => rw [List.dropWhile_cons_of_neg (by simp [hs c List.mem_cons_self])]
  rw [Text.strip, hfront oid hno, hfront _ fun c hc => hno c (List.mem_reverse.mp hc),
    List.reverse_reverse]

/-- A dotted OID is read as its sort key. -/
theorem parseOid_eq (h : Dotted oid) : ∃ arcs, oidKey oid = some arcs ∧ parseOid oid = .ok arcs := by
  rcases Option.isSome_iff_exists.mp h.2 with ⟨arcs, harcs⟩
  refine ⟨arcs, harcs, ?_⟩
  rw [oidKey] at harcs
  rw [parseOid, h.1.strip_isSpace]
  simp only [harcs]

theorem Dotted.ne_nil (h : Dotted oid) : oid ≠ [] := by
  rintro rfl
  exact absurd h.2 (by decide)

/-- What is read from a text has no line boundaries in its values. -/
theorem plain_of_mem_walkRows {text : Text} {row : Row} (h : row ∈ walkRows text) :
    Text.Plain row.2 := by
  rcases List.mem_map.mp (List.mem_filter.mp h).1 with ⟨line, hline, rfl⟩
  intro c hc
  exact Text.plain_of_mem_linesFrom (fun c hc => absurd hc List.not_mem_nil) hline c
    (Text.mem_of_mem_cut hc)

/-- Rows with dotted OIDs build a table that holds them, in whatever order they stand. -/
theorem exists_holdsRows (hperm : rows'.Perm rows) (hdotted : ∀ row ∈ rows, Dotted row.1) :
    ∃ t, Table.ofRows rows' = .ok t ∧ HoldsRows t rows := by
  have hread : ∀ row ∈ rows', ∃ oid, parseOid row.1 = .ok oid := by
    intro row hrow
    rcases parseOid_eq (hdotted row (hperm.mem_iff.mp hrow)) with ⟨arcs, -, harcs⟩
    exact ⟨arcs, harcs⟩
  rcases Table.exists_ofRows hread with ⟨t, ht⟩
  refine ⟨t, ht, fun row hrow oid hoid hunique => ?_⟩
  rcases Table.ofRows_eq_ok ht with ⟨pairs, hpairs, hvalue, -⟩
  rcases Table.get_update_of_rows hpairs Dict.empty (hperm.mem_iff.mpr hrow) hoid with
    ⟨other, hother, hoid', hget⟩
  rw [hunique other (hperm.mem_iff.mp hother) hoid'] at hget
  rw [Table.get, hvalue]
  exact hget

/-- Rows with dotted OIDs and plain values are read from their lines. -/
theorem walkRows_lines (hdotted : ∀ row ∈ rows, Dotted row.1)
    (hplain : ∀ row ∈ rows, Text.Plain row.2) : walkRows (rows.flatMap rowLine) = rows := by
  rw [walkRows_flatMap_rowLine fun row hrow => ⟨(hdotted row hrow).1, hplain row hrow⟩,
    List.filter_eq_self]
  intro row hrow
  simpa using (hdotted row hrow).ne_nil

theorem pairwise_insertionSort_rowLe : (rows.insertionSort rowLe).Pairwise rowLe := by
  have : Std.Total rowLe := ⟨fun _ _ => le_total _ _⟩
  have : IsTrans Row rowLe := ⟨fun _ _ _ => le_trans⟩
  exact List.pairwise_insertionSort rowLe rows

/-- Rows with dotted OIDs are read back, as they stand and sorted, exactly if no value has a
line boundary. -/
theorem readBack_iff_plain (hdotted : ∀ row ∈ rows, Dotted row.1) :
    ReadBack rows ↔ ∀ row ∈ rows, Text.Plain row.2 := by
  constructor
  · intro hread row hrow
    rw [← hread.lines] at hrow
    exact plain_of_mem_walkRows hrow
  · intro hplain
    have hperm : (rows.insertionSort rowLe).Perm rows := List.perm_insertionSort _ _
    have hlines := walkRows_lines hdotted hplain
    have hsorted : walkRows ((rows.insertionSort rowLe).flatMap rowLine) =
        rows.insertionSort rowLe :=
      walkRows_lines (fun row hrow => hdotted row (hperm.mem_iff.mp hrow))
        fun row hrow => hplain row (hperm.mem_iff.mp hrow)
    have hkeys : rows.all (fun row => (oidKey row.1).isSome) = true :=
      List.all_eq_true.mpr fun row hrow => (hdotted row hrow).2
    constructor
    · exact hlines
    · rw [hlines]
      exact exists_holdsRows (List.Perm.refl rows) hdotted
    · refine ⟨_, if_pos hkeys, ?_⟩
      rw [hsorted]
      exact ⟨hperm, pairwise_insertionSort_rowLe, exists_holdsRows hperm hdotted⟩

theorem readBack_iff_plain_twoRows :
    ReadBack [(".1.3.6.2".toList, ['"', 'A', 'B', ' ', '"']), (".1.3.6.1".toList, [])] ↔
      ∀ row ∈ [(".1.3.6.2".toList, ['"', 'A', 'B', ' ', '"']), (".1.3.6.1".toList, [])],
        Text.Plain row.2 :=
  readBack_iff_plain (by decide +kernel)

/-- A value with a vertical tab is cut off there. -/
theorem not_readBack_verticalTab : ¬ ∀ rows : List Row, (∀ row ∈ rows, Dotted row.1) →
    (∀ row ∈ rows, '\n' ∉ row.2 ∧ '\r' ∉ row.2) → ReadBack rows := by
  intro hall
  have hread := hall [(".1.3.6.1".toList, ['a', '\x0b', 'b'])] (by decide +kernel)
    (by decide +kernel)
  exact absurd hread.lines (by decide +kernel)

end ReadBack

end Netsim
end DemoEstate
