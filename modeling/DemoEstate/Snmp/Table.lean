import Mathlib.Data.List.Lex
import Mathlib.Data.List.Sort
import DemoEstate.Library.Dict
import DemoEstate.Library.Related
import DemoEstate.Snmp.Ber

/-!
# The OID table of a device

The responder serves a device from a sorted list of OIDs and a dictionary of
encoded values.  A table is built from all rows of a walk and then patched in
place with the rows that change.

Main results:

- Theorem {lit}`ofRows_wellFormed` and {lit}`patchRow_wellFormed`: the build
  establishes and a patch of present OIDs keeps the table's invariant.
- Theorem {lit}`next_eq_head_above`: the successor lookup returns the first
  stored OID above the given one.
-/

namespace DemoEstate
namespace Snmp

/-! ## OID and value texts -/

/-- Read a dotted OID of decimal arcs.  Here anything else raises, where `int` also takes an arc
with a sign, blanks, underscores or other digits. -/
def parseOid (text : Text) : Result Oid :=
  let arcs := ((Text.strip (· == '.') (Text.strip Text.isSpace text)).splitOn '.').mapM Text.intOf
  match arcs with
  | some oid => .ok oid
  | none => .error .valueError

/-- The value of a hexadecimal digit. -/
def hexDigit (c : Char) : Option Nat :=
  if c.isDigit then some (c.toNat - '0'.toNat)
  else if 'a' ≤ c ∧ c ≤ 'f' then some (c.toNat - 'a'.toNat + 10)
  else if 'A' ≤ c ∧ c ≤ 'F' then some (c.toNat - 'A'.toNat + 10)
  else none

/-- The bytes of hexadecimal pairs, each followed by a space, up to the closing quote. -/
def hexPairs : Text → Option Bytes
  | ['"'] => some []
  | ['"', '\n'] => some []
  | a :: b :: ' ' :: rest => do
      let hi ← hexDigit a
      let lo ← hexDigit b
      let bytes ← hexPairs rest
      some (UInt8.ofNat (hi * 16 + lo) :: bytes)
  | _ => none

/-- The UTF-8 octets of a text. -/
def utf8 (s : Text) : Bytes :=
  s.flatMap String.utf8EncodeChar

theorem utf8_injective : Function.Injective utf8 := by
  intro s t h
  have hencode : s.utf8Encode = t.utf8Encode := congrArg List.toByteArray h
  apply String.ofList_injective
  apply String.toByteArray_inj.mp
  rw [String.toByteArray_ofList, String.toByteArray_ofList, hencode]

/-- The payload of a walk value: quoted hexadecimal pairs, or the literal text. -/
def encodeValue (walkValue : Text) : Bytes :=
  match walkValue with
  | '"' :: rest => (hexPairs rest).getD (utf8 walkValue)
  | _ => utf8 walkValue

/-! ## Tables -/

/-- A row of a walk: the texts of its OID and its value. -/
abbrev Row := Text × Text

/-- The sorted OIDs and the encoded value of each. -/
structure Table where
  oids : List Oid
  value : Dict Oid Bytes
deriving DecidableEq

namespace Table

/-- A row with its OID read and its value encoded. -/
def encodeRow (row : Row) : Result (Oid × Bytes) := do
  let oid ← parseOid row.1
  pure (oid, encOctetStr (encodeValue row.2))

/-- Build the table of a list of rows. -/
def ofRows (rows : List Row) : Result Table := do
  let pairs ← rows.mapM encodeRow
  let value := Dict.ofRows pairs
  pure { oids := value.keys.insertionSort (· ≤ ·), value := value }

/-- Overwrite the value of one row's OID. -/
def patchRow (t : Table) (row : Row) : Result Table := do
  let pair ← encodeRow row
  pure { t with value := t.value.set pair.1 pair.2 }

/-- Overwrite the values of the given rows, one by one. -/
def patch (t : Table) (rows : List Row) : Result Table :=
  rows.foldlM patchRow t

def get (t : Table) (oid : Oid) : Option Bytes :=
  t.value.get oid

/-- The number of entries of a sorted list that are at most the given one. -/
def bisectRight (oids : List Oid) (oid : Oid) : Nat :=
  (oids.takeWhile (· ≤ oid)).length

/-- The first stored OID strictly greater than the given one. -/
def next (t : Table) (oid : Oid) : Option Oid :=
  t.oids[bisectRight t.oids oid]?

/-! ## The invariant -/

/-- The OIDs are strictly increasing and are the keys; values are octet strings. -/
structure WellFormed (t : Table) : Prop where
  increasing : t.oids.Pairwise (· < ·)
  mem_oids : ∀ oid, oid ∈ t.oids ↔ oid ∈ t.value.keys
  octetStr : ∀ oid v, t.get oid = some v → ∃ payload, v = encOctetStr payload

theorem encodeRow_eq_ok {row : Row} {pair : Oid × Bytes} (h : encodeRow row = .ok pair) :
    parseOid row.1 = .ok pair.1 ∧ pair.2 = encOctetStr (encodeValue row.2) := by
  simp only [encodeRow, bind, Except.bind] at h
  split at h
  · cases h
  · rename_i oid hoid
    cases h
    exact ⟨hoid, rfl⟩

/-- Reading a list of rows reads every row. -/
theorem mapM_encodeRow {rows : List Row} {pairs : List (Oid × Bytes)}
    (h : rows.mapM encodeRow = .ok pairs) :
    List.Forall₂ (fun row pair => encodeRow row = .ok pair) rows pairs := by
  induction rows generalizing pairs with
  | nil =>
      cases h
      exact .nil
  | cons row rows ih =>
      simp only [List.mapM_cons, bind, Except.bind] at h
      split at h
      · cases h
      · rename_i pair hpair
        split at h
        · cases h
        · rename_i rest hrest
          cases h
          exact .cons hpair (ih hrest)

theorem ofRows_eq_ok {rows : List Row} {t : Table} (h : ofRows rows = .ok t) :
    ∃ pairs, List.Forall₂ (fun row pair => encodeRow row = .ok pair) rows pairs ∧
      t.value = Dict.ofRows pairs ∧ t.oids = t.value.keys.insertionSort (· ≤ ·) := by
  simp only [ofRows, bind, Except.bind] at h
  split at h
  · cases h
  · rename_i pairs hpairs
    cases h
    exact ⟨pairs, mapM_encodeRow hpairs, rfl, rfl⟩

/-- Rows that can be read build the table of what is read. -/
theorem ofRows_of_encodeRow {rows : List Row} {pairs : List (Oid × Bytes)}
    (h : List.Forall₂ (fun row pair => encodeRow row = .ok pair) rows pairs) :
    ofRows rows = .ok ⟨(Dict.ofRows pairs).keys.insertionSort (· ≤ ·), Dict.ofRows pairs⟩ := by
  have hpairs : rows.mapM encodeRow = .ok pairs := by
    induction h with
    | nil => rfl
    | cons hpair _ ih => simp only [List.mapM_cons, hpair, ih, bind, Except.bind, pure, Except.pure]
  simp only [ofRows, hpairs, bind, Except.bind, pure, Except.pure]

/-- Rows that can be read make a table. -/
theorem exists_ofRows {rows : List Row} (h : ∀ row ∈ rows, ∃ oid, parseOid row.1 = .ok oid) :
    ∃ t, ofRows rows = .ok t := by
  have hpairs : ∃ pairs, List.Forall₂ (fun row pair => encodeRow row = .ok pair) rows pairs := by
    induction rows with
    | nil => exact ⟨[], .nil⟩
    | cons row rest ih =>
        rcases h row List.mem_cons_self with ⟨oid, hoid⟩
        rcases ih fun row' hrow' => h row' (List.mem_cons_of_mem row hrow') with ⟨pairs, hpairs⟩
        have hrow : encodeRow row = .ok (oid, encOctetStr (encodeValue row.2)) := by
          rw [encodeRow, hoid]
          rfl
        exact ⟨_, .cons hrow hpairs⟩
  rcases hpairs with ⟨pairs, hpairs⟩
  exact ⟨_, ofRows_of_encodeRow hpairs⟩

/-- Rows that can be read patch a table with what is read. -/
theorem patch_of_encodeRow {rows : List Row} {pairs : List (Oid × Bytes)}
    (h : List.Forall₂ (fun row pair => encodeRow row = .ok pair) rows pairs) (t : Table) :
    t.patch rows = .ok { t with value := t.value.update pairs } := by
  induction h generalizing t with
  | nil => rfl
  | cons hpair _ ih =>
      simp only [patch, patchRow, List.foldlM_cons, hpair, bind, Except.bind, pure, Except.pure]
      exact ih _

/-- The OIDs of a built table are those of its rows. -/
theorem mem_keys_ofRows {rows : List Row} {t : Table} (h : ofRows rows = .ok t) {oid : Oid} :
    oid ∈ t.value.keys ↔ ∃ row ∈ rows, parseOid row.1 = .ok oid := by
  rcases ofRows_eq_ok h with ⟨pairs, hpairs, hvalue, -⟩
  rw [hvalue, Dict.mem_keys_ofRows]
  clear h hvalue
  induction hpairs with
  | nil => simp
  | cons hpair _ ih =>
      have hoid := (encodeRow_eq_ok hpair).1
      simp only [List.map_cons, List.mem_cons, ih, exists_eq_or_imp, hoid, Except.ok.injEq]
      rw [eq_comm]

/-- A stored value of a built table is the value of one of its rows. -/
theorem exists_row_of_get {rows : List Row} {t : Table} (h : ofRows rows = .ok t) {oid : Oid}
    {v : Bytes} (hget : t.get oid = some v) :
    ∃ row ∈ rows, parseOid row.1 = .ok oid ∧ v = encOctetStr (encodeValue row.2) := by
  rcases ofRows_eq_ok h with ⟨pairs, hpairs, hvalue, -⟩
  have hmem : oid ∈ pairs.map Prod.fst := by
    rw [← Dict.mem_keys_ofRows, ← hvalue]
    exact Dict.mem_keys_iff.mpr ⟨v, hget⟩
  rcases Dict.get_update_of_mem Dict.empty hmem with ⟨v', hv', hget'⟩
  rw [get, hvalue, Dict.ofRows, hget', Option.some.injEq] at hget
  rcases hpairs.exists_left hv' with ⟨row, hrow, hencode⟩
  rcases encodeRow_eq_ok hencode with ⟨hoid, hval⟩
  exact ⟨row, hrow, hoid, hget ▸ hval⟩

theorem patch_eq_ok {rows : List Row} {t t' : Table} (h : t.patch rows = .ok t') :
    ∃ pairs, List.Forall₂ (fun row pair => encodeRow row = .ok pair) rows pairs ∧
      t' = { t with value := t.value.update pairs } := by
  induction rows generalizing t with
  | nil =>
      cases h
      exact ⟨[], .nil, rfl⟩
  | cons row rows ih =>
      simp only [patch, patchRow, List.foldlM_cons, bind, Except.bind] at h
      split at h
      · cases h
      · rename_i t₁ hrow
        split at hrow
        · cases hrow
        · rename_i pair hpair
          cases hrow
          rcases ih h with ⟨pairs, hpairs, rfl⟩
          exact ⟨pair :: pairs, .cons hpair hpairs, rfl⟩

/-- What the pairs of rows write under an OID is the value of a row with this OID. -/
theorem get_update_of_rows {rows : List Row} {pairs : List (Oid × Bytes)}
    (hpairs : List.Forall₂ (fun row pair => encodeRow row = .ok pair) rows pairs)
    (d : Dict Oid Bytes) {row : Row} (hrow : row ∈ rows) {oid : Oid}
    (hoid : parseOid row.1 = .ok oid) :
    ∃ row' ∈ rows, parseOid row'.1 = .ok oid ∧
      (d.update pairs).get oid = some (encOctetStr (encodeValue row'.2)) := by
  rcases hpairs.exists_right hrow with ⟨pair, hpair, hencode⟩
  have hkey : pair.1 = oid := by
    rw [(encodeRow_eq_ok hencode).1] at hoid
    exact Except.ok.inj hoid
  have hmem : oid ∈ pairs.map Prod.fst := List.mem_map.mpr ⟨pair, hpair, hkey⟩
  rcases Dict.get_update_of_mem d hmem with ⟨v, hv, hget⟩
  rcases hpairs.exists_left hv with ⟨row', hrow', hencode'⟩
  rcases encodeRow_eq_ok hencode' with ⟨hoid', hvalue⟩
  exact ⟨row', hrow', hoid', hvalue ▸ hget⟩

/-- A built table is well-formed. -/
theorem ofRows_wellFormed {rows : List Row} {t : Table} (h : ofRows rows = .ok t) :
    t.WellFormed := by
  rcases ofRows_eq_ok h with ⟨pairs, hpairs, hvalue, hoids⟩
  refine { increasing := ?_, mem_oids := ?_, octetStr := ?_ }
  · have hle : (t.value.keys.insertionSort (· ≤ ·)).Pairwise (· ≤ ·) :=
      List.pairwise_insertionSort _ _
    have hnodup : (t.value.keys.insertionSort (· ≤ ·)).Nodup :=
      (List.perm_insertionSort _ _).nodup_iff.mpr t.value.nodup
    rw [hoids]
    exact hle.imp₂ (fun _ _ => lt_of_le_of_ne) hnodup
  · intro oid
    rw [hoids, List.mem_insertionSort]
  · intro oid v hget
    rcases exists_row_of_get h hget with ⟨row, -, -, hv⟩
    exact ⟨_, hv⟩

theorem patchRow_eq_ok {t t' : Table} {row : Row} (h : t.patchRow row = .ok t') :
    ∃ oid, parseOid row.1 = .ok oid ∧
      t' = { t with value := t.value.set oid (encOctetStr (encodeValue row.2)) } := by
  simp only [patchRow, bind, Except.bind] at h
  split at h
  · cases h
  · rename_i pair hpair
    rcases encodeRow_eq_ok hpair with ⟨hoid, hvalue⟩
    cases h
    exact ⟨pair.1, hoid, by rw [hvalue]⟩

/-- Patching a present OID keeps the table well-formed. -/
theorem patchRow_wellFormed {t t' : Table} {row : Row} (ht : t.WellFormed)
    (h : t.patchRow row = .ok t') (hpresent : ∀ oid, parseOid row.1 = .ok oid → oid ∈ t.value.keys) :
    t'.WellFormed ∧ t'.oids = t.oids := by
  rcases patchRow_eq_ok h with ⟨oid, hoid, rfl⟩
  refine ⟨{ increasing := ht.increasing, mem_oids := ?_, octetStr := ?_ }, rfl⟩
  · intro oid'
    rw [Dict.keys_set_of_mem (hpresent oid hoid)]
    exact ht.mem_oids oid'
  · intro oid' v hget
    simp only [get, Dict.get_set] at hget
    split at hget
    · cases hget
      exact ⟨_, rfl⟩
    · exact ht.octetStr oid' v hget

/-! ## The successor lookup -/

/-- The stored OIDs above a given one. -/
def above (t : Table) (oid : Oid) : List Oid :=
  t.oids.filter (oid < ·)

theorem getElem?_length_takeWhile {α : Type} (p : α → Bool) (l : List α) :
    l[(l.takeWhile p).length]? = (l.dropWhile p).head? := by
  induction l with
  | nil => rfl
  | cons a l ih =>
      by_cases ha : p a = true
      · simp [ha, ih]
      · simp [ha]

/-- In an increasing list, what is left after the small entries is what is large. -/
theorem dropWhile_le_eq_filter {oids : List Oid} (h : oids.Pairwise (· < ·)) (oid : Oid) :
    oids.dropWhile (· ≤ oid) = oids.filter (oid < ·) := by
  induction oids with
  | nil => rfl
  | cons a oids ih =>
      rcases List.pairwise_cons.mp h with ⟨ha, htail⟩
      by_cases hle : a ≤ oid
      · simp [hle, not_lt.mpr hle, ih htail]
      · have hlt : oid < a := not_le.mp hle
        have hall : oids.filter (oid < ·) = oids :=
          List.filter_eq_self.mpr fun x hx => by simpa using hlt.trans (ha x hx)
        simp [hle, hlt, hall]

/-- The lookup returns the first stored OID above the given one. -/
theorem next_eq_head_above {t : Table} (ht : t.WellFormed) (oid : Oid) :
    t.next oid = (t.above oid).head? := by
  rw [next, bisectRight, getElem?_length_takeWhile, dropWhile_le_eq_filter ht.increasing, above]

/-- Above the first OID above lie the others. -/
theorem above_head {t : Table} (ht : t.WellFormed) {oid x : Oid} {xs : List Oid}
    (h : t.above oid = x :: xs) : t.above x = xs := by
  have hx : oid < x := by
    have hmem : x ∈ t.above oid := h ▸ List.mem_cons_self
    simpa [above] using (List.mem_filter.mp hmem).2
  have hsorted : (x :: xs).Pairwise (· < ·) := h ▸ ht.increasing.filter _
  have habove : t.above x = (t.above oid).filter (x < ·) := by
    rw [above, above, List.filter_filter]
    refine List.filter_congr fun y _ => ?_
    by_cases hy : x < y <;> simp [hy, hx.trans]
  rw [habove, h, List.filter_cons_of_neg (by simp), List.filter_eq_self]
  intro y hy
  simpa using (List.pairwise_cons.mp hsorted).1 y hy

/-- Above the last of some OIDs above lie the remaining ones. -/
theorem above_getLast {t : Table} (ht : t.WellFormed) {oid : Oid} {xs ys : List Oid} (hne : xs ≠ [])
    (h : t.above oid = xs ++ ys) : t.above (xs.getLast hne) = ys := by
  induction xs generalizing oid with
  | nil => exact absurd rfl hne
  | cons x xs ih =>
      have hx := above_head ht (h.trans (List.cons_append))
      cases xs with
      | nil => simpa using hx
      | cons x' xs' =>
          rw [List.getLast_cons (by simp)]
          exact ih (by simp) hx

theorem mem_oids_of_mem_above {t : Table} {oid x : Oid} (h : x ∈ t.above oid) : x ∈ t.oids :=
  (List.mem_filter.mp h).1

/-- A stored OID has a stored octet string. -/
theorem exists_get_of_mem {t : Table} (ht : t.WellFormed) {oid : Oid} (h : oid ∈ t.oids) :
    ∃ payload, t.get oid = some (encOctetStr payload) := by
  rcases Dict.mem_keys_iff.mp ((ht.mem_oids oid).mp h) with ⟨v, hv⟩
  rcases ht.octetStr oid v hv with ⟨payload, rfl⟩
  exact ⟨payload, hv⟩

end Table

end Snmp
end DemoEstate
