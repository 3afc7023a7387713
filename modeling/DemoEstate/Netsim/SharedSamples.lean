import DemoEstate.Netsim.Refresh

/-!
# One sample for both columns

The interface tables count octets and unicast packets twice, in 32 bits and in 64.  Both columns
of an interface are slots of one counter key, and a rendering samples a key once.

Main definitions:

- Definition {lit}`Counts`: the number that a slot shows from the samples of a rendering.
- Definition {lit}`Agree`: the two columns of every interface show one number.

Main results:

- Theorem {lit}`classify_counter`: both columns are slots of one key, if numbers are recorded.
- Theorems {lit}`ReplayDevice.walk_counts` and {lit}`ReplayDevice.dynamicRows_counts`: all slots of
  a rendering show the samples of one ledger.
- Theorem {lit}`columns_agree`: the columns agree in every rendering.
-/

namespace DemoEstate
namespace Netsim

open Interaction
open Snmp (Row Oid Result)

/-! ## The samples of a rendering -/

/-- What a slot shows of the samples taken in a rendering. -/
def Counts (ledger : Dict Text ℤ) (slot : Slot) (v : Text) : Prop :=
  match slot.kind with
  | .ctr32 => ∃ n, ledger.get slot.key = some n ∧ v = Text.str (n % u32)
  | .ctr64 => ∃ n, ledger.get slot.key = some n ∧ v = Text.str n
  | _ => True

theorem Counts.mono {ledger ledger' : Dict Text ℤ} (hle : ledger.Extends ledger') {slot : Slot}
    {v : Text} (h : Counts ledger slot v) : Counts ledger' slot v := by
  unfold Counts at h ⊢
  split at h
  · rcases h with ⟨n, hn, rfl⟩
    exact ⟨n, hle _ _ hn, rfl⟩
  · rcases h with ⟨n, hn, rfl⟩
    exact ⟨n, hle _ _ hn, rfl⟩
  · trivial

namespace ReplayDevice

variable {d : ReplayDevice} {pf : Platform} {elapsed now : ℚ}

/-- A key is sampled at its first use, and the sample is kept. -/
theorem sampleOnce_counts (key : Text) (sampled : Dict Text ℤ) :
    (d.sampleOnce pf key sampled).Ensures anything fun out =>
      out.2.get key = some out.1 ∧ sampled.Extends out.2 := by
  unfold sampleOnce
  cases hkey : sampled.get key with
  | some v => exact ⟨hkey, .refl sampled⟩
  | none =>
      apply Program.ensures_call (asks_anything _)
      intro v _
      exact ⟨sampled.get_set_self key v, Dict.extends_set hkey v⟩

/-- A slot shows the sample of its key, and all samples are kept. -/
theorem slotValue_counts (slot : Slot) (sampled : Dict Text ℤ) :
    (d.slotValue pf slot elapsed now sampled).Ensures anything fun out =>
      Counts out.2 slot out.1 ∧ sampled.Extends out.2 := by
  have hidentity : slot.kind.isIdentity = true →
      (d.identity pf slot >>= fun v => pure (v, sampled)).Ensures anything fun out =>
        True ∧ sampled.Extends out.2 := by
    intro hkind
    have hensures := identity_ensures (d.allows_anything pf [slot]) List.mem_cons_self hkind
    exact Program.ensures_bind.mpr (hensures.mono fun v _ => ⟨trivial, .refl sampled⟩)
  unfold slotValue Counts
  cases hkind : slot.kind with
  | sysname => exact ⟨trivial, .refl sampled⟩
  | syslocation => exact ⟨trivial, .refl sampled⟩
  | uptime => exact ⟨trivial, .refl sampled⟩
  | hrcpu => exact Program.ensures_call (asks_anything _) fun w _ => ⟨trivial, .refl sampled⟩
  | apcdate => exact ⟨trivial, .refl sampled⟩
  | ctr32 =>
      exact Program.ensures_bind.mpr ((sampleOnce_counts slot.key sampled).mono fun out hout =>
        ⟨⟨out.1, hout.1, rfl⟩, hout.2⟩)
  | ctr64 =>
      exact Program.ensures_bind.mpr ((sampleOnce_counts slot.key sampled).mono fun out hout =>
        ⟨⟨out.1, hout.1, rfl⟩, hout.2⟩)
  | ifmac => exact hidentity (by rw [hkind]; rfl)
  | serial => exact hidentity (by rw [hkind]; rfl)
  | svctag => exact hidentity (by rw [hkind]; rfl)
  | svccode => exact hidentity (by rw [hkind]; rfl)

/-- A row shows its piece, counted by a ledger. -/
def CountsRow (ledger : Dict Text ℤ) (piece : Piece) (row : Row) : Prop :=
  row.1 = piece.row.1 ∧ ∀ slot ∈ piece.slot, Counts ledger slot row.2

/-- The ledger of joined pieces, behind the samples taken and the text collected so far. -/
theorem walkFrom_counts (pieces : List Piece) (static : Text) (sampled : Dict Text ℤ) :
    (d.walkFrom pf elapsed now (joinFrom static pieces) sampled).Ensures anything fun text =>
      ∃ ledger rows, sampled.Extends ledger ∧ List.Forall₂ (CountsRow ledger) pieces rows ∧
        text = static ++ rows.flatMap rowLine := by
  induction pieces generalizing static sampled with
  | nil =>
      rw [joinFrom, ← List.append_nil (pending static), walkFrom_pending]
      exact ⟨sampled, [], .refl sampled, .nil, rfl⟩
  | cons piece pieces ih =>
      rcases piece with ⟨row, _ | slot, hreads⟩
      · refine (ih (static ++ rowLine row) sampled).mono fun text htext => ?_
        rcases htext with ⟨ledger, rows, hle, hrows, rfl⟩
        exact ⟨ledger, row :: rows, hle, .cons ⟨rfl, by simp⟩ hrows, by simp⟩
      · rw [joinFrom, walkFrom_pending, walkFrom]
        apply Program.ensures_bind.mpr
        apply Program.ensures_bind.mpr
        refine (slotValue_counts slot sampled).mono fun out hout => ?_
        refine Program.ensures_bind.mpr ((ih [] out.2).mono fun text htext => ?_)
        rcases htext with ⟨ledger, rows, hle, hrows, rfl⟩
        refine ⟨ledger, (slot.oid, out.1) :: rows, hout.2.trans hle, .cons ⟨?_, ?_⟩ hrows, ?_⟩
        · exact (hreads slot rfl).oid_eq
        · intro slot' hslot'
          cases hslot'
          exact hout.1.mono hle
        · simp

/-- All slots of a walk show the samples of one ledger. -/
theorem walk_counts {pieces : List Piece} (hsegments : d.model.segments = joinFrom [] pieces) :
    (d.walk pf now).Ensures anything fun text =>
      ∃ ledger rows, List.Forall₂ (CountsRow ledger) pieces rows ∧ text = rows.flatMap rowLine := by
  rw [walk, hsegments]
  refine (walkFrom_counts pieces [] Dict.empty).mono fun text htext => ?_
  rcases htext with ⟨ledger, rows, -, hrows, rfl⟩
  exact ⟨ledger, rows, hrows, rfl⟩

theorem rowsFrom_counts (slots : List Slot) (sampled : Dict Text ℤ) :
    (d.rowsFrom pf elapsed now slots sampled).Ensures anything fun rows =>
      ∃ ledger, sampled.Extends ledger ∧
        List.Forall₂ (fun slot row => row.1 = slot.oid ∧ Counts ledger slot row.2) slots rows := by
  induction slots generalizing sampled with
  | nil => exact ⟨sampled, .refl sampled, .nil⟩
  | cons slot slots ih =>
      apply Program.ensures_bind.mpr
      refine (slotValue_counts slot sampled).mono fun out hout => ?_
      refine Program.ensures_bind.mpr ((ih out.2).mono fun rows hrows => ?_)
      rcases hrows with ⟨ledger, hle, hrows⟩
      exact ⟨ledger, hout.2.trans hle, .cons ⟨rfl, hout.1.mono hle⟩ hrows⟩

/-- All slots of a refresh show the samples of one ledger. -/
theorem dynamicRows_counts :
    (d.dynamicRows pf now).Ensures anything fun rows =>
      ∃ ledger, List.Forall₂ (fun slot row => row.1 = slot.oid ∧ Counts ledger slot row.2)
        ((slots d.model.segments).filter fun slot => slot.kind.isDynamic) rows := by
  refine (rowsFrom_counts _ Dict.empty).mono fun rows hrows => ?_
  rcases hrows with ⟨ledger, -, hrows⟩
  exact ⟨ledger, hrows⟩

end ReplayDevice

/-! ## The columns of the interface tables -/

theorem behind_eq_none {arc arc' : Nat} {oid oid' : Oid} (h : ¬ arc :: oid <+: arc' :: oid') :
    behind (arc :: oid) (oidText (arc' :: oid')) = none := by
  by_contra hsome
  rcases Option.ne_none_iff_exists'.mp hsome with ⟨rest, hrest⟩
  have hparse := parseOid_oidText arc' oid'
  rw [behind_eq_some hrest] at hparse
  exact h (prefix_of_parseOid hparse)

theorem isSome_behind (oid : Oid) (arc : Nat) (rest : Oid) :
    (behind oid (oidText (oid ++ arc :: rest))).isSome = true := by
  have htext : oidText (oid ++ arc :: rest) =
      (oidText oid ++ ['.']) ++ (Text.decimal arc ++ oidText rest) := by
    simp [oidText]
  rw [behind, htext, if_pos (List.isPrefixOf_iff_prefix.mpr (List.prefix_append _ _))]
  rfl

theorem oidText_ne {arc arc' : Nat} {oid oid' : Oid} (h : arc :: oid ≠ arc' :: oid') :
    oidText (arc :: oid) ≠ oidText (arc' :: oid') := by
  intro heq
  have hparse := parseOid_oidText arc oid
  rw [heq, parseOid_oidText, Except.ok.injEq] at hparse
  exact h hparse.symm

theorem splitOn_oidText (oid : Oid) :
    (oidText oid).splitOn '.' = [] :: oid.map Text.decimal := by
  have hnumeral : ∀ arc : Nat, (Text.decimal arc).splitOn '.' = [Text.decimal arc] := by
    intro arc
    apply List.splitOnP_eq_singleton
    exact fun c hc => beq_dot_of_isDigit (Text.isDigit_of_mem_decimal hc)
  have hbehind : ∀ (s : Text) (oid : Oid), s.splitOn '.' = [s] →
      (s ++ oidText oid).splitOn '.' = s :: oid.map Text.decimal := by
    intro s oid hs
    induction oid generalizing s with
    | nil => simpa [oidText] using hs
    | cons arc oid ih =>
        rw [oidText, List.flatMap_cons, ← oidText, List.cons_append,
          List.splitOn_append_cons_self, hs, ih _ (hnumeral arc)]
        rfl
  exact hbehind [] oid rfl

theorem lastArc_oidText (oid : Oid) (column index : Nat) :
    lastArc (oidText (oid ++ [column, index])) = Text.decimal index := by
  simp [lastArc, splitOn_oidText]

theorem columnArc_oidText (oid : Oid) (column index : Nat) :
    columnArc (oidText (oid ++ [column, index])) = Text.decimal column := by
  simp [columnArc, splitOn_oidText]

/-- The names of the counters of in and out octets and unicast packets, with their columns in
32 bits and in 64. -/
def pairedColumns : List (Text × Nat × Nat) :=
  [("ifin".toList, 10, 6), ("ifinu".toList, 11, 7), ("ifout".toList, 16, 10),
    ("ifoutu".toList, 17, 11)]

/-- The OID of a column of the interface table. -/
def lowOid (column index : Nat) : Text :=
  oidText (ifTablePrefix ++ [column, index])

/-- The OID of a column of the extended interface table. -/
def highOid (column index : Nat) : Text :=
  oidText (ifXTablePrefix ++ [column, index])

/-- The OIDs that are compared as a whole. -/
def singleOids : List Text :=
  [sysNameOid, sysLocationOid, uptimeOid, hruptimeOid, hpCpuOid, apcDiagDateOid]

/-- The tables whose rows are looked for before the interface tables. -/
def earlierPrefixes : List Oid :=
  [ucdPrefix, ifmacPrefix, entSerialPrefix, dellSvccodePrefix] ++ dellSvctagPrefixes

/-- An OID that is left to the interface, processor and printer tables. -/
structure Tabled (oid : Text) : Prop where
  single : oid ∉ singleOids
  earlier : ∀ p ∈ earlierPrefixes, behind p oid = none

/-- What a paired column is looked up as, and the column that is no counter. -/
theorem lookup_paired {name : Text} {low high : Nat} (h : (name, low, high) ∈ pairedColumns) :
    if32.lookup (Text.decimal low) = some name ∧ ifhc.lookup (Text.decimal high) = some name ∧
      low ≠ 6 := by
  simp only [pairedColumns, List.mem_cons, Prod.mk.injEq, List.not_mem_nil, or_false] at h
  rcases h with ⟨rfl, rfl, rfl⟩ | ⟨rfl, rfl, rfl⟩ | ⟨rfl, rfl, rfl⟩ | ⟨rfl, rfl, rfl⟩ <;> decide

theorem tabled_lowOid {low : Nat} (hlow : low ≠ 6) (index : Nat) : Tabled (lowOid low index) where
  single := by
    simp only [singleOids, List.mem_cons, List.not_mem_nil, or_false, not_or]
    refine ⟨?_, ?_, ?_, ?_, ?_, ?_⟩ <;> exact oidText_ne (by simp)
  earlier p hp := by
    simp only [earlierPrefixes, dellSvctagPrefixes, List.cons_append, List.nil_append,
      List.mem_cons, List.not_mem_nil, or_false] at hp
    -- only the hardware addresses stand in the same table
    rcases hp with rfl | rfl | rfl | rfl | rfl | rfl | rfl <;>
      exact behind_eq_none (by simp [Ne.symm hlow])

theorem tabled_highOid (high index : Nat) : Tabled (highOid high index) where
  single := by
    simp only [singleOids, List.mem_cons, List.not_mem_nil, or_false, not_or]
    refine ⟨?_, ?_, ?_, ?_, ?_, ?_⟩ <;> exact oidText_ne (by simp)
  earlier p hp := by
    simp only [earlierPrefixes, dellSvctagPrefixes, List.cons_append, List.nil_append,
      List.mem_cons, List.not_mem_nil, or_false] at hp
    rcases hp with rfl | rfl | rfl | rfl | rfl | rfl | rfl <;> exact behind_eq_none (by simp)

namespace ReplayModel

variable {m : ReplayModel}

/-- Rows outside the earlier tables are classified by the interface, processor and printer tables. -/
theorem classify_of_tabled {oid : Text} (h : Tabled oid) (value : Text) :
    m.classify oid value = .ok ((m.tableSlot oid (Text.intOf value)).elim (m, none) fun out =>
      (out.1, some out.2)) := by
  have hsingle := h.single
  simp only [singleOids, List.mem_cons, List.not_mem_nil, or_false, not_or] at hsingle
  rcases hsingle with ⟨hname, hlocation, huptime, hhruptime, hhp, hapc⟩
  have hbehind : ∀ p ∈ earlierPrefixes, (behind p oid).isSome = false := fun p hp => by
    rw [h.earlier p hp, Option.isSome_none]
  have hucd : m.ucdCounter oid (Text.intOf value) = none := by
    simp only [ucdCounter, h.earlier ucdPrefix (by decide)]
  have hidentity : m.identitySlot oid value = none := by
    have htag : (dellSvctagPrefixes.any fun p => (behind p oid).isSome) = false := by
      apply List.any_eq_false.mpr
      intro p hp
      rw [hbehind p (List.mem_append_right _ hp)]
      simp
    simp only [identitySlot, hbehind ifmacPrefix (by decide), hbehind entSerialPrefix (by decide),
      hbehind dellSvccodePrefix (by decide), htag, Bool.false_eq_true, false_and, if_false]
  simp only [classify, if_neg hname, if_neg hlocation, if_neg (not_or.mpr ⟨huptime, hhruptime⟩),
    if_neg hhp, if_neg hapc, hucd, hidentity]
  cases Text.intOf value <;> cases m.tableSlot oid _ <;> rfl

/-- Where no number is recorded, the tables have no slot. -/
theorem tableSlot_none (oid : Text) : m.tableSlot oid none = none := by
  have hcounter : ∀ kind columns, m.ifCounter kind columns oid none = none := by
    intro kind columns
    unfold ifCounter
    split
    · rename_i hnone
      cases hnone
    · rfl
  simp only [tableSlot, hcounter, ite_self]
  cases behind hrcpuPrefix oid <;> cases behind pagesPrefix oid <;> rfl

theorem ifCounter_eq {kind : Kind} {columns : List (Text × Text)} {name : Text}
    {oid : Oid} {column index n : Nat} (hname : columns.lookup (Text.decimal column) = some name) :
    m.ifCounter kind columns (oidText (oid ++ [column, index])) (some n) =
      some (m.noteCounter (name ++ '.' :: Text.decimal index) n (some (Text.decimal index)),
        ⟨kind, oidText (oid ++ [column, index]), name ++ '.' :: Text.decimal index, n⟩) := by
  simp only [ifCounter, columnArc_oidText, lastArc_oidText, hname]

/-- The slot of a 32-bit column, if a number is recorded. -/
theorem tableSlot_lowOid {name : Text} {low : Nat}
    (hname : if32.lookup (Text.decimal low) = some name) (index n : Nat) :
    (m.tableSlot (lowOid low index) (some n)).map Prod.snd =
      some ⟨.ctr32, lowOid low index, name ++ '.' :: Text.decimal index, n⟩ := by
  simp only [tableSlot, lowOid, if_pos (isSome_behind _ _ _), ifCounter_eq hname]
  rfl

/-- The slot of a 64-bit column, if a number is recorded. -/
theorem tableSlot_highOid {name : Text} {high : Nat}
    (hname : ifhc.lookup (Text.decimal high) = some name) (index n : Nat) :
    (m.tableSlot (highOid high index) (some n)).map Prod.snd =
      some ⟨.ctr64, highOid high index, name ++ '.' :: Text.decimal index, n⟩ := by
  have hlow : behind ifTablePrefix (oidText (ifXTablePrefix ++ [high, index])) = none :=
    behind_eq_none (by simp)
  simp only [tableSlot, highOid, hlow, Option.isSome_none, Bool.false_eq_true, if_false,
    if_pos (isSome_behind _ _ _), ifCounter_eq hname]
  rfl

end ReplayModel

/-- A row is classified as a slot in some model. -/
def Classified (row : Row) (slot : Option Slot) : Prop :=
  ∃ m₀ m₁ : ReplayModel, m₀.classify row.1 row.2 = .ok (m₁, slot)

theorem Classified.eq_tableSlot {row : Row} {slot : Option Slot} (h : Classified row slot)
    (htabled : Tabled row.1) :
    ∃ m : ReplayModel, slot = (m.tableSlot row.1 (Text.intOf row.2)).map Prod.snd := by
  rcases h with ⟨m₀, m₁, hclass⟩
  use m₀
  rw [ReplayModel.classify_of_tabled htabled, Except.ok.injEq] at hclass
  cases hslot : m₀.tableSlot row.1 (Text.intOf row.2) with
  | none =>
      rw [hslot] at hclass
      exact (congrArg Prod.snd hclass).symm
  | some out =>
      rw [hslot] at hclass
      exact (congrArg Prod.snd hclass).symm

/-- The slots of both columns have one key; without a number there is no slot. -/
theorem Classified.slot_paired {name : Text} {low high : Nat}
    (hpaired : (name, low, high) ∈ pairedColumns) {row : Row} {slot : Option Slot}
    (h : Classified row slot) (index : Nat) :
    (row.1 = lowOid low index → slot = (Text.intOf row.2).map fun n =>
      ⟨.ctr32, lowOid low index, name ++ '.' :: Text.decimal index, n⟩) ∧
    (row.1 = highOid high index → slot = (Text.intOf row.2).map fun n =>
      ⟨.ctr64, highOid high index, name ++ '.' :: Text.decimal index, n⟩) := by
  rcases lookup_paired hpaired with ⟨hlow, hhigh, hne⟩
  constructor
  · intro hoid
    rcases h.eq_tableSlot (hoid ▸ tabled_lowOid hne index) with ⟨m, rfl⟩
    rw [hoid]
    cases Text.intOf row.2 with
    | none => rw [ReplayModel.tableSlot_none]; rfl
    | some n => exact ReplayModel.tableSlot_lowOid hlow index n
  · intro hoid
    rcases h.eq_tableSlot (hoid ▸ tabled_highOid high index) with ⟨m, rfl⟩
    rw [hoid]
    cases Text.intOf row.2 with
    | none => rw [ReplayModel.tableSlot_none]; rfl
    | some n => exact ReplayModel.tableSlot_highOid hhigh index n

/-! ## Both columns in a rendering -/

/-- A number, and its remainder in 32 bits. -/
def Agrees (low high : Text) : Prop :=
  ∃ n : ℤ, high = Text.str n ∧ low = Text.str (n % u32)

/-- The two columns of every interface agree, where the recorded rows meet a condition. -/
def Agree (counts : Row → Prop) (recorded shown : List Row) : Prop :=
  ∀ name low high, (name, low, high) ∈ pairedColumns → ∀ index,
    ∀ a ∈ recorded.zip shown, ∀ b ∈ recorded.zip shown,
      a.1.1 = lowOid low index → b.1.1 = highOid high index → counts a.1 → counts b.1 →
        Agrees a.2.2 b.2.2

/-- A number is recorded. -/
def Numbered (row : Row) : Prop :=
  (Text.intOf row.2).isSome

instance : DecidablePred Numbered := fun row =>
  inferInstanceAs (Decidable ((Text.intOf row.2).isSome = true))

/-- Slots of one key show one number. -/
theorem agrees_of_counts {ledger : Dict Text ℤ} {key oid oid' low high : Text} {n n' : Nat}
    (hlow : Counts ledger ⟨.ctr32, oid, key, n⟩ low) (hhigh : Counts ledger ⟨.ctr64, oid', key, n'⟩ high) :
    Agrees low high := by
  rcases hlow with ⟨v, hv, rfl⟩
  rcases hhigh with ⟨w, hw, rfl⟩
  cases hv.symm.trans hw
  exact ⟨v, rfl, rfl⟩

/-- In every rendering of an instance both columns of every interface agree: in a walk where
numbers are recorded for both, in a refresh wherever both are shown. -/
theorem columns_agree (d : ReplayDevice) (pf : Platform) (now : ℚ) {σ : Type}
    (env : Program.Env σ Op Ans) (s t : σ) :
    (∀ text, (d.walk pf now).Runs env s text t → ∃ rows, text = rows.flatMap rowLine ∧
      rows.map Prod.fst = d.file.rows.map Prod.fst ∧ Agree Numbered d.file.rows rows) ∧
    ∀ rows, (d.dynamicRows pf now).Runs env s rows t →
      ∀ name low high, (name, low, high) ∈ pairedColumns → ∀ index, ∀ a ∈ rows, ∀ b ∈ rows,
        a.1 = lowOid low index → b.1 = highOid high index → Agrees a.2 b.2 := by
  rcases ReplayModel.ofRows_classifies d.loaded with ⟨m₀, pieces, -, hpieces, hsegments, hclassifies⟩
  have hclassified : ∀ piece ∈ pieces, Classified piece.row piece.slot := fun piece hpiece =>
    hclassifies.exists_classify hpiece
  constructor
  · intro text hrun
    rcases ((ReplayDevice.walk_counts hsegments).of_runs (answering_anything env) hrun trivial).1
      with ⟨ledger, rows, hrows, rfl⟩
    rw [← hpieces, List.map_map]
    refine ⟨rows, rfl, hrows.map_eq_map fun piece row h => h.1, ?_⟩
    intro name low high hpaired index a ha b hb hlow hhigh hnumber hnumber'
    rcases hrows.exists_of_mem_zip ha with ⟨piece, hpiece, hrow, hshown⟩
    rcases hrows.exists_of_mem_zip hb with ⟨piece', hpiece', hrow', hshown'⟩
    have hslot := ((hclassified piece hpiece).slot_paired hpaired index).1 (hrow ▸ hlow)
    have hslot' := ((hclassified piece' hpiece').slot_paired hpaired index).2 (hrow' ▸ hhigh)
    rcases Option.isSome_iff_exists.mp hnumber with ⟨n, hn⟩
    rcases Option.isSome_iff_exists.mp hnumber' with ⟨n', hn'⟩
    rw [hrow, hn, Option.map_some] at hslot
    rw [hrow', hn', Option.map_some] at hslot'
    exact agrees_of_counts (hshown.2 _ hslot) (hshown'.2 _ hslot')
  · intro rows hrun name low high hpaired index a ha b hb hlow hhigh
    rcases (ReplayDevice.dynamicRows_counts.of_runs (answering_anything env) hrun trivial).1
      with ⟨ledger, hrows⟩
    rw [hsegments, slots_joinFrom] at hrows
    have hfrom : ∀ row ∈ rows, ∃ piece ∈ pieces, ∃ slot, piece.slot = some slot ∧
        row.1 = piece.row.1 ∧ Counts ledger slot row.2 := by
      intro row hrow
      rcases hrows.exists_left hrow with ⟨slot, hslot, hoid, hcounts⟩
      rcases List.mem_filterMap.mp (List.mem_filter.mp hslot).1 with ⟨piece, hpiece, hslot⟩
      exact ⟨piece, hpiece, slot, hslot, by rw [hoid, (piece.reads slot hslot).oid_eq], hcounts⟩
    rcases hfrom a ha with ⟨piece, hpiece, slot, hslot, hoid, hcounts⟩
    rcases hfrom b hb with ⟨piece', hpiece', slot', hslot', hoid', hcounts'⟩
    have heq := ((hclassified piece hpiece).slot_paired hpaired index).1 (hoid ▸ hlow)
    have heq' := ((hclassified piece' hpiece').slot_paired hpaired index).2 (hoid' ▸ hhigh)
    rw [hslot] at heq
    rw [hslot'] at heq'
    rcases Option.map_eq_some_iff.mp heq.symm with ⟨n, -, rfl⟩
    rcases Option.map_eq_some_iff.mp heq'.symm with ⟨n', -, rfl⟩
    exact agrees_of_counts hcounts hcounts'

/-! ## Columns with and without numbers -/

/-- A walk of both octet columns of one interface. -/
def bothColumns : WalkFile where
  content := ".1.3.6.1.2.1.2.2.1.10.1 705032704\n.1.3.6.1.2.1.31.1.1.1.6.1 5000000000\n".toList
  numeric := by decide +kernel

/-- An instance of that walk. -/
def core01 : ReplayDevice where
  short := "sw-core-01".toList
  location := "rack".toList
  file := bothColumns
  model := ReplayModel.parsed bothColumns.rows
  loaded := ReplayModel.ofRows_eq_parsed (by decide +kernel)
  short_plain := by decide
  location_plain := plain_rack

/-- Every counter at a value beyond 32 bits. -/
def Readings.beyond : Readings where
  counter _ := 5000000001
  gauge _ base _ := base

theorem columns_agree_core01 :
    ∃ text rows, (core01.walk Platform.still 0).Runs (Program.Answering Readings.beyond.handler)
      Dict.empty text Dict.empty ∧ text = rows.flatMap rowLine ∧
        rows.map Prod.fst = core01.file.rows.map Prod.fst ∧
          Agree Numbered core01.file.rows rows := by
  have hrun : (core01.walk Platform.still 0).run Readings.beyond.handler Dict.empty =
      some (".1.3.6.1.2.1.2.2.1.10.1 705032705\n.1.3.6.1.2.1.31.1.1.1.6.1 5000000001\n".toList,
        Dict.empty) := by
    decide +kernel
  have hruns := Program.runs_of_run hrun
  rcases (columns_agree core01 Platform.still 0 _ _ _).1 _ hruns with ⟨rows, hrows⟩
  exact ⟨_, rows, hruns, hrows⟩

/-- A walk in which the 32-bit column has no value. -/
def lowWithoutValue : WalkFile where
  content := ".1.3.6.1.2.1.2.2.1.10.1 \n.1.3.6.1.2.1.31.1.1.1.6.1 5000000000\n".toList
  numeric := by decide +kernel

theorem rows_lowWithoutValue :
    lowWithoutValue.rows = [(lowOid 10 1, []), (highOid 6 1, "5000000000".toList)] := by
  decide +kernel

/-- An instance of that walk. -/
def core02 : ReplayDevice where
  short := "sw-core-02".toList
  location := "rack".toList
  file := lowWithoutValue
  model := ReplayModel.parsed lowWithoutValue.rows
  loaded := ReplayModel.ofRows_eq_parsed (by decide +kernel)
  short_plain := by decide
  location_plain := plain_rack

/-- A column without a number is static text and shows no remainder of the other one. -/
theorem not_agree_lowWithoutValue : ¬ ∀ (d : ReplayDevice) (pf : Platform) (now : ℚ) (σ : Type)
    (env : Program.Env σ Op Ans) (s t : σ) (text : Text), (d.walk pf now).Runs env s text t →
      ∃ rows, text = rows.flatMap rowLine ∧ rows.map Prod.fst = d.file.rows.map Prod.fst ∧
        Agree (fun _ => True) d.file.rows rows := by
  intro hall
  have hrun : (core02.walk Platform.still 0).run Readings.beyond.handler Dict.empty =
      some (".1.3.6.1.2.1.2.2.1.10.1 \n.1.3.6.1.2.1.31.1.1.1.6.1 5000000001\n".toList,
        Dict.empty) := by
    decide +kernel
  rcases hall core02 Platform.still 0 _ _ _ _ _ (Program.runs_of_run hrun) with
    ⟨rows, htext, hoids, hagree⟩
  have hfile : core02.file.rows = [(lowOid 10 1, []), (highOid 6 1, "5000000000".toList)] :=
    rows_lowWithoutValue
  rw [hfile] at hoids hagree
  match rows, hoids with
  | [(_, v), (_, w)], hoids =>
      simp only [List.map_cons, List.map_nil, List.cons.injEq, and_true] at hoids
      rcases hoids with ⟨rfl, rfl⟩
      have hpaired : ("ifin".toList, 10, 6) ∈ pairedColumns := by decide
      rcases hagree _ _ _ hpaired 1 ((lowOid 10 1, []), (lowOid 10 1, v)) (by simp)
        ((highOid 6 1, "5000000000".toList), (highOid 6 1, w)) (by simp) rfl rfl trivial trivial
        with ⟨n, -, hv⟩
      have hstart : ".1.3.6.1.2.1.2.2.1.10.1 \n.1.3.6.1.2.1.31.1.1.1.6.1 5000000001\n".toList =
          lowOid 10 1 ++ ' ' :: '\n' :: (highOid 6 1 ++ " 5000000001\n".toList) := by
        decide +kernel
      -- the value shown ends where its line does, at once
      have hline : '\n' :: (highOid 6 1 ++ " 5000000001\n".toList) =
          v ++ '\n' :: rowLine (highOid 6 1, w) := by
        have hrows : [(lowOid 10 1, v), (highOid 6 1, w)].flatMap rowLine =
            lowOid 10 1 ++ ' ' :: (v ++ '\n' :: rowLine (highOid 6 1, w)) := by
          simp [rowLine]
        rw [hstart, hrows] at htext
        exact (List.cons.inj (List.append_cancel_left htext)).2
      have hplain : Text.Plain v := by
        change v = _ at hv
        exact hv ▸ Text.plain_str _
      cases v with
      | nil => exact Text.str_ne_nil _ hv.symm
      | cons c v =>
          rw [List.cons_append, List.cons.injEq] at hline
          exact absurd (hplain c List.mem_cons_self) (hline.1 ▸ by decide)

end Netsim
end DemoEstate
