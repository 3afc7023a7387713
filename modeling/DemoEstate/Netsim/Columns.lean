import DemoEstate.Netsim.Refresh

/-!
# The values under a 64-bit interface counter OID

Under such an OID a device shows a sample of one counter in every rendering, or a
recorded value that never changes.

Main results:

- Theorem {lit}`Device.exists_source`: every walk and every refresh of a steady device
  shows its source's values.
-/

namespace DemoEstate
namespace Netsim

open Interaction
open Snmp (Row Oid Table parseOid)

/-! ## Sources -/

/-- What stands under an OID: the samples of a counter, or a fixed value. -/
inductive Source where
  | counter (name : Text)
  | fixed (value : Text)

/-- The values a source shows when the samples satisfy `P`. -/
def Source.Shows (P : Text → ℤ → Prop) : Source → Text → Prop
  | .counter name, w => ∃ n, P name n ∧ w = Text.str n
  | .fixed value, w => w = value

/-- The rows show a source under an OID. -/
def ShowAt (oid : Oid) (src : Source) (P : Text → ℤ → Prop) (rows : List Row) : Prop :=
  ∀ row ∈ rows, parseOid row.1 = .ok oid → src.Shows P row.2

/-- The rows show at most one value under an OID. -/
def OneAt (oid : Oid) (rows : List Row) : Prop :=
  ∀ row ∈ rows, ∀ row' ∈ rows, parseOid row.1 = .ok oid → parseOid row'.1 = .ok oid →
    row.2 = row'.2

/-- The identities are plain. -/
def plainIdent (_ v : Text) : Prop :=
  Text.Plain v

/-- The rows of a replayed device have distinct OIDs and plain values. -/
def Device.Steady : Device → Prop
  | .synthetic _ => True
  | .replay d => d.file.Distinct ∧ d.file.Plain

/-! ## Synthetic devices -/

/-- The walk of rendered rows is read back, up to their order. -/
theorem Synthetic.Rendered.mem_walkRows {pf : Platform} {dev : Synthetic} {P : Text → ℤ → Prop}
    {rows : List Row} (h : Synthetic.Rendered pf dev P rows) {text : Text}
    (htext : renderWalk rows = .ok text) {row : Row} (hrow : row ∈ walkRows text) : row ∈ rows := by
  rcases renderWalk_eq_ok htext with ⟨sorted, hsorted, rfl⟩
  have hlines : ∀ row ∈ sorted, Numeric row.1 ∧ Text.Plain row.2 := by
    intro row hrow
    have hmem := hsorted.mem_iff.mp hrow
    refine ⟨dev.numeric_oids pf ?_, h.plain row hmem⟩
    rw [← h.oids_eq]
    exact List.mem_map_of_mem hmem
  rw [walkRows_flatMap_rowLine hlines] at hrow
  exact hsorted.mem_iff.mp (List.mem_filter.mp hrow).1

theorem Synthetic.Rendered.showAt {pf : Platform} {dev : Synthetic} {P : Text → ℤ → Prop}
    {rows : List Row} (h : Synthetic.Rendered pf dev P rows) {column : Nat} {counter : String}
    (hcounter : hcCounter column = some counter) (index : Nat) :
    ShowAt (hcOid column index) (.counter (ifaceKey dev.short index counter)) P rows ∧
      OneAt (hcOid column index) rows := by
  rcases h.sampled column index counter hcounter with ⟨v, hv⟩
  constructor
  · intro row hrow hoid
    exact ⟨v, hv row hrow hoid⟩
  · intro row hrow row' hrow' hoid hoid'
    rw [(hv row hrow hoid).2, (hv row' hrow' hoid').2]

/-! ## Replayed devices -/

namespace ReplayDevice

variable {d : ReplayDevice} {pf : Platform}

theorem allows_readings (d : ReplayDevice) (pf : Platform) (P : Text → ℤ → Prop)
    {pieces : List Piece} (hplain : ∀ piece ∈ pieces, Text.Plain piece.row.2) :
    d.Allows pf (readings P plainIdent) (pieces.filterMap Piece.slot) where
  sample _ _ _ := trivial
  gauge _ _ _ := trivial
  getIdent _ := trivial
  setIdent slot hslot hkind v hv := by
    rcases List.mem_filterMap.mp hslot with ⟨piece, hpiece, hslot⟩
    refine plain_identityValue (fun c hc => hplain piece hpiece c ?_) hv
    exact (piece.reads slot hslot).key_of_row hkind c hc
  raise _ _ _ _ _ := trivial

/-- Every value a piece renders is plain. -/
theorem plain_of_renders {P : Text → ℤ → Prop} {elapsed now : ℚ} {piece : Piece} {row : Row}
    (hplain : Text.Plain piece.row.2)
    (h : d.Renders pf (readings P plainIdent) elapsed now piece row) : Text.Plain row.2 := by
  rcases h with ⟨-, hvalue⟩
  cases hslot : piece.slot with
  | none =>
      rw [hslot] at hvalue
      exact hvalue ▸ hplain
  | some slot =>
      rw [hslot] at hvalue
      have hreads := piece.reads slot hslot
      refine plain_of_shows (fun hkind hident => ?_) hvalue
      rcases hident with hident | hident
      · exact plain_identityValue (fun c hc => hplain c (hreads.key_of_row hkind c hc)) hident
      · exact hident _ rfl

/-- The source under an OID of the extended interface table. -/
def sourceOf (d : ReplayDevice) (piece : Piece) : Source :=
  match piece.slot with
  | none => .fixed piece.row.2
  | some slot => .counter (d.short ++ '.' :: slot.key)

/-- Only a 64-bit counter slot stands under a 64-bit interface counter OID. -/
theorem kind_eq_ctr64 {piece : Piece} {slot : Slot} (hslot : piece.slot = some slot)
    {column index : Nat} (hoid : parseOid piece.row.1 = .ok (hcOid column index)) :
    slot.kind = .ctr64 := by
  rcases (piece.reads slot hslot).ctr64_or_off with hkind | hoff
  · exact hkind
  · exact absurd ⟨[column, index], rfl⟩ (hoff _ hoid)

theorem shows_of_ctr64 {P : Text → ℤ → Prop} {elapsed now : ℚ} {slot : Slot} {v : Text}
    (hkind : slot.kind = .ctr64)
    (h : d.Shows pf (readings P plainIdent) elapsed now slot v) :
    ∃ n, P (d.short ++ '.' :: slot.key) n ∧ v = Text.str n := by
  unfold Shows at h
  rw [hkind] at h
  exact h

/-- The OID texts of the slots are distinct. -/
theorem nodup_slot_oids {pieces : List Piece} (hkeyed : Keyed pieces) :
    ((pieces.filterMap Piece.slot).map Slot.oid).Nodup := by
  have hnodup : ((kept pieces).map fun piece => piece.row.1).Nodup := by
    have hparsed := hkeyed.nodup
    rw [show Piece.oid = (fun text => (parseOid text).toOption.getD []) ∘ fun piece : Piece =>
      piece.row.1 from rfl, ← List.map_map] at hparsed
    exact hparsed.of_map _
  refine hnodup.sublist ?_
  clear hkeyed hnodup
  induction pieces with
  | nil => exact List.Sublist.refl _
  | cons piece pieces ih =>
      match piece with
      | ⟨row, none, _⟩ =>
          by_cases hne : row.1 = []
          · simpa [kept, hne] using ih
          · simpa [kept, hne] using ih.cons row.1
      | ⟨row, some slot, hreads⟩ =>
          have hread := hreads slot rfl
          simpa [kept, hread.oid_ne_nil, hread.oid_eq] using ih

end ReplayDevice

/-! ## Every device -/

/-- Every walk and every refresh of a steady device shows one source under a 64-bit
interface counter OID, and a refresh shows it once. -/
theorem Device.exists_source (pf : Platform) {dev : Device} (hsteady : dev.Steady) {column : Nat}
    {counter : String} (hcounter : hcCounter column = some counter) (index : Nat) :
    ∃ src : Source, ∀ P now,
      (dev.walk pf now).Ensures (readings P plainIdent) (fun text =>
        ShowAt (hcOid column index) src P (walkRows text)) ∧
      (dev.dynamicRows pf now).Ensures (readings P plainIdent) fun rows =>
        ShowAt (hcOid column index) src P rows ∧ OneAt (hcOid column index) rows := by
  cases dev with
  | synthetic dev =>
      use .counter (ifaceKey dev.short index counter)
      intro P now
      constructor
      · refine Program.ensures_bind.mpr
          ((Synthetic.rows_ensures pf dev now P plainIdent).mono fun rows hrows => ?_)
        cases htext : renderWalk rows with
        | error e => exact ⟨trivial, fun v => nomatch v⟩
        | ok text =>
            intro row hrow hoid
            exact (hrows.showAt hcounter index).1 row (hrows.mem_walkRows htext hrow) hoid
      · exact (Synthetic.rows_ensures pf dev now P plainIdent).mono fun rows hrows =>
          hrows.showAt hcounter index
  | replay d =>
      rcases hsteady with ⟨hdistinct, hplain⟩
      rcases ReplayModel.ofRows_segments d.loaded with ⟨pieces, hrows, hsegments⟩
      have hkeyed := hdistinct.keyed hrows
      have hmem : ∀ piece ∈ pieces, piece.row ∈ d.file.rows := fun piece hpiece =>
        hrows ▸ List.mem_map_of_mem hpiece
      have hpieces : ∀ piece ∈ pieces, Text.Plain piece.row.2 := fun piece hpiece =>
        hplain _ (hmem piece hpiece)
      -- all pieces under the OID are one
      have hsource : ∃ src : Source, ∀ piece ∈ pieces,
          parseOid piece.row.1 = .ok (hcOid column index) → d.sourceOf piece = src := by
        by_cases hsome : ∃ piece ∈ pieces, parseOid piece.row.1 = .ok (hcOid column index)
        · rcases hsome with ⟨piece, hpiece, hoid⟩
          use d.sourceOf piece
          intro piece' hpiece' hoid'
          rw [hkeyed.piece_unique hpiece hpiece' hoid hoid']
        · use .fixed []
          intro piece hpiece hoid
          exact absurd ⟨piece, hpiece, hoid⟩ hsome
      rcases hsource with ⟨src, hsource⟩
      use src
      intro P now
      have hallows := d.allows_readings pf P hpieces
      constructor
      · refine (ReplayDevice.walk_ensures hsegments hallows).mono fun text htext => ?_
        rcases htext with ⟨rows, hrendered, rfl⟩
        have hlines : ∀ row ∈ rows, Numeric row.1 ∧ Text.Plain row.2 := by
          intro row hrow
          rcases hrendered.exists_left hrow with ⟨piece, hpiece, hrenders⟩
          exact ⟨hrenders.1 ▸ d.file.numeric _ (hmem piece hpiece),
            ReplayDevice.plain_of_renders (hpieces piece hpiece) hrenders⟩
        rw [walkRows_flatMap_rowLine hlines]
        intro row hrow hoid
        rcases hrendered.exists_left (List.mem_filter.mp hrow).1 with ⟨piece, hpiece, htext, hvalue⟩
        rw [htext] at hoid
        rw [← hsource piece hpiece hoid]
        cases hslot : piece.slot with
        | none =>
            rw [hslot] at hvalue
            simpa [ReplayDevice.sourceOf, hslot, Source.Shows] using hvalue
        | some slot =>
            rw [hslot] at hvalue
            simpa [ReplayDevice.sourceOf, hslot, Source.Shows] using
              ReplayDevice.shows_of_ctr64 (ReplayDevice.kind_eq_ctr64 hslot hoid) hvalue
      · refine (ReplayDevice.dynamicRows_ensures hsegments hallows).mono fun rows hshown => ?_
        constructor
        · intro row hrow hoid
          rcases hshown.exists_left hrow with ⟨slot, hslot, htext, hvalue⟩
          rcases List.mem_filterMap.mp (List.mem_filter.mp hslot).1 with ⟨piece, hpiece, hslot⟩
          rw [htext, (piece.reads slot hslot).oid_eq] at hoid
          rw [← hsource piece hpiece hoid]
          simpa [ReplayDevice.sourceOf, hslot, Source.Shows] using
            ReplayDevice.shows_of_ctr64 (ReplayDevice.kind_eq_ctr64 hslot hoid) hvalue
        · intro row hrow row' hrow' hoid hoid'
          have hnodup := (ReplayDevice.nodup_slot_oids hkeyed).sublist
            ((List.filter_sublist (p := fun slot => slot.kind.isDynamic)).map Slot.oid)
          rcases hshown.eq_of_key hnodup hrow hrow' with
            ⟨slot, hslot, slot', hslot', ⟨htext, -⟩, ⟨htext', -⟩, heq⟩
          refine congrArg Prod.snd (heq ?_)
          have hsame := hkeyed.slot_unique (List.mem_filter.mp hslot').1 (List.mem_filter.mp hslot).1
            (by rw [← htext, ← htext', hoid, hoid'])
          rw [hsame]

end Netsim
end DemoEstate
