import DemoEstate.Netsim.Identities

/-!
# Hardware addresses of an instance

Instances of one recorded walk must not share the addresses of their interfaces.  The vendor part
of a recorded address stays, and the rest is moved by an offset of the instance, modulo its size.

Main definitions:

- Definition {lit}`HardwareRow`: a recorded six-byte address of an interface.
- Definition {lit}`Serves`: what an instance makes of a recorded row.
- Definition {lit}`Relabels`: a served value decodes to another address of the same vendor.

Main results:

- Theorem {lit}`encodeValue_hexBytes`: the responder decodes what the simulator writes.
- Theorem {lit}`addresses_relabelled`: an instance serves its own addresses, and tells its
  interfaces apart.
-/

namespace DemoEstate
namespace Netsim

open Interaction
open Snmp (Row Oid Bytes encodeValue hexDigit hexPairs)

/-! ## Bytes in walk encoding -/

theorem hexDigit_hexChar {n : Nat} (h : n < 16) : hexDigit (hexChar n) = some n := by
  have hall : ∀ n ∈ List.range 16, hexDigit (hexChar n) = some n := by decide
  exact hall n (List.mem_range.mpr h)

/-- The responder decodes what the simulator writes. -/
theorem encodeValue_hexBytes {raw : List Nat} (hraw : ∀ b ∈ raw, b < 256) :
    encodeValue (hexBytes raw) = raw.map UInt8.ofNat := by
  have hpairs : hexPairs (raw.flatMap (fun b => [hexChar (b / 16), hexChar (b % 16), ' ']) ++ ['"']) =
      some (raw.map UInt8.ofNat) := by
    induction raw with
    | nil => rfl
    | cons b raw ih =>
        have hb : b < 256 := hraw b List.mem_cons_self
        have hrest := ih fun x hx => hraw x (List.mem_cons_of_mem b hx)
        have hvalue : b / 16 * 16 + b % 16 = b := by omega
        simp only [List.flatMap_cons, List.cons_append, List.nil_append, hexPairs,
          hexDigit_hexChar (by omega : b / 16 < 16), hexDigit_hexChar (by omega : b % 16 < 16), hrest,
          Option.bind_eq_bind, Option.bind_some, hvalue, List.map_cons]
  rw [hexBytes, List.cons_append, encodeValue, hpairs, Option.getD_some]

/-- The bytes of a binary value are bytes. -/
theorem lt_of_parseHexValue {value : Text} {raw : List Nat} (h : parseHexValue value = some raw) :
    ∀ b ∈ raw, b < 256 := by
  simp only [parseHexValue] at h
  split at h
  · intro b hb
    rcases (List.Forall₂.of_mapM h).exists_left hb with ⟨token, -, htoken⟩
    rcases Option.map_eq_some_iff.mp htoken with ⟨n, hn, rfl⟩
    have hbounds := (Option.filter_eq_some_iff.mp hn).2
    simp only [decide_eq_true_eq] at hbounds
    omega
  · cases h

/-! ## Recorded and served addresses -/

/-- A recorded six-byte address of an interface. -/
structure HardwareRow (row : Row) (raw : List Nat) : Prop where
  column : (behind ifmacPrefix row.1).isSome
  reads : parseHexValue row.2 = some raw
  six : raw.length = 6

/-- What an instance makes of a recorded row. -/
def ReplayDevice.Serves (d : ReplayDevice) (pf : Platform) (row : Row) (v : Text) : Prop :=
  ∃ slot, Classified row (some slot) ∧ d.identityValue pf slot = .ok v

/-- A served value decodes to six bytes, not the recorded ones, with the vendor part kept. -/
structure Relabels (raw : List Nat) (v : Text) : Prop where
  length : (encodeValue v).length = 6
  vendor : (encodeValue v).take 3 = (raw.take 3).map UInt8.ofNat
  differs : encodeValue v ≠ raw.map UInt8.ofNat

/-- The number in the last bytes of an address. -/
def lowPart (raw : List Nat) : Nat :=
  (raw.drop 3).foldl (fun n b => n * 256 + b) 0

/-- Three bytes of a number. -/
def lowBytes (low : Nat) : List Nat :=
  [low / 65536, low / 256 % 256, low % 256]

theorem HardwareRow.classified {row : Row} {raw : List Nat} (h : HardwareRow row raw)
    {slot : Option Slot} (hclass : Classified row slot) :
    slot = some ⟨.ifmac, row.1, row.2, 0⟩ := by
  rcases hclass with ⟨m₀, m₁, hclass⟩
  rw [ReplayModel.classify_ifmac h.column h.reads h.six, Except.ok.injEq] at hclass
  exact (congrArg Prod.snd hclass).symm

theorem HardwareRow.exists_bytes {row : Row} {raw : List Nat} (h : HardwareRow row raw) :
    ∃ a b c x y z, raw = [a, b, c, x, y, z] ∧ a < 256 ∧ b < 256 ∧ c < 256 ∧ x < 256 ∧ y < 256 ∧
      z < 256 := by
  have hlt := lt_of_parseHexValue h.reads
  match raw, h.six with
  | [a, b, c, x, y, z], _ =>
      exact ⟨a, b, c, x, y, z, rfl, hlt a (by simp), hlt b (by simp), hlt c (by simp),
        hlt x (by simp), hlt y (by simp), hlt z (by simp)⟩

variable {d d' : ReplayDevice} {pf pf' : Platform}

/-- The served address is the recorded one with its low part moved by the offset. -/
theorem HardwareRow.identityValue {row : Row} {raw : List Nat} (h : HardwareRow row raw) :
    d.identityValue pf ⟨.ifmac, row.1, row.2, 0⟩ =
      .ok (hexBytes (raw.take 3 ++ lowBytes ((lowPart raw + d.macOff pf) % 2 ^ 24))) := by
  rcases h.exists_bytes with ⟨a, b, c, x, y, z, rfl, -⟩
  simp only [ReplayDevice.identityValue, h.reads, lowPart, lowBytes]

/-- The bytes of the served address. -/
theorem HardwareRow.encodeValue_of_serves {row : Row} {raw : List Nat} (h : HardwareRow row raw)
    {v : Text} (hv : d.Serves pf row v) :
    encodeValue v =
      (raw.take 3 ++ lowBytes ((lowPart raw + d.macOff pf) % 2 ^ 24)).map UInt8.ofNat := by
  rcases hv with ⟨slot, hclass, hvalue⟩
  cases h.classified hclass
  rw [h.identityValue, Except.ok.injEq] at hvalue
  rw [← hvalue]
  apply encodeValue_hexBytes
  intro byte hbyte
  rcases List.mem_append.mp hbyte with hbyte | hbyte
  · exact lt_of_parseHexValue h.reads byte (List.mem_of_mem_take hbyte)
  · have hlow := Nat.mod_lt (lowPart raw + d.macOff pf) (by decide : 2 ^ 24 > 0)
    simp only [lowBytes, List.mem_cons, List.not_mem_nil, or_false] at hbyte
    omega

/-- Bytes are told apart by their octets. -/
theorem ofNat_inj {m n : Nat} (hm : m < 256) (hn : n < 256) :
    UInt8.ofNat m = UInt8.ofNat n ↔ m = n := by
  rw [← UInt8.toNat_inj, UInt8.toNat_ofNat', UInt8.toNat_ofNat']
  omega

/-- A served address decodes to another address of the same vendor. -/
theorem HardwareRow.relabels {row : Row} {raw : List Nat} (h : HardwareRow row raw)
    (hlow : 1 ≤ d.macOff pf) (hhigh : d.macOff pf < 2 ^ 24) {v : Text}
    (hv : d.Serves pf row v) : Relabels raw v := by
  have hbytes := h.encodeValue_of_serves hv
  rcases h.exists_bytes with ⟨a, b, c, x, y, z, rfl, ha, hb, hc, hx, hy, hz⟩
  constructor
  · rw [hbytes]
    rfl
  · rw [hbytes]
    rfl
  · rw [hbytes]
    intro heq
    simp only [lowPart, lowBytes, List.take_succ_cons, List.take_zero, List.drop_succ_cons,
      List.drop_zero, List.foldl_cons, List.foldl_nil, List.cons_append, List.nil_append,
      List.map_cons, List.map_nil, List.cons.injEq, and_true, true_and] at heq
    rw [ofNat_inj (by omega) hx, ofNat_inj (by omega) hy, ofNat_inj (by omega) hz] at heq
    omega

/-- Addresses are served as one only if they are recorded as one and moved by one offset. -/
theorem HardwareRow.eq_of_serves {row row' : Row} {raw raw' : List Nat} (h : HardwareRow row raw)
    (h' : HardwareRow row' raw') (hhigh : d.macOff pf < 2 ^ 24) (hhigh' : d'.macOff pf' < 2 ^ 24)
    {v v' : Text} (hv : d.Serves pf row v) (hv' : d'.Serves pf' row' v')
    (heq : encodeValue v = encodeValue v') : raw = raw' ↔ d.macOff pf = d'.macOff pf' := by
  rw [h.encodeValue_of_serves hv, h'.encodeValue_of_serves hv'] at heq
  rcases h.exists_bytes with ⟨a, b, c, x, y, z, rfl, ha, hb, hc, hx, hy, hz⟩
  rcases h'.exists_bytes with ⟨a', b', c', x', y', z', rfl, ha', hb', hc', hx', hy', hz'⟩
  simp only [lowPart, lowBytes, List.take_succ_cons, List.take_zero, List.drop_succ_cons,
    List.drop_zero, List.foldl_cons, List.foldl_nil, List.cons_append, List.nil_append,
    List.map_cons, List.map_nil, List.cons.injEq, and_true] at heq ⊢
  rw [ofNat_inj ha ha', ofNat_inj hb hb', ofNat_inj hc hc', ofNat_inj (by omega) (by omega),
    ofNat_inj (by omega) (by omega), ofNat_inj (by omega) (by omega)] at heq
  omega

/-! ## The addresses of an instance -/

/-- An instance relabels the recorded addresses, each to one of its own, and shows them in its
walks where the first row of an OID has one. -/
structure RelabelsAddresses (d : ReplayDevice) (pf : Platform) : Prop where
  serves : ∀ row raw, HardwareRow row raw → ∃ v, d.Serves pf row v
  relabels : ∀ row raw v, HardwareRow row raw → d.Serves pf row v → Relabels raw v
  distinct : ∀ row row' raw raw' v v', HardwareRow row raw → HardwareRow row' raw' → raw ≠ raw' →
    d.Serves pf row v → d.Serves pf row' v' → encodeValue v ≠ encodeValue v'
  instances : ∀ (d' : ReplayDevice) (pf' : Platform), d'.macOff pf' < 2 ^ 24 →
    d.macOff pf ≠ d'.macOff pf' → ∀ row raw v v', HardwareRow row raw →
      d.Serves pf row v → d'.Serves pf' row v' → encodeValue v ≠ encodeValue v'
  walks : ∀ now memo text memo', Remembers (d.Rewrites pf) memo →
    (d.walk pf now).Runs (d.meanwhile pf) memo text memo' → ∃ rows, text = rows.flatMap rowLine ∧
      rows.map Prod.fst = d.file.rows.map Prod.fst ∧ ∀ a ∈ d.file.rows.zip rows, ∀ raw,
        HardwareRow a.1 raw → d.file.rows.find? (·.1 = a.1.1) = some a.1 → d.Serves pf a.1 a.2.2

/-- In a walk the first row of an OID shows what the instance serves for it. -/
theorem walk_serves {now : ℚ} {memo memo' : Dict Text Text} {text : Text}
    (hmemo : Remembers (d.Rewrites pf) memo)
    (hrun : (d.walk pf now).Runs (d.meanwhile pf) memo text memo') :
    ∃ rows, text = rows.flatMap rowLine ∧ rows.map Prod.fst = d.file.rows.map Prod.fst ∧
      ∀ a ∈ d.file.rows.zip rows, ∀ raw, HardwareRow a.1 raw →
        d.file.rows.find? (·.1 = a.1.1) = some a.1 → d.Serves pf a.1 a.2.2 := by
  rcases ReplayModel.ofRows_classifies d.loaded with ⟨m₀, pieces, -, hpieces, hsegments, hclassifies⟩
  rcases ReplayDevice.walk_identities hsegments hmemo hrun with ⟨rows, rfl, hrows, -⟩
  rw [← hpieces, List.map_map]
  refine ⟨rows, rfl, hrows.map_eq_map fun piece row h => h.1, ?_⟩
  intro a ha raw hraw hfirst
  have hslot : ∀ piece ∈ pieces, piece.row = a.1 →
      piece.slot = some ⟨.ifmac, a.1.1, a.1.2, 0⟩ := by
    intro piece hpiece hrow
    exact hraw.classified (hrow ▸ hclassifies.exists_classify hpiece)
  rcases hrows.exists_of_mem_zip ha with ⟨piece, hpiece, hrow, hshown⟩
  have hrewrites := hshown.2 _ (hslot piece hpiece hrow) rfl
  refine ⟨_, ?_, ReplayDevice.identityValue_of_first hsegments hfirst hslot rfl hrewrites⟩
  rw [← hslot piece hpiece hrow, ← hrow]
  exact hclassifies.exists_classify hpiece

/-- Every instance with a proper offset relabels the recorded addresses. -/
theorem addresses_relabelled (d : ReplayDevice) (pf : Platform) (hlow : 1 ≤ d.macOff pf)
    (hhigh : d.macOff pf < 2 ^ 24) : RelabelsAddresses d pf where
  serves row raw h := by
    refine ⟨_, _, ?_, h.identityValue⟩
    exact ⟨ReplayModel.empty, _, ReplayModel.classify_ifmac h.column h.reads h.six⟩
  relabels row raw v h hv := h.relabels hlow hhigh hv
  distinct row row' raw raw' v v' h h' hne hv hv' heq :=
    hne ((h.eq_of_serves h' hhigh hhigh hv hv' heq).mpr rfl)
  instances d' pf' hhigh' hne row raw v v' h hv hv' heq :=
    hne ((h.eq_of_serves h hhigh hhigh' hv hv' heq).mp rfl)
  walks now memo text memo' hmemo hrun := walk_serves hmemo hrun

theorem hardwareRow_core01 : HardwareRow
    (oidText (ifmacPrefix ++ [1]), "\"00 1B 2C FF FF FF \"".toList) [0, 27, 44, 255, 255, 255] where
  column := by decide +kernel
  reads := by decide +kernel
  six := rfl

/-- The low part of an address wraps around. -/
theorem addresses_relabelled_core01 :
    ∃ v, core01.Serves Platform.still
        (oidText (ifmacPrefix ++ [1]), "\"00 1B 2C FF FF FF \"".toList) v ∧
      Relabels [0, 27, 44, 255, 255, 255] v := by
  have hoff : core01.macOff Platform.still = 1 := rfl
  have h := addresses_relabelled core01 Platform.still (by rw [hoff]) (by rw [hoff]; norm_num)
  rcases h.serves _ _ hardwareRow_core01 with ⟨v, hv⟩
  exact ⟨v, hv, h.relabels _ _ v hardwareRow_core01 hv⟩

end Netsim
end DemoEstate
