import DemoEstate.Snmp.Walk

/-!
# What the codec gives back

An encoding is read back whatever follows it.  The other way round, a byte string that is read and
written again is the same only if it is the one the codec would have written: no octet of an
integer is redundant, and every sub-identifier is complete.

Main definitions:

- Definition {lit}`Minimal`: content octets of an integer without a redundant first octet.
- Definition {lit}`Complete`: the octets are a sequence of complete sub-identifiers.
- Definition {lit}`Unpadded`: no sub-identifier starts with an octet that only pads it.

Main results:

- Theorem {lit}`readBack_tlv`: encodings are read back from any buffer that starts with them.
- Theorem {lit}`minimal_intBody_iff`: only some negative powers of two get an octet too many.
- Theorem {lit}`echoes_iff`: the byte strings that are refused or written again unchanged.
-/

namespace DemoEstate
namespace Snmp

/-! ## Reading back -/

/-- A byte string of the interpreter. -/
abbrev Octets := { b : Bytes // Storable b }

/-- Reading an encoding, with any bytes behind it, returns its tag, its body and its length; the
content octets of every integer stand for it. -/
theorem readBack_tlv (rest : Bytes) :
    (∀ (tag : UInt8) (body : Octets),
      readTlv (tlv tag body ++ rest) 0 = .ok (tag, body, (tlv tag body).length)) ∧
    (∀ data : Octets, readTlv (encOctetStr data ++ rest) 0 =
      .ok (tOctetStr, data, (encOctetStr data).length)) ∧
    ∀ value : ℤ, decInt (intBody value) = value ∧ (Storable (intBody value) →
      readTlv (encInt value ++ rest) 0 = .ok (tInt, intBody value, (encInt value).length)) := by
  have hread : ∀ (tag : UInt8) (body : Bytes), Sized body →
      readTlv (tlv tag body ++ rest) 0 = .ok (tag, body, (tlv tag body).length) := by
    intro tag body hsize
    rw [readTlv_of_drop List.drop_zero hsize, Nat.zero_add]
  refine ⟨fun tag body => hread tag body body.2.sized, fun data => ?_, fun value => ⟨?_, ?_⟩⟩
  · exact hread tOctetStr data data.2.sized
  · exact decInt_intBody value
  · exact fun hstorable => hread tInt (intBody value) hstorable.sized

theorem readBack_tlv_negative :
    readTlv (encInt (-129) ++ [0x05]) 0 = .ok (tInt, [0xFF, 0x7F], 4) := by
  have hbody : intBody (-129) = [0xFF, 0x7F] := by decide +kernel
  have hread := ((readBack_tlv [0x05]).2.2 (-129)).2 (by rw [hbody]; norm_num [Storable])
  rw [hbody] at hread
  have hlength : (encInt (-129)).length = 4 := by decide +kernel
  rwa [hlength] at hread

/-! ## Redundant octets of integers -/

/-- The first nine bits are neither all zero nor all one, if there is more than one octet. -/
def Minimal : Bytes → Prop
  | x :: y :: _ => ¬ (x = 0 ∧ y.toNat < 0x80) ∧ ¬ (x = 0xFF ∧ 0x80 ≤ y.toNat)
  | _ => True

theorem fromBytes_cons (x : UInt8) (b : Bytes) :
    fromBytes (x :: b) = x.toNat * 256 ^ b.length + fromBytes b := by
  have hfoldl : ∀ (b : Bytes) (n : Nat),
      b.foldl (fun n x => n * 256 + x.toNat) n = n * 256 ^ b.length + fromBytes b := by
    intro b
    induction b with
    | nil => simp [fromBytes]
    | cons y b ih =>
        intro n
        rw [fromBytes, List.foldl_cons, List.foldl_cons, ih, ih (0 * 256 + y.toNat),
          List.length_cons, pow_succ]
        ring
  rw [fromBytes, List.foldl_cons, hfoldl]
  simp

theorem fromBytes_lt (b : Bytes) : fromBytes b < 256 ^ b.length := by
  induction b with
  | nil => simp [fromBytes]
  | cons x b ih =>
      have hx := x.toNat_lt
      have hmul : x.toNat * 256 ^ b.length ≤ 255 * 256 ^ b.length :=
        Nat.mul_le_mul_right _ (by omega)
      rw [fromBytes_cons, List.length_cons, pow_succ]
      omega

/-- Octets that start with a one bit are minimal unless their number is among the highest. -/
theorem minimal_iff_fromBytes {b : Bytes} {k : Nat} (hlength : b.length = k + 2)
    (hhead : 0x80 ≤ (b.headD 0).toNat) :
    Minimal b ↔ fromBytes b < 256 ^ (k + 2) - 128 * 256 ^ k := by
  match b, hlength with
  | x :: y :: b, hlength =>
      have hk : b.length = k := by simpa using hlength
      have hx := x.toNat_lt
      have hy := y.toNat_lt
      have hrest := fromBytes_lt b
      have hpos : 0 < 256 ^ k := by positivity
      have hvalue : fromBytes (x :: y :: b) =
          (256 * x.toNat + y.toNat) * 256 ^ k + fromBytes b := by
        rw [fromBytes_cons, fromBytes_cons, List.length_cons, hk, pow_succ]
        ring
      have hbound : 256 ^ (k + 2) - 128 * 256 ^ k = 65408 * 256 ^ k := by
        rw [pow_add]
        omega
      have hfull : x = 0xFF ↔ x.toNat = 255 := by
        rw [← UInt8.toNat_inj]
        rfl
      have hzero : x ≠ 0 := by
        intro h
        rw [h] at hhead
        simp at hhead
      rw [hk] at hrest
      rw [Minimal, hvalue, hbound, hfull]
      constructor
      · intro h
        have hdigits : 256 * x.toNat + y.toNat + 1 ≤ 65408 := by omega
        have hmul := Nat.mul_le_mul_right (256 ^ k) hdigits
        rw [Nat.add_mul, Nat.one_mul] at hmul
        omega
      · intro h
        refine ⟨fun h => hzero h.1, fun hones => ?_⟩
        have hdigits : 65408 ≤ 256 * x.toNat + y.toNat := by omega
        have hmul := Nat.mul_le_mul_right (256 ^ k) hdigits
        omega

/-- The octets of a number start with one that is not zero. -/
theorem octets_eq_cons {n : Nat} (h : n ≠ 0) : ∃ x b, octets n = x :: b ∧ x ≠ 0 := by
  have hdigits : Nat.digits 256 n ≠ [] := Nat.digits_ne_nil_iff_ne_zero.mpr h
  rcases List.eq_nil_or_concat (Nat.digits 256 n) with hnil | ⟨low, top, hsplit⟩
  · exact absurd hnil hdigits
  · refine ⟨UInt8.ofNat top, (low.map UInt8.ofNat).reverse, ?_, ?_⟩
    · rw [octets, hsplit]
      simp
    · have htop := Nat.getLast_digit_ne_zero 256 h
      have hlt : top < 256 := Nat.digits_lt_base (by decide) (by rw [hsplit]; simp)
      simp only [hsplit, List.concat_eq_append, List.getLast_append_singleton] at htop
      intro hzero
      have htoNat := congrArg UInt8.toNat hzero
      rw [UInt8.toNat_ofNat'] at htoNat
      simp only [UInt8.toNat_zero] at htoNat
      omega

/-- The octets of positive numbers are minimal. -/
theorem minimal_natBody (n : Nat) : Minimal (intBody n) := by
  cases n with
  | zero => trivial
  | succ n =>
      rcases octets_eq_cons (Nat.succ_ne_zero n) with ⟨x, b, hoctets, hx⟩
      change Minimal (if 0x80 ≤ (octets (n + 1)).headD 0 then _ else _)
      rw [hoctets]
      split
      · rename_i hhead
        have hhigh : 0x80 ≤ x.toNat := hhead
        exact ⟨by omega, by simp⟩
      · rename_i hhead
        have hlow : ¬ 0x80 ≤ x.toNat := hhead
        cases b with
        | nil => trivial
        | cons y b =>
            refine ⟨fun h => hx h.1, fun h => hlow ?_⟩
            rw [h.1]
            decide

/-- A negative number gets one octet too many exactly if its negation is the highest power of two
that fits the others. -/
theorem minimal_negBody_iff (m : Nat) :
    Minimal (intBody (.negSucc m)) ↔ ∀ k, m + 1 ≠ 128 * 256 ^ k := by
  set n := m + 1 with hn
  have hcount : (Nat.size n + 1 + 7) / 8 = Nat.size n / 8 + 1 := by omega
  have hsize : n < 2 ^ Nat.size n := Nat.lt_size_self n
  have hpos : 1 ≤ Nat.size n := Nat.size_pos.mpr (by omega)
  have hpow : ∀ k, (2 : Nat) ^ (8 * k + 7) = 128 * 256 ^ k := by
    intro k
    rw [pow_add, pow_mul]
    norm_num
    ring
  have hhigh : n < 128 * 256 ^ (Nat.size n / 8) := by
    rw [← hpow]
    exact hsize.trans_le (Nat.pow_le_pow_right (by decide) (by omega))
  have hbody : intBody (.negSucc m) = ((Nat.digitsAppend 256 (Nat.size n / 8 + 1)
      (256 ^ (Nat.size n / 8 + 1) - n)).map UInt8.ofNat).reverse := by
    simp only [intBody, ← hn, hcount]
  have hsucc : (256 : Nat) ^ (Nat.size n / 8 + 1) = 256 * 256 ^ (Nat.size n / 8) := pow_succ' _ _
  have hlt : 256 ^ (Nat.size n / 8 + 1) - n < 256 ^ (Nat.size n / 8 + 1) := by omega
  have hlength : (intBody (.negSucc m)).length = Nat.size n / 8 + 1 := by
    rw [hbody, List.length_reverse, List.length_map]
    exact Nat.length_digitsAppend (by decide) _ hlt
  have hhead : 0x80 ≤ ((intBody (.negSucc m)).headD 0).toNat := by
    rw [hbody]
    exact le_headD_of_le hlt (by omega)
  have hread : fromBytes (intBody (.negSucc m)) = 256 ^ (Nat.size n / 8 + 1) - n := by
    rw [hbody, fromBytes_digitsAppend]
  cases hk : Nat.size n / 8 with
  | zero =>
      -- one octet is minimal, and the number is too small for a power
      rw [hk] at hlength
      have hone : Minimal (intBody (.negSucc m)) := by
        obtain ⟨x, hx⟩ := List.length_eq_one_iff.mp hlength
        rw [hx]
        trivial
      have hsmall : n < 2 ^ 7 := hsize.trans_le (Nat.pow_le_pow_right (by decide) (by omega))
      refine iff_of_true hone fun k h => ?_
      have := Nat.one_le_pow k 256 (by decide)
      omega
  | succ j =>
      rw [hk] at hlength hread hhigh
      have hlow : 128 * 256 ^ j ≤ n := by
        have hpred : 2 ^ (Nat.size n - 1) ≤ n := by
          rw [← Nat.lt_size]
          omega
        rw [← hpow]
        exact (Nat.pow_le_pow_right (by decide) (by omega)).trans hpred
      have hfull : (256 : Nat) ^ (j + 2) = 65536 * 256 ^ j := by
        rw [pow_add]
        omega
      rw [minimal_iff_fromBytes hlength hhead, hread, hfull]
      constructor
      · intro h k hpower
        rw [hpower] at h hlow hhigh
        have hle : j ≤ k := (Nat.pow_le_pow_iff_right (by decide : 1 < 256)).mp (by omega)
        have hlt : k < j + 1 := (Nat.pow_lt_pow_iff_right (by decide : 1 < 256)).mp (by omega)
        have hkj : k = j := by omega
        rw [hkj] at h
        omega
      · intro h
        have := h j
        omega

/-- The content octets of an integer are minimal unless it is a negative power of two that would
fit in whole octets. -/
theorem minimal_intBody_iff (value : ℤ) :
    Minimal (intBody value) ↔ ∀ k : Nat, value ≠ -2 ^ (8 * k + 7) := by
  have hpow : ∀ k, (2 : ℤ) ^ (8 * k + 7) = ((128 * 256 ^ k : Nat) : ℤ) := by
    intro k
    rw [pow_add, pow_mul]
    push_cast
    ring
  cases value with
  | ofNat n =>
      refine iff_of_true (minimal_natBody n) fun k h => ?_
      have hpos : (0 : ℤ) < 2 ^ (8 * k + 7) := by positivity
      have hnonneg : (0 : ℤ) ≤ Int.ofNat n := Int.natCast_nonneg n
      omega
  | negSucc m =>
      rw [minimal_negBody_iff]
      refine forall_congr' fun k => not_congr ?_
      rw [hpow, Int.negSucc_eq]
      omega

/-- The integer −128 is written with a redundant octet. -/
theorem not_minimal_intBody : ¬ ∀ value : ℤ, Minimal (intBody value) := by
  intro hall
  have hbody : intBody (-128) = [0xFF, 0x80] := by decide +kernel
  have hminimal := hall (-128)
  rw [hbody] at hminimal
  exact hminimal.2 (by decide)

/-! ## Sub-identifiers -/

/-- The last octet, if there is one, has its continuation bit clear. -/
def Ended (b : Bytes) : Prop :=
  ∀ x ∈ b.getLast?, x.toNat < 0x80

/-- A sequence of complete sub-identifiers. -/
def Complete (b : Bytes) : Prop :=
  b ≠ [] ∧ Ended b

/-- No sub-identifier starts with the octet 0x80; the flag tells whether one starts here. -/
def Unpadded : Bool → Bytes → Prop
  | _, [] => True
  | start, x :: b => (start = true → x ≠ 0x80) ∧ Unpadded (decide (x.toNat < 0x80)) b

theorem ended_nil : Ended [] := by
  simp [Ended]

theorem ended_cons {x y : UInt8} {b : Bytes} : Ended (x :: y :: b) ↔ Ended (y :: b) := by
  rw [Ended, Ended, List.getLast?_cons_cons]

theorem Ended.tail {x : UInt8} {b : Bytes} (h : Ended (x :: b)) : Ended b := by
  cases b with
  | nil => exact ended_nil
  | cons y b => exact ended_cons.mp h

/-- Behind a continued octet comes another one. -/
theorem Ended.continued {x : UInt8} {b : Bytes} (h : Ended (x :: b)) (hx : ¬ x.toNat < 0x80) :
    b ≠ [] := by
  rintro rfl
  exact hx (h x rfl)

/-- The continued octets of a number; zero has none. -/
def continued (n : Nat) : Bytes :=
  ((Nat.digits 0x80 n).map fun d => UInt8.ofNat (d ||| 0x80)).reverse

theorem continued_zero : continued 0 = [] := rfl

/-- One more octet continues the number with its low seven bits. -/
theorem continued_step {n : Nat} {x : UInt8} (hx : ¬ x.toNat < 0x80)
    (hne : n * 0x80 + x.toNat % 0x80 ≠ 0) :
    continued (n * 0x80 + x.toNat % 0x80) = continued n ++ [x] := by
  have hlt := x.toNat_lt
  have hdigits : Nat.digits 0x80 (n * 0x80 + x.toNat % 0x80) =
      x.toNat % 0x80 :: Nat.digits 0x80 n := by
    rw [Nat.digits_def' (by decide) (Nat.pos_of_ne_zero hne)]
    congr 1
    · omega
    · congr 1
      omega
  have hoctet : UInt8.ofNat (x.toNat % 0x80 ||| 0x80) = x := by
    rw [← UInt8.toNat_inj, toNat_continued (Nat.mod_lt _ (by decide))]
    omega
  rw [continued, hdigits, List.map_cons, List.reverse_cons, hoctet, continued]

/-- The last octet closes the sub-identifier. -/
theorem subid_step {n : Nat} {x : UInt8} (hx : x.toNat < 0x80) :
    subid (n * 0x80 + x.toNat % 0x80) = continued n ++ [x] := by
  have hmod : (n * 0x80 + x.toNat % 0x80) % 0x80 = x.toNat := by omega
  have hdiv : (n * 0x80 + x.toNat % 0x80) / 0x80 = n := by omega
  by_cases hn : n = 0
  · rw [hn, Nat.zero_mul, Nat.zero_add, Nat.mod_eq_of_lt hx, subid, if_pos hx, continued_zero,
      UInt8.ofNat_toNat]
    rfl
  · rw [subid, if_neg (by omega), hmod, hdiv, List.reverse_cons, UInt8.ofNat_toNat, continued]

/-- Complete sub-identifiers without padding are written as they were read, behind the octets of
the number read so far. -/
theorem flatMap_subid_arcs {b : Bytes} {n : Nat} (hended : Ended b) (hopen : b = [] → n = 0)
    (hunpadded : Unpadded (decide (n = 0)) b) : (arcs n b).flatMap subid = continued n ++ b := by
  induction b generalizing n with
  | nil =>
      rw [hopen rfl]
      rfl
  | cons x b ih =>
      rw [arcs]
      by_cases hx : x.toNat < 0x80
      · have hrest := ih (n := 0) hended.tail (fun _ => rfl) (by simpa [hx] using hunpadded.2)
        rw [if_pos hx, List.flatMap_cons, subid_step hx, hrest]
        simp [continued_zero]
      · have hne : n * 0x80 + x.toNat % 0x80 ≠ 0 := by
          intro hzero
          have hlt := x.toNat_lt
          refine hunpadded.1 (by simp; omega) ?_
          rw [← UInt8.toNat_inj]
          change x.toNat = 128
          omega
        have hinside : Unpadded (decide (n * 0x80 + x.toNat % 0x80 = 0)) b := by
          rw [decide_eq_false hne, ← decide_eq_false hx]
          exact hunpadded.2
        have hrest := ih hended.tail (fun h => absurd h (hended.continued hx)) hinside
        rw [if_neg hx, hrest, continued_step hx hne]
        simp

/-- What is accepted, refused and given back as the encoding of an object identifier. -/
structure Echoes (b : Bytes) : Prop where
  accepts : (∃ oid, bytesToOid b = .ok oid) ↔ Complete b
  refuses : ¬ Complete b → ∃ text, bytesToOid b = .error (.berError text)
  echoes : ∀ oid, bytesToOid b = .ok oid → Unpadded true b → oidToBytes oid = .ok b

/-- The first octet gives its two arcs, which are joined again. -/
theorem oidToBytes_bytesToOid (x : UInt8) (b : Bytes) {oid : Oid}
    (h : bytesToOid (x :: b) = .ok oid) :
    oidToBytes oid = .ok (subid x.toNat ++ (arcs 0 b).flatMap subid) := by
  rw [bytesToOid, Except.ok.injEq] at h
  have hfirst : 40 * (x.toNat / 40) + x.toNat % 40 = x.toNat := by omega
  rw [← h, oidToBytes, hfirst]

/-- A first octet with its continuation bit set is written as two. -/
theorem subid_append_ne {x : UInt8} (hx : ¬ x.toNat < 0x80) (b : Bytes) :
    subid x.toNat ++ (arcs 0 b).flatMap subid ≠ x :: b := by
  intro heq
  have hlt := x.toNat_lt
  have hdiv : x.toNat / 0x80 = 1 := by omega
  have hsubid : subid x.toNat = [0x81, UInt8.ofNat (x.toNat % 0x80)] := by
    rw [subid, if_neg hx, hdiv]
    rfl
  rw [hsubid, List.cons_append, List.cons.injEq] at heq
  rcases heq with ⟨rfl, hb⟩
  -- the octets written for the rest are the rest without its first octet, but read like it
  have harcs : arcs 0 b = 1 :: arcs 0 b := by
    conv_lhs => rw [← hb]
    have hone := arcs_subid 1 ((arcs 0 b).flatMap subid)
    rwa [arcs_flatMap_subid] at hone
  exact List.cons_ne_self 1 (arcs 0 b) harcs.symm

/-- The strings that are refused as they should be, or come back unchanged: the empty one, and
complete ones whose first octet stands alone. -/
theorem echoes_iff (b : Bytes) :
    Echoes b ↔ b = [] ∨ (Complete b ∧ ((b.headD 0).toNat < 0x80 ∨ ¬ Unpadded true b)) := by
  cases b with
  | nil =>
      refine iff_of_true ⟨?_, ?_, ?_⟩ (Or.inl rfl)
      · simp [bytesToOid, Complete]
      · exact fun _ => ⟨_, rfl⟩
      · simp [bytesToOid]
  | cons x b =>
      have haccepted : ∃ oid, bytesToOid (x :: b) = .ok oid := ⟨_, rfl⟩
      rcases haccepted with ⟨oid, hoid⟩
      have hwritten := oidToBytes_bytesToOid x b hoid
      simp only [reduceCtorEq, false_or, List.headD_cons]
      constructor
      · intro h
        refine ⟨h.accepts.mp ⟨oid, hoid⟩, ?_⟩
        by_contra hneither
        rcases not_or.mp hneither with ⟨hx, hunpadded⟩
        have hecho := h.echoes oid hoid (not_not.mp hunpadded)
        rw [hwritten, Except.ok.injEq] at hecho
        exact subid_append_ne hx b hecho
      · intro h
        rcases h with ⟨hcomplete, hfirst⟩
        refine ⟨⟨fun _ => hcomplete, fun _ => ⟨oid, hoid⟩⟩, fun hnot => absurd hcomplete hnot, ?_⟩
        intro oid' hoid' hunpadded
        rcases hfirst with hx | hpadded
        · have hrest := flatMap_subid_arcs (n := 0) hcomplete.2.tail (fun _ => rfl)
            (by simpa [hx] using hunpadded.2)
          rw [oidToBytes_bytesToOid x b hoid', hrest, subid, if_pos hx, UInt8.ofNat_toNat]
          rfl
        · exact absurd hunpadded hpadded

/-- A truncated last sub-identifier is dropped silently. -/
theorem not_echoes_truncated : ¬ ∀ b : Bytes, Echoes b := by
  intro hall
  have haccepts := (hall [0x2B, 0x86]).accepts.mp ⟨_, rfl⟩
  exact absurd (haccepts.2 0x86 rfl) (by decide)

end Snmp
end DemoEstate
