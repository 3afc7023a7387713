import Mathlib.Data.Nat.Digits.Lemmas
import Mathlib.Data.Nat.Size
import DemoEstate.Library.Text

/-!
# The BER codec of the responder

Tag-length-value encoding with definite lengths, integers in two's complement
and object identifiers in base 128, as the responder writes and reads them.

Main results:

- Theorem {lit}`readTlv_of_drop`: reading at the start of an encoding returns its
  tag and body and stops right behind it.
- Theorem {lit}`decInt_intBody`: an integer is read back.
- Theorem {lit}`bytesToOid_oidToBytes`: an object identifier with a one-octet
  first sub-identifier is read back.
-/

namespace DemoEstate
namespace Snmp

/-- A byte string. -/
abbrev Bytes := List UInt8

/-- The exceptions the responder's functions raise. -/
inductive Raised where
  | berError (text : Text)
  | valueError
  | assertionError
deriving DecidableEq

/-- A result, or an exception. -/
abbrev Result := Except Raised

instance {α : Type} [DecidableEq α] : DecidableEq (Result α)
  | .ok a, .ok b => decidable_of_iff (a = b) (by simp)
  | .error e, .error f => decidable_of_iff (e = f) (by simp)
  | .ok _, .error _ => isFalse (by simp)
  | .error _, .ok _ => isFalse (by simp)

/-! ## Tags -/

/-- Universal tags. -/
def tInt : UInt8 := 0x02
def tOctetStr : UInt8 := 0x04
def tNull : UInt8 := 0x05
def tOid : UInt8 := 0x06
def tSeq : UInt8 := 0x30

/-- Context tags of the protocol data units and of the exceptional values. -/
def tGet : UInt8 := 0xA0
def tGetNext : UInt8 := 0xA1
def tResponse : UInt8 := 0xA2
def tGetBulk : UInt8 := 0xA5
def tNoSuchInstance : UInt8 := 0x81
def tEndOfMibView : UInt8 := 0x82

/-! ## Octets of numbers -/

/-- The big-endian octets of a number; zero has none. -/
def octets (n : Nat) : Bytes :=
  ((Nat.digits 256 n).map UInt8.ofNat).reverse

/-- The number with the given big-endian octets. -/
def fromBytes (b : Bytes) : Nat :=
  b.foldl (fun n x => n * 256 + x.toNat) 0

theorem foldl_octets (ds : List Nat) (hds : ∀ d ∈ ds, d < 256) (n : Nat) :
    ((ds.map UInt8.ofNat).reverse).foldl (fun n x => n * 256 + x.toNat) n =
      n * 256 ^ ds.length + Nat.ofDigits 256 ds := by
  induction ds generalizing n with
  | nil => simp
  | cons d ds ih =>
      have hd : (UInt8.ofNat d).toNat = d := by
        rw [UInt8.toNat_ofNat']
        exact Nat.mod_eq_of_lt (hds d List.mem_cons_self)
      simp only [List.map_cons, List.reverse_cons, List.foldl_append, List.foldl_cons,
        List.foldl_nil, hd]
      rw [ih fun x hx => hds x (List.mem_cons_of_mem d hx)]
      simp only [List.length_cons, Nat.ofDigits_cons, pow_succ]
      ring

theorem fromBytes_octets (n : Nat) : fromBytes (octets n) = n := by
  rw [fromBytes, octets, foldl_octets _ fun d hd => Nat.digits_lt_base (by decide) hd,
    Nat.ofDigits_digits]
  simp

theorem length_octets_le {n k : Nat} (h : n < 256 ^ k) : (octets n).length ≤ k := by
  rw [octets, List.length_reverse, List.length_map]
  exact (Nat.digits_length_le_iff (by decide) n).mpr h

theorem octets_ne_nil {n : Nat} (h : n ≠ 0) : octets n ≠ [] := by
  simp [octets, Nat.digits_ne_nil_iff_ne_zero, h]

/-! ## Lengths and encodings -/

/-- A definite length, short or long form. -/
def encLen (n : Nat) : Bytes :=
  if n < 0x80 then [UInt8.ofNat n]
  else UInt8.ofNat (0x80 ||| (octets n).length) :: octets n

/-- Tag, length and body. -/
def tlv (tag : UInt8) (body : Bytes) : Bytes :=
  tag :: (encLen body.length ++ body)

/-- Longer bodies have longer encodings. -/
theorem length_encLen_mono {m n : Nat} (h : m ≤ n) : (encLen m).length ≤ (encLen n).length := by
  have hdigits : (octets m).length ≤ (octets n).length := by
    simpa [octets] using Nat.le_length_digits_le 256 m n h
  unfold encLen
  split <;> split
  · simp
  · simp
  · omega
  · simpa using hdigits

/-- Different bodies have different encodings. -/
theorem tlv_injective (tag : UInt8) : Function.Injective (tlv tag) := by
  intro a b h
  have htail : encLen a.length ++ a = encLen b.length ++ b := (List.cons.inj h).2
  have hlen := congrArg List.length htail
  simp only [List.length_append] at hlen
  have hab : a.length = b.length := by
    rcases lt_trichotomy a.length b.length with hlt | heq | hlt
    · have := length_encLen_mono hlt.le
      omega
    · exact heq
    · have := length_encLen_mono hlt.le
      omega
  rw [hab] at htail
  exact List.append_cancel_left htail

/-- The content octets of an integer: minimal two's complement, at least one octet. -/
def intBody : ℤ → Bytes
  | .ofNat 0 => [0]
  | .ofNat (n + 1) =>
      let body := octets (n + 1)
      -- keep it positive
      if 0x80 ≤ body.headD 0 then 0 :: body else body
  | .negSucc m =>
      let bits := Nat.size (m + 1) + 1
      let nbytes := (bits + 7) / 8
      let val := 256 ^ nbytes - (m + 1)
      ((Nat.digitsAppend 256 nbytes val).map UInt8.ofNat).reverse

def encInt (value : ℤ) : Bytes :=
  tlv tInt (intBody value)

def encOctetStr (data : Bytes) : Bytes :=
  tlv tOctetStr data

def encNull : Bytes :=
  tlv tNull []

/-- A slice of a byte string. -/
def slice (buf : Bytes) (pos len : Nat) : Bytes :=
  (buf.drop pos).take len

/-- Read the body of an encoding whose length is known. -/
def readBody (buf : Bytes) (tag : UInt8) (pos length : Nat) : Result (UInt8 × Bytes × Nat) :=
  if buf.length < pos + length then .error (.berError "truncated body".toList)
  else .ok (tag, slice buf pos length, pos + length)

/-- Read one encoding: its tag, its body and the position behind it. -/
def readTlv (buf : Bytes) (pos : Nat) : Result (UInt8 × Bytes × Nat) :=
  match buf[pos]?, buf[pos + 1]? with
  | none, _ => .error (.berError "truncated tag".toList)
  | some _, none => .error (.berError "truncated length".toList)
  | some tag, some first =>
      if first.toNat < 0x80 then readBody buf tag (pos + 2) first.toNat
      else
        let nbytes := first.toNat % 0x80
        if nbytes = 0 ∨ buf.length < pos + 2 + nbytes then
          .error (.berError "bad long-form length".toList)
        else readBody buf tag (pos + 2 + nbytes) (fromBytes (slice buf (pos + 2) nbytes))

/-- The sizes whose length octets one octet can count. -/
def Sized (b : Bytes) : Prop :=
  b.length < 256 ^ 127

theorem Sized.of_append_left {a b : Bytes} (h : Sized (a ++ b)) : Sized a := by
  unfold Sized at *
  rw [List.length_append] at h
  omega

theorem Sized.of_append_right {a b : Bytes} (h : Sized (a ++ b)) : Sized b := by
  unfold Sized at *
  rw [List.length_append] at h
  omega

theorem Sized.of_mem_flatten {pieces : List Bytes} {x : Bytes} (h : Sized pieces.flatten)
    (hx : x ∈ pieces) : Sized x :=
  lt_of_le_of_lt (List.sublist_flatten_of_mem hx).length_le h

theorem Sized.of_tlv {tag : UInt8} {body : Bytes} (h : Sized (tlv tag body)) : Sized body :=
  Sized.of_append_right (a := tag :: encLen body.length) h

/-- Behind a piece of a buffer lies what follows the piece. -/
theorem drop_of_drop_append {buf x rest : Bytes} {pos : Nat} (h : buf.drop pos = x ++ rest) :
    buf.drop (pos + x.length) = rest := by
  rw [← List.drop_drop, h, List.drop_left]

theorem readBody_of_drop {buf body rest : Bytes} {pos : Nat} (tag : UInt8)
    (h : buf.drop pos = body ++ rest) (hpos : pos ≤ buf.length) :
    readBody buf tag pos body.length = .ok (tag, body, pos + body.length) := by
  have hlen : buf.length - pos = body.length + rest.length := by
    rw [← List.length_drop, h, List.length_append]
  rw [readBody, if_neg (by omega), slice, h, List.take_left]

/-- Reading where an encoding starts returns its tag and body and stops behind it. -/
theorem readTlv_of_drop {buf body rest : Bytes} {pos : Nat} {tag : UInt8}
    (h : buf.drop pos = tlv tag body ++ rest) (hsize : Sized body) :
    readTlv buf pos = .ok (tag, body, pos + (tlv tag body).length) := by
  have hat : ∀ i, buf[pos + i]? = (tlv tag body ++ rest)[i]? := by
    intro i
    rw [← h, List.getElem?_drop]
  have hlen : buf.length = pos + (tlv tag body ++ rest).length := by
    have hdrop := congrArg List.length h
    rw [List.length_drop] at hdrop
    have hpos : (tlv tag body ++ rest).length ≠ 0 := by simp [tlv]
    omega
  have h₀ : buf[pos]? = some tag := by simpa [tlv] using hat 0
  have hbehind : ∀ k, buf.drop (pos + k) = (tlv tag body ++ rest).drop k := by
    intro k
    rw [← h, List.drop_drop]
  by_cases hshort : body.length < 0x80
  · have htlv : tlv tag body = tag :: UInt8.ofNat body.length :: body := by
      simp [tlv, encLen, hshort]
    have h₁ : buf[pos + 1]? = some (UInt8.ofNat body.length) := by
      rw [hat 1, htlv]
      rfl
    have hfirst : (UInt8.ofNat body.length).toNat = body.length := by
      rw [UInt8.toNat_ofNat']
      omega
    have hdrop : buf.drop (pos + 2) = body ++ rest := by
      rw [hbehind 2, htlv]
      rfl
    have hbody := readBody_of_drop tag hdrop (by rw [hlen, htlv]; simp)
    simp only [readTlv, h₀, h₁, hfirst, if_pos hshort, hbody]
    rw [htlv, List.length_cons, List.length_cons]
    congr 3
    omega
  · have hne : body.length ≠ 0 := by omega
    have hcount : (octets body.length).length ≤ 127 := length_octets_le hsize
    have hsome : 0 < (octets body.length).length :=
      List.length_pos_of_ne_nil (octets_ne_nil hne)
    have hor : 0x80 ||| (octets body.length).length = 128 + (octets body.length).length := by
      have hlt : (octets body.length).length < 2 ^ 7 := by omega
      have hadd := Nat.two_pow_add_eq_or_of_lt hlt 1
      simpa using hadd.symm
    have htlv : tlv tag body =
        tag :: UInt8.ofNat (128 + (octets body.length).length) :: (octets body.length ++ body) := by
      simp [tlv, encLen, hshort, hor]
    have h₁ : buf[pos + 1]? = some (UInt8.ofNat (128 + (octets body.length).length)) := by
      rw [hat 1, htlv]
      rfl
    have hfirst : (UInt8.ofNat (128 + (octets body.length).length)).toNat =
        128 + (octets body.length).length := by
      rw [UInt8.toNat_ofNat']
      omega
    have hmod : (128 + (octets body.length).length) % 0x80 = (octets body.length).length := by
      omega
    have hslice : slice buf (pos + 2) (octets body.length).length = octets body.length := by
      rw [slice, hbehind 2, htlv]
      simp
    have hdrop : buf.drop (pos + 2 + (octets body.length).length) = body ++ rest := by
      rw [add_assoc, hbehind, htlv, Nat.add_comm 2]
      simp
    have hbody := readBody_of_drop tag hdrop (by rw [hlen, htlv]; simp; omega)
    have hlong : ¬ 128 + (octets body.length).length < 0x80 := by omega
    have hroom : ¬ ((octets body.length).length = 0 ∨
        buf.length < pos + 2 + (octets body.length).length) := by
      rw [hlen, htlv]
      simp only [List.length_append, List.length_cons]
      omega
    simp only [readTlv, h₀, h₁, hfirst, hmod, hslice, fromBytes_octets, hbody, if_neg hlong,
      if_neg hroom]
    rw [htlv]
    simp only [List.length_cons, List.length_append]
    congr 3
    omega

/-- An encoding on its own is read whole. -/
theorem readTlv_tlv (tag : UInt8) {body : Bytes} (hsize : Sized body) :
    readTlv (tlv tag body) 0 = .ok (tag, body, (tlv tag body).length) := by
  have h : (tlv tag body).drop 0 = tlv tag body ++ [] := (List.append_nil _).symm
  rw [readTlv_of_drop h hsize, Nat.zero_add]

/-! ## Integers -/

/-- The signed number with the given octets. -/
def decInt (body : Bytes) : ℤ :=
  if body = [] then 0
  else if 0x80 ≤ (body.headD 0).toNat then fromBytes body - 256 ^ body.length
  else fromBytes body

/-- A non-negative integer is read back. -/
theorem decInt_natBody (n : Nat) : decInt (intBody n) = n := by
  cases n with
  | zero => rfl
  | succ n =>
      have hne : octets (n + 1) ≠ [] := octets_ne_nil (Nat.succ_ne_zero n)
      change decInt (if 0x80 ≤ (octets (n + 1)).headD 0 then _ else _) = _
      split
      · have hzero : fromBytes (0 :: octets (n + 1)) = n + 1 := by
          rw [fromBytes, List.foldl_cons]
          exact fromBytes_octets (n + 1)
        rw [decInt, if_neg (by simp), if_neg (by simp), hzero]
      · rename_i hhead
        have hlow : ¬ 0x80 ≤ ((octets (n + 1)).headD 0).toNat := fun h => hhead h
        rw [decInt, if_neg hne, if_neg hlow, fromBytes_octets]

/-- A number with a given count of big-endian octets is read back. -/
theorem fromBytes_digitsAppend (n k : Nat) :
    fromBytes ((Nat.digitsAppend 256 k n).map UInt8.ofNat).reverse = n := by
  rw [fromBytes, foldl_octets _ fun d hd => Nat.lt_of_mem_digitsAppend (by decide) k d hd,
    Nat.digitsAppend, Nat.ofDigits_append_replicate_zero, Nat.ofDigits_digits]
  simp

/-- The first of several octets is the number's highest digit. -/
theorem le_headD_of_le {n k : Nat} (h : n < 256 ^ (k + 1)) (hhigh : 128 * 256 ^ k ≤ n) :
    0x80 ≤ ((((Nat.digitsAppend 256 (k + 1) n).map UInt8.ofNat).reverse).headD 0).toNat := by
  have hlen := Nat.length_digitsAppend (by decide : 1 < 256) (k + 1) h
  rcases List.eq_nil_or_concat (Nat.digitsAppend 256 (k + 1) n) with hnil | ⟨low, d, hds⟩
  · rw [hnil] at hlen
    cases hlen
  have hdigit : ∀ x ∈ low ++ [d], x < 256 := by
    intro x hx
    rw [← List.concat_eq_append, ← hds] at hx
    exact Nat.lt_of_mem_digitsAppend (by decide) (k + 1) x hx
  have hvalue : n = Nat.ofDigits 256 low + 256 ^ low.length * d := by
    have hall : Nat.ofDigits 256 (Nat.digitsAppend 256 (k + 1) n) = n := by
      rw [Nat.digitsAppend, Nat.ofDigits_append_replicate_zero, Nat.ofDigits_digits]
    rw [hds, List.concat_eq_append, Nat.ofDigits_append] at hall
    simpa using hall.symm
  have hlow : low.length = k := by
    rw [hds] at hlen
    simpa using hlen
  have hsmall : Nat.ofDigits 256 low < 256 ^ k := by
    rw [← hlow]
    exact Nat.ofDigits_lt_base_pow_length (by decide) fun x hx =>
      hdigit x (List.mem_append_left _ hx)
  have hd : d < 256 := hdigit d (by simp)
  have htop : 128 ≤ d := by
    by_contra hlt
    have hmul : 256 ^ k * d ≤ 256 ^ k * 127 := Nat.mul_le_mul_left _ (by omega)
    rw [hlow] at hvalue
    omega
  rw [hds]
  simp only [List.concat_eq_append, List.map_append, List.map_cons, List.map_nil,
    List.reverse_append, List.reverse_cons, List.reverse_nil, List.nil_append, List.singleton_append,
    List.headD_cons, UInt8.toNat_ofNat']
  omega

/-- Every integer is read back. -/
theorem decInt_intBody (value : ℤ) : decInt (intBody value) = value := by
  cases value with
  | ofNat n => exact decInt_natBody n
  | negSucc m =>
      have hcount : ∃ k, (Nat.size (m + 1) + 1 + 7) / 8 = k + 1 := by
        use Nat.size (m + 1) / 8
        omega
      rcases hcount with ⟨k, hk⟩
      have hm : m + 1 ≤ 128 * 256 ^ k := by
        have hsize : m + 1 < 2 ^ Nat.size (m + 1) := Nat.lt_size_self _
        have hpow : 2 ^ Nat.size (m + 1) ≤ 2 ^ (8 * k + 7) :=
          Nat.pow_le_pow_right (by decide) (by omega)
        have heq : (2 : Nat) ^ (8 * k + 7) = 128 * 256 ^ k := by
          rw [pow_add, pow_mul]
          norm_num
          ring
        omega
      have hpow : (256 : Nat) ^ (k + 1) = 256 * 256 ^ k := pow_succ' 256 k
      have hlt : 256 ^ (k + 1) - (m + 1) < 256 ^ (k + 1) := by omega
      have hlen := Nat.length_digitsAppend (by decide : 1 < 256) (k + 1) hlt
      have hhead := le_headD_of_le hlt (by omega)
      have hread := fromBytes_digitsAppend (256 ^ (k + 1) - (m + 1)) (k + 1)
      have hbody : intBody (.negSucc m) =
          ((Nat.digitsAppend 256 (k + 1) (256 ^ (k + 1) - (m + 1))).map UInt8.ofNat).reverse := by
        simp only [intBody, hk]
      have hne : intBody (.negSucc m) ≠ [] := by
        rw [hbody]
        intro hnil
        have hzero := congrArg List.length hnil
        simp [hlen] at hzero
      rw [decInt, if_neg hne, hbody, if_pos hhead, hread]
      simp only [List.length_reverse, List.length_map, hlen, Int.negSucc_eq]
      have hle : m + 1 ≤ 256 ^ (k + 1) := by omega
      rw [Nat.cast_sub hle]
      push_cast
      ring
/-! ## Object identifiers -/

/-- An object identifier, as its arcs. -/
abbrev Oid := List Nat

/-- One sub-identifier: base 128, the high bit set on every octet but the last. -/
def subid (n : Nat) : Bytes :=
  if n < 0x80 then [UInt8.ofNat n]
  else
    let chunks := UInt8.ofNat (n % 0x80) ::
      (Nat.digits 0x80 (n / 0x80)).map fun d => UInt8.ofNat (d ||| 0x80)
    chunks.reverse

/-- The text of a tuple of at most one number. -/
def tupleText : List Nat → Text
  | [] => "()".toList
  | n :: _ => '(' :: Text.decimal n ++ ",)".toList

/-- The content octets of an object identifier; the first two arcs share one. -/
def oidToBytes : Oid → Result Bytes
  | a :: b :: rest => .ok (subid (40 * a + b) ++ rest.flatMap subid)
  | oid => .error (.berError ("OID too short: ".toList ++ tupleText oid))

def encOid (oid : Oid) : Result Bytes :=
  (oidToBytes oid).map (tlv tOid)

/-- The arcs in a sequence of sub-identifiers, with the high part of the current one. -/
def arcs : Nat → Bytes → List Nat
  | _, [] => []
  | n, b :: bs =>
      let n := n * 0x80 + b.toNat % 0x80
      if b.toNat < 0x80 then n :: arcs 0 bs else arcs n bs

/-- Read the content octets of an object identifier. -/
def bytesToOid : Bytes → Result Oid
  | [] => .error (.berError "empty OID".toList)
  | first :: rest => .ok (first.toNat / 40 :: first.toNat % 40 :: arcs 0 rest)

theorem toNat_continued {d : Nat} (hd : d < 0x80) : (UInt8.ofNat (d ||| 0x80)).toNat = d + 128 := by
  have hadd := Nat.two_pow_add_eq_or_of_lt (i := 7) (by omega : d < 2 ^ 7) 1
  rw [UInt8.toNat_ofNat', Nat.or_comm]
  norm_num at hadd
  omega

/-- Continued octets accumulate their base-128 digits. -/
theorem arcs_continued (ds : List Nat) (hds : ∀ d ∈ ds, d < 0x80) (n : Nat) (bs : Bytes) :
    arcs n ((ds.map fun d => UInt8.ofNat (d ||| 0x80)).reverse ++ bs) =
      arcs (n * 0x80 ^ ds.length + Nat.ofDigits 0x80 ds) bs := by
  induction ds generalizing n bs with
  | nil => simp
  | cons d ds ih =>
      have hd : d < 0x80 := hds d List.mem_cons_self
      have htail : ∀ x ∈ ds, x < 0x80 := fun x hx => hds x (List.mem_cons_of_mem d hx)
      rw [List.map_cons, List.reverse_cons, List.append_assoc, ih htail]
      simp only [List.singleton_append, arcs, toNat_continued hd]
      rw [if_neg (by omega)]
      congr 1
      simp only [List.length_cons, Nat.ofDigits_cons, pow_succ]
      have hmod : (d + 128) % 0x80 = d := by omega
      rw [hmod]
      ring

/-- A sub-identifier is read back, whatever follows it. -/
theorem arcs_subid (n : Nat) (bs : Bytes) : arcs 0 (subid n ++ bs) = n :: arcs 0 bs := by
  by_cases hn : n < 0x80
  · have hfirst : (UInt8.ofNat n).toNat = n := by
      rw [UInt8.toNat_ofNat']
      omega
    rw [subid, if_pos hn]
    simp only [List.singleton_append, arcs, hfirst]
    rw [if_pos hn, Nat.mod_eq_of_lt hn]
    simp
  · have hlast : (UInt8.ofNat (n % 0x80)).toNat = n % 0x80 := by
      rw [UInt8.toNat_ofNat']
      omega
    rw [subid, if_neg hn]
    simp only [List.reverse_cons, List.append_assoc]
    rw [arcs_continued _ fun d hd => Nat.digits_lt_base (by decide) hd]
    simp only [List.singleton_append, arcs, hlast, Nat.ofDigits_digits]
    rw [if_pos (Nat.mod_lt n (by decide))]
    congr 1
    omega

theorem arcs_flatMap_subid (rest : List Nat) : arcs 0 (rest.flatMap subid) = rest := by
  induction rest with
  | nil => rfl
  | cons n rest ih => rw [List.flatMap_cons, arcs_subid, ih]

/-- The first octet of a sub-identifier is the number itself, or has the high bit set. -/
theorem subid_head (n : Nat) : ∃ x xs, subid n = x :: xs ∧ min n 0x80 ≤ x.toNat := by
  by_cases hshort : n < 0x80
  · refine ⟨UInt8.ofNat n, [], by rw [subid, if_pos hshort], ?_⟩
    rw [UInt8.toNat_ofNat']
    omega
  · have hne : Nat.digits 0x80 (n / 0x80) ≠ [] := by
      rw [Nat.digits_ne_nil_iff_ne_zero]
      omega
    have hdigits : ∀ d ∈ Nat.digits 0x80 (n / 0x80), d < 0x80 := fun d hd =>
      Nat.digits_lt_base (by decide) hd
    rw [subid, if_neg hshort]
    simp only [List.reverse_cons]
    cases hrev : ((Nat.digits 0x80 (n / 0x80)).map fun d => UInt8.ofNat (d ||| 0x80)).reverse with
    | nil => simp [hne] at hrev
    | cons x xs =>
        refine ⟨x, xs ++ [UInt8.ofNat (n % 0x80)], rfl, ?_⟩
        have hx : x ∈ (Nat.digits 0x80 (n / 0x80)).map fun d => UInt8.ofNat (d ||| 0x80) := by
          rw [← List.mem_reverse, hrev]
          exact List.mem_cons_self
        rcases List.mem_map.mp hx with ⟨d, hd, rfl⟩
        rw [toNat_continued (hdigits d hd)]
        omega

/-- An identifier whose first two arcs fit one octet is read back. -/
theorem bytesToOid_oidToBytes {a b : Nat} (hb : b < 40) (ha : 40 * a + b < 0x80) (rest : List Nat) :
    (oidToBytes (a :: b :: rest)).bind bytesToOid = .ok (a :: b :: rest) := by
  have hfirst : (UInt8.ofNat (40 * a + b)).toNat = 40 * a + b := by
    rw [UInt8.toNat_ofNat']
    omega
  have hdiv : (40 * a + b) / 40 = a := by omega
  have hmod : (40 * a + b) % 40 = b := by omega
  change bytesToOid (subid (40 * a + b) ++ rest.flatMap subid) = _
  rw [subid, if_pos ha, List.singleton_append, bytesToOid, hfirst, hdiv, hmod, arcs_flatMap_subid]

/-- At least two arcs, the first at most 2, and the second at most 39 unless the first is 2. -/
def ValidOid (oid : Oid) : Prop :=
  ∃ a b rest, oid = a :: b :: rest ∧ a ≤ 2 ∧ (a ≤ 1 → b ≤ 39)

/-- A valid identifier is read back exactly if its second arc is at most 39. -/
theorem readBack_iff {a b : Nat} {rest : List Nat} (hvalid : ValidOid (a :: b :: rest)) :
    (oidToBytes (a :: b :: rest)).bind bytesToOid = .ok (a :: b :: rest) ↔ b ≤ 39 := by
  rcases hvalid with ⟨a', b', rest', heq, ha, hb⟩
  cases heq
  constructor
  · intro hread
    rcases subid_head (40 * a + b) with ⟨x, xs, hsubid, hx⟩
    change bytesToOid (subid (40 * a + b) ++ rest.flatMap subid) = _ at hread
    rw [hsubid, List.cons_append, bytesToOid, Except.ok.injEq, List.cons.injEq] at hread
    -- the first octet gives the first arc back only below 40 * (a + 1)
    have hfirst := hread.1
    by_contra hlarge
    omega
  · intro hsmall
    exact bytesToOid_oidToBytes (by omega) (by omega) rest

theorem readBack_iff_sysDescr :
    (oidToBytes [1, 3, 6, 1, 2, 1, 1, 1, 0]).bind bytesToOid = .ok [1, 3, 6, 1, 2, 1, 1, 1, 0] ↔
      3 ≤ 39 :=
  readBack_iff ⟨1, 3, [6, 1, 2, 1, 1, 1, 0], rfl, by decide, by decide⟩

/-- The identifier 2.999.3 is read back as another one. -/
theorem not_readBack_joint : ¬ ∀ oid, ValidOid oid →
    (oidToBytes oid).bind bytesToOid = .ok oid := by
  intro hall
  have hread := hall [2, 999, 3] ⟨2, 999, [3], rfl, by decide, by decide⟩
  exact absurd hread (by decide +kernel)

end Snmp
end DemoEstate
