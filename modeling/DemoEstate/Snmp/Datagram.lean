import DemoEstate.Snmp.Message

/-!
# Arbitrary datagrams

The responder reads datagrams from anyone.  It takes the community from a datagram
in one function, to choose the table, and parses the whole request in another.

Main results:

- Theorem {lit}`readTlv_safe`: a successful read moves forward and stays in its buffer.
- Theorem {lit}`parseVarbindsWithin_eq`: the loop over a binding list ends.
- Theorem {lit}`datagram_safe`: any datagram is dropped, answered or refused with a
  decoding error.
- Theorem {lit}`routing_faithful`: a reply comes from the table of the community that
  the datagram names.
-/

namespace DemoEstate
namespace Snmp

/-! ## Results that are good or decoding errors -/

/-- The value satisfies `post`, or the exception is a decoding error. -/
def Safe {α : Type} (post : α → Prop) : Result α → Prop
  | .ok a => post a
  | .error e => ∃ text, e = .berError text

namespace Safe

variable {α β : Type} {post : α → Prop} {post' : β → Prop}

theorem mono {post₂ : α → Prop} {r : Result α} (h : Safe post r) (hpost : ∀ a, post a → post₂ a) :
    Safe post₂ r := by
  cases r with
  | ok a => exact hpost a h
  | error e => exact h

theorem bind {r : Result α} {f : α → Result β} (h : Safe post r)
    (hf : ∀ a, post a → Safe post' (f a)) : Safe post' (r >>= f) := by
  cases r with
  | ok a => exact hf a h
  | error e => exact h

theorem mapM {l : List β} {f : β → Result α} (h : ∀ b ∈ l, Safe post (f b)) :
    Safe (fun out => ∀ a ∈ out, post a) (l.mapM f) := by
  induction l with
  | nil => exact fun a ha => nomatch ha
  | cons b l ih =>
      rw [List.mapM_cons]
      apply (h b List.mem_cons_self).bind
      intro a ha
      apply (ih fun x hx => h x (List.mem_cons_of_mem b hx)).bind
      intro out hout x hx
      rcases List.mem_cons.mp hx with rfl | hx
      · exact ha
      · exact hout x hx

end Safe

/-! ## Reading -/

/-- A successful read ends behind its start and inside its buffer. -/
theorem readTlv_safe (buf : Bytes) (pos : Nat) :
    Safe (fun r : UInt8 × Bytes × Nat => pos < r.2.2 ∧ r.2.2 ≤ buf.length) (readTlv buf pos) := by
  have hbody : ∀ tag start length, pos < start →
      Safe (fun r : UInt8 × Bytes × Nat => pos < r.2.2 ∧ r.2.2 ≤ buf.length)
        (readBody buf tag start length) := by
    intro tag start length hstart
    unfold readBody
    by_cases hshort : buf.length < start + length
    · rw [if_pos hshort]
      exact ⟨_, rfl⟩
    · rw [if_neg hshort]
      constructor
      · change pos < start + length
        omega
      · change start + length ≤ buf.length
        omega
  unfold readTlv
  split
  · exact ⟨_, rfl⟩
  · exact ⟨_, rfl⟩
  · rename_i tag first _ _
    by_cases hfirst : first.toNat < 0x80
    · rw [if_pos hfirst]
      apply hbody
      omega
    · simp only [if_neg hfirst]
      split
      · exact ⟨_, rfl⟩
      · apply hbody
        omega

/-- A decoded OID has at least two arcs. -/
theorem bytesToOid_safe (body : Bytes) : Safe (fun oid : Oid => 2 ≤ oid.length) (bytesToOid body) := by
  cases body with
  | nil => exact ⟨_, rfl⟩
  | cons first rest =>
      change 2 ≤ (first.toNat / 40 :: first.toNat % 40 :: arcs 0 rest).length
      rw [List.length_cons, List.length_cons]
      omega

/-- One round of the loop over a binding list: the OID of the binding, and where the
next one starts. -/
def readVarbind (body : Bytes) (pos : Nat) : Result (Oid × Nat) := do
  let (tag, vb, pos) ← readTlv body pos
  if tag ≠ tSeq then throw (.berError "varbind not a sequence".toList)
  let (otag, obody, _) ← readTlv vb 0
  if otag ≠ tOid then throw (.berError "varbind name not an OID".toList)
  let oid ← bytesToOid obody
  pure (oid, pos)

/-- The loop over a binding list for a number of rounds; it may not have ended then. -/
def parseVarbindsWithin (body : Bytes) : Nat → Nat → Option (Result (List Oid))
  | 0, _ => none
  | rounds + 1, pos =>
      if pos < body.length then
        match readVarbind body pos with
        | .error e => some (.error e)
        | .ok (oid, pos) =>
            (parseVarbindsWithin body rounds pos).map fun rest => rest.map (oid :: ·)
      else some (.ok [])

theorem parseVarbindsFrom_succ (body : Bytes) (fuel : Nat) {pos : Nat} (h : pos < body.length) :
    parseVarbindsFrom body (fuel + 1) pos =
      (readVarbind body pos).bind fun r => (parseVarbindsFrom body fuel r.2).map (r.1 :: ·) := by
  simp only [parseVarbindsFrom, readVarbind, if_pos h, bind, Except.bind, throw, throwThe,
    MonadExceptOf.throw, pure, Except.pure]
  cases readTlv body pos with
  | error e => rfl
  | ok r =>
      by_cases htag : r.1 ≠ tSeq
      · simp only [if_pos htag]
      simp only [if_neg htag]
      cases readTlv r.2.1 0 with
      | error e => rfl
      | ok name =>
          by_cases hotag : name.1 ≠ tOid
          · simp only [if_pos hotag]
          simp only [if_neg hotag]
          cases bytesToOid name.2.1 with
          | error e => rfl
          | ok oid =>
              simp only
              cases parseVarbindsFrom body fuel r.2.2 <;> rfl

/-- A round moves forward. -/
theorem readVarbind_safe (body : Bytes) (pos : Nat) :
    Safe (fun r : Oid × Nat => 2 ≤ r.1.length ∧ pos < r.2 ∧ r.2 ≤ body.length)
      (readVarbind body pos) := by
  unfold readVarbind
  apply (readTlv_safe body pos).bind
  rintro ⟨tag, vb, next⟩ hnext
  dsimp only
  split
  · exact ⟨_, rfl⟩
  apply (readTlv_safe vb 0).bind
  rintro ⟨otag, obody, -⟩ -
  dsimp only
  split
  · exact ⟨_, rfl⟩
  apply (bytesToOid_safe obody).bind
  exact fun oid hoid => ⟨hoid, hnext⟩

/-- Decoded bindings name OIDs of at least two arcs. -/
theorem parseVarbindsFrom_safe (body : Bytes) (fuel pos : Nat) :
    Safe (fun oids : List Oid => ∀ oid ∈ oids, 2 ≤ oid.length) (parseVarbindsFrom body fuel pos) := by
  induction fuel generalizing pos with
  | zero => exact fun oid hoid => nomatch hoid
  | succ fuel ih =>
      by_cases hmore : pos < body.length
      · rw [parseVarbindsFrom_succ body fuel hmore]
        apply (readVarbind_safe body pos).bind
        rintro ⟨oid, next⟩ ⟨hoid, -⟩
        apply (ih next).bind
        intro oids hoids x hx
        rcases List.mem_cons.mp hx with rfl | hx
        · exact hoid
        · exact hoids x hx
      · simp only [parseVarbindsFrom, if_neg hmore]
        exact fun oid hoid => nomatch hoid

/-- The loop ends within one round more than there are octets left. -/
theorem parseVarbindsWithin_eq (body : Bytes) {rounds pos : Nat} (h : body.length < rounds + pos)
    (hpos : pos ≤ body.length) :
    parseVarbindsWithin body rounds pos = some (parseVarbindsFrom body rounds pos) := by
  induction rounds generalizing pos with
  | zero => omega
  | succ rounds ih =>
      rw [parseVarbindsWithin]
      by_cases hmore : pos < body.length
      · rw [if_pos hmore, parseVarbindsFrom_succ body rounds hmore]
        have hround := readVarbind_safe body pos
        cases hread : readVarbind body pos with
        | error e => rfl
        | ok r =>
            rcases r with ⟨oid, next⟩
            rw [hread] at hround
            rcases hround with ⟨-, hforward, hinside⟩
            change pos < next at hforward
            have hrest := @ih next (by omega) hinside
            simp only [hrest, Except.bind, Option.map_some]
      · simp only [parseVarbindsFrom, if_neg hmore]
        rfl

/-! ## Handling -/

/-- The OIDs of the bindings have at least two arcs. -/
def Encodable (out : List VarBind) : Prop :=
  ∀ vb ∈ out, 2 ≤ vb.oid.length

/-- The next binding names a stored OID or the requested one. -/
theorem nextVb_safe {t : Table} (ht : t.WellFormed) (harcs : ∀ oid ∈ t.oids, 2 ≤ oid.length)
    {oid : Oid} (hoid : 2 ≤ oid.length) :
    Safe (fun vb : VarBind => 2 ≤ vb.oid.length) (nextVb t oid) := by
  unfold nextVb
  cases hnext : t.next oid with
  | none => exact hoid
  | some next =>
      rw [Table.next_eq_head_above ht] at hnext
      have hstored := Table.mem_oids_of_mem_above (List.mem_of_mem_head? hnext)
      rcases Table.exists_get_of_mem ht hstored with ⟨payload, hget⟩
      simp only [hget]
      exact harcs next hstored

theorem bulkColumn_safe {t : Table} (ht : t.WellFormed) (harcs : ∀ oid ∈ t.oids, 2 ≤ oid.length)
    (n : Nat) {oid : Oid} (hoid : 2 ≤ oid.length) : Safe Encodable (bulkColumn t oid n) := by
  induction n generalizing oid with
  | zero => exact fun vb hvb => nomatch hvb
  | succ n ih =>
      rw [bulkColumn]
      apply (nextVb_safe ht harcs hoid).bind
      intro vb hvb
      split
      · intro x hx
        rw [List.mem_singleton.mp hx]
        exact hvb
      · apply (ih hvb).bind
        intro rest hrest x hx
        rcases List.mem_cons.mp hx with rfl | hx
        · exact hvb
        · exact hrest x hx

theorem replyBindings_safe {t : Table} (ht : t.WellFormed)
    (harcs : ∀ oid ∈ t.oids, 2 ≤ oid.length) (ptag : UInt8) (n1 n2 : ℤ) {oids : List Oid}
    (hoids : ∀ oid ∈ oids, 2 ≤ oid.length) : Safe Encodable (replyBindings t ptag n1 n2 oids) := by
  unfold replyBindings
  split
  · intro vb hvb
    rcases List.mem_map.mp hvb with ⟨oid, hoid, rfl⟩
    have hname : (getVb t oid).oid = oid := by
      unfold getVb
      split <;> rfl
    rw [hname]
    exact hoids oid hoid
  split
  · exact Safe.mapM fun oid hoid => nextVb_safe ht harcs (hoids oid hoid)
  · apply (Safe.mapM fun oid hoid =>
      nextVb_safe ht harcs (hoids oid (List.mem_of_mem_take hoid))).bind
    intro single hsingle
    apply (Safe.mapM fun oid hoid =>
      bulkColumn_safe ht harcs _ (hoids oid (List.mem_of_mem_drop hoid))).bind
    intro columns hcolumns vb hvb
    rcases List.mem_append.mp hvb with hvb | hvb
    · exact hsingle vb hvb
    · rcases List.mem_flatten.mp hvb with ⟨column, hcolumn, hvb⟩
      exact hcolumns column hcolumn vb hvb

theorem encodeReply_safe (requestId : ℤ) (community : Bytes) {out : List VarBind}
    (hout : Encodable out) : Safe (fun _ => True) (encodeReply requestId community out) := by
  unfold encodeReply
  have hencode : ∀ vb ∈ out, Safe (fun _ => True) vb.encode := by
    rintro ⟨oid, value⟩ hvb
    have harcs := hout _ hvb
    match oid, harcs with
    | a :: b :: rest, _ => exact trivial
  apply (Safe.mapM hencode).bind
  exact fun _ _ => trivial

theorem handlePdu_safe {t : Table} (ht : t.WellFormed) (harcs : ∀ oid ∈ t.oids, 2 ≤ oid.length)
    (community : Bytes) (ptag : UInt8) (pbody : Bytes) :
    Safe (fun _ => True) (handlePdu t community ptag pbody) := by
  unfold handlePdu
  apply (readTlv_safe pbody 0).bind
  rintro ⟨-, rbody, p₁⟩ -
  apply (readTlv_safe pbody p₁).bind
  rintro ⟨-, n1body, p₂⟩ -
  apply (readTlv_safe pbody p₂).bind
  rintro ⟨-, n2body, p₃⟩ -
  apply (readTlv_safe pbody p₃).bind
  rintro ⟨-, vbbody, -⟩ -
  apply (parseVarbindsFrom_safe vbbody _ 0).bind
  intro oids hoids
  apply (replyBindings_safe ht harcs ptag _ _ hoids).bind
  intro out hout
  exact encodeReply_safe _ community hout

theorem handleMessage_safe {t : Table} (ht : t.WellFormed) (harcs : ∀ oid ∈ t.oids, 2 ≤ oid.length)
    (data : Bytes) (routed : Option Text) :
    Safe (fun _ => True) (handleMessage data t routed) := by
  unfold handleMessage
  apply (readTlv_safe data 0).bind
  rintro ⟨tag, body, -⟩ -
  dsimp only
  split
  · trivial
  apply (readTlv_safe body 0).bind
  rintro ⟨vtag, vbody, p₁⟩ -
  dsimp only
  split
  · trivial
  apply (readTlv_safe body p₁).bind
  rintro ⟨ctag, cbody, p₂⟩ -
  dsimp only
  split
  · trivial
  split
  · trivial
  apply (readTlv_safe body p₂).bind
  rintro ⟨ptag, pbody, -⟩ -
  dsimp only
  split
  · trivial
  apply (handlePdu_safe ht harcs cbody ptag pbody).bind
  exact fun _ _ => trivial

/-- Peeking at the community never raises. -/
theorem exists_peekCommunity (data : Bytes) : ∃ community, peekCommunity data = .ok community := by
  unfold peekCommunity
  extract_lets read
  have hread : Safe (fun _ => True) read := by
    apply (readTlv_safe data 0).bind
    rintro ⟨-, body, -⟩ -
    apply (readTlv_safe body 0).bind
    rintro ⟨vtag, vbody, p₁⟩ -
    dsimp only
    split
    · trivial
    apply (readTlv_safe body p₁).bind
    rintro ⟨ctag, cbody, -⟩ -
    dsimp only
    split <;> trivial
  cases h : read with
  | ok community => exact ⟨community, rfl⟩
  | error e =>
      rw [h] at hread
      rcases hread with ⟨text, rfl⟩
      exact ⟨none, rfl⟩

/-- Any datagram is dropped, answered or refused with a decoding error, the loop over
its bindings ends, and every read that succeeds moves forward inside its buffer. -/
theorem datagram_safe {t : Table} (ht : t.WellFormed) (harcs : ∀ oid ∈ t.oids, 2 ≤ oid.length)
    (data : Bytes) (routed : Option Text) :
    (∃ community, peekCommunity data = .ok community) ∧
      (handleMessage data t routed = .ok none ∨
        (∃ reply, handleMessage data t routed = .ok (some reply)) ∨
        ∃ text, handleMessage data t routed = .error (.berError text)) ∧
      (∀ body : Bytes, ∃ rounds, parseVarbindsWithin body rounds 0 = some (parseVarbinds body)) ∧
      ∀ (buf : Bytes) (pos : Nat) (tag : UInt8) (body : Bytes) (next : Nat),
        readTlv buf pos = .ok (tag, body, next) → pos < next ∧ next ≤ buf.length := by
  refine ⟨exists_peekCommunity data, ?_, fun body => ?_, fun buf pos tag body next hread => ?_⟩
  · have hsafe := handleMessage_safe ht harcs data routed
    cases h : handleMessage data t routed with
    | ok result =>
        cases result with
        | none => exact Or.inl rfl
        | some reply => exact Or.inr (Or.inl ⟨reply, rfl⟩)
    | error e =>
        rw [h] at hsafe
        rcases hsafe with ⟨text, rfl⟩
        exact Or.inr (Or.inr ⟨text, rfl⟩)
  · exact ⟨body.length + 1, parseVarbindsWithin_eq body (by omega) (Nat.zero_le _)⟩
  · have hsafe := readTlv_safe buf pos
    rw [hread] at hsafe
    exact hsafe

/-- A table of two rows. -/
def pairRows : Table where
  oids := [[1, 3, 6, 1], [1, 3, 6, 2]]
  value := Dict.ofRows [([1, 3, 6, 2], [4, 1, 98]), ([1, 3, 6, 1], [4, 1, 97])]

/-- A GETNEXT request for two names; the second one claims to be longer than its binding. -/
def overlongName : Bytes :=
  [0x30, 0x25, 0x02, 0x01, 0x01, 0x04, 0x01, 0x70, 0xA1, 0x1D, 0x02, 0x01, 0x07, 0x02, 0x01, 0x00,
    0x02, 0x01, 0x00, 0x30, 0x12, 0x30, 0x07, 0x06, 0x03, 0x2B, 0x06, 0x01, 0x05, 0x00, 0x30, 0x07,
    0x06, 0x09, 0x2B, 0x06, 0x02, 0x05, 0x00]

theorem datagram_safe_overlongName :
    peekCommunity overlongName = .ok (some ['p']) ∧
      ∃ text, handleMessage overlongName pairRows none = .error (.berError text) := by
  have hrows : Table.ofRows [(".1.3.6.2".toList, ['b']), (".1.3.6.1".toList, ['a'])] =
      .ok pairRows := by decide +kernel
  have harcs : ∀ oid ∈ pairRows.oids, 2 ≤ oid.length := by decide
  have hsafe := datagram_safe (Table.ofRows_wellFormed hrows) harcs overlongName none
  have hraised : (handleMessage overlongName pairRows none).toBool = false := by decide +kernel
  refine ⟨by decide +kernel, ?_⟩
  rcases hsafe.2.1 with hdropped | ⟨reply, hreply⟩ | hrefused
  · rw [hdropped] at hraised
    cases hraised
  · rw [hreply] at hraised
    cases hraised
  · exact hrefused

/-! ## Routing by community -/

/-- The octets of a Latin-1 text. -/
def latin1Bytes (s : Text) : Bytes :=
  s.map fun c => UInt8.ofNat c.toNat

theorem latin1Bytes_latin1 (b : Bytes) : latin1Bytes (latin1 b) = b := by
  have hoctet : ∀ x : UInt8, UInt8.ofNat (Char.ofNat x.toNat).toNat = x := by
    intro x
    have hsmall : x.toNat < 256 := x.toNat_lt
    have hvalid : x.toNat.isValidChar := Or.inl (by omega)
    have hchar : (Char.ofNat x.toNat).toNat = x.toNat := by
      rw [Char.ofNat, dif_pos hvalid]
      rfl
    rw [hchar, UInt8.ofNat_toNat]
  simp only [latin1Bytes, latin1, List.map_map]
  conv_rhs => rw [← List.map_id b]
  exact List.map_congr_left fun x _ => hoctet x

/-- The header of a datagram that gets a reply. -/
structure Header (data cbody : Bytes) (ptag : UInt8) (pbody : Bytes) where
  (body vbody : Bytes)
  (p₀ p₁ p₂ p₃ : Nat)
  message : readTlv data 0 = .ok (tSeq, body, p₀)
  version : readTlv body 0 = .ok (tInt, vbody, p₁)
  v2c : decInt vbody = 1
  community : readTlv body p₁ = .ok (tOctetStr, cbody, p₂)
  pdu : readTlv body p₂ = .ok (ptag, pbody, p₃)
  known : ptag = tGet ∨ ptag = tGetNext ∨ ptag = tGetBulk

/-- Reading the header and handling the rest is all there is to a request. -/
theorem Header.handleMessage_eq {data cbody pbody : Bytes} {ptag : UInt8}
    (f : Header data cbody ptag pbody) (t : Table) {routed : Option Text}
    (hrouted : ∀ c ∈ routed, c = latin1 cbody) :
    handleMessage data t routed = (handlePdu t cbody ptag pbody).map some := by
  have hsame : (routed.any fun c => decide (c ≠ latin1 cbody)) = false := by
    cases routed with
    | none => rfl
    | some c => simp [hrouted c rfl]
  have hknown : ¬ (ptag ≠ tGet ∧ ptag ≠ tGetNext ∧ ptag ≠ tGetBulk) := by
    rcases f.known with rfl | rfl | rfl <;> simp
  simp only [handleMessage, f.message, f.version, f.community, f.pdu, f.v2c, hsame, bind,
    Except.bind]
  simp only [ne_eq, not_true_eq_false, or_self, if_false, Bool.false_eq_true]
  rw [if_neg hknown]
  cases handlePdu t cbody ptag pbody <;> rfl

theorem Header.peekCommunity_eq {data cbody pbody : Bytes} {ptag : UInt8}
    (f : Header data cbody ptag pbody) : peekCommunity data = .ok (some (latin1 cbody)) := by
  simp only [peekCommunity, f.message, f.version, f.community, f.v2c, bind, Except.bind]
  simp only [ne_eq, not_true_eq_false, or_self, if_false]
  rfl

/-- A datagram that gets a reply has a header, and its data unit was handled. -/
theorem exists_header {data reply : Bytes} {t : Table}
    (h : handleMessage data t none = .ok (some reply)) :
    ∃ cbody ptag pbody, Nonempty (Header data cbody ptag pbody) ∧
      handlePdu t cbody ptag pbody = .ok reply := by
  unfold handleMessage at h
  cases hmessage : readTlv data 0 with
  | error e => simp [hmessage, bind, Except.bind] at h
  | ok r =>
  rcases r with ⟨tag, body, p₀⟩
  simp only [hmessage, bind, Except.bind] at h
  split at h
  · cases h
  rename_i htag
  cases hversion : readTlv body 0 with
  | error e => simp [hversion] at h
  | ok r =>
  rcases r with ⟨vtag, vbody, p₁⟩
  simp only [hversion] at h
  split at h
  · cases h
  rename_i hv2c
  cases hcommunity : readTlv body p₁ with
  | error e => simp [hcommunity] at h
  | ok r =>
  rcases r with ⟨ctag, cbody, p₂⟩
  simp only [hcommunity] at h
  split at h
  · cases h
  rename_i hctag
  simp only [Option.any_none, Bool.false_eq_true, if_false] at h
  cases hpdu : readTlv body p₂ with
  | error e => simp [hpdu] at h
  | ok r =>
  rcases r with ⟨ptag, pbody, p₃⟩
  simp only [hpdu] at h
  split at h
  · cases h
  rename_i hknown
  cases hhandle : handlePdu t cbody ptag pbody with
  | error e => simp [hhandle] at h
  | ok reply' =>
  simp only [hhandle] at h
  cases h
  have htag' : tag = tSeq := by simpa using htag
  have hctag' : ctag = tOctetStr := by simpa using hctag
  have hvtag' : vtag = tInt ∧ decInt vbody = 1 := by simpa using hv2c
  subst htag' hctag'
  rcases hvtag' with ⟨rfl, hone⟩
  refine ⟨cbody, ptag, pbody, ⟨?_⟩, hhandle⟩
  exact {
    body := body, vbody := vbody, p₀ := p₀, p₁ := p₁, p₂ := p₂, p₃ := p₃
    message := hmessage
    version := hversion
    v2c := hone
    community := hcommunity
    pdu := hpdu
    known := by
      by_contra hnone
      simp only [not_or] at hnone
      exact hknown hnone }

/-- A reply carries the community it was assembled with. -/
theorem exists_echo {t : Table} {cbody pbody reply : Bytes} {ptag : UInt8}
    (h : handlePdu t cbody ptag pbody = .ok reply) :
    ∃ pdu, reply = tlv tSeq (encInt 1 ++ encOctetStr cbody ++ tlv tResponse pdu) := by
  have hpost : ∀ {α : Type} {post : Bytes → Prop} (r : Result α) (f : α → Result Bytes),
      (∀ a reply, f a = .ok reply → post reply) → ∀ reply, (r >>= f) = .ok reply → post reply := by
    intro α post r f hf reply hreply
    cases r with
    | error e => cases hreply
    | ok a => exact hf a reply hreply
  revert h
  unfold handlePdu
  revert reply
  iterate 6
    apply hpost
    intro _
  apply hpost
  intro encoded reply hreply
  cases hreply
  exact ⟨_, rfl⟩

/-- One round of a worker: route a datagram by its community and answer it; exceptions
are swallowed. -/
def serve (tableFor : Text → Option Table) (data : Bytes) : Option Bytes :=
  match peekCommunity data with
  | .ok (some community) =>
      if community = [] then none
      else
        match tableFor community with
        | none => none
        | some table =>
            match handleMessage data table none with
            | .ok reply => reply
            | .error _ => none
  | _ => none

/-- A reply echoes the community that was peeked at and is the one a check of that
community would have let through; the worker's answer depends only on the table of
the community the datagram names. -/
theorem routing_faithful (data : Bytes) :
    (∀ t reply, handleMessage data t none = .ok (some reply) →
      ∃ community, peekCommunity data = .ok (some community) ∧
        (∃ pdu, reply =
          tlv tSeq (encInt 1 ++ encOctetStr (latin1Bytes community) ++ tlv tResponse pdu)) ∧
        handleMessage data t (some community) = .ok (some reply)) ∧
    (∀ tableFor reply, serve tableFor data = some reply →
      ∃ community t, peekCommunity data = .ok (some community) ∧ tableFor community = some t ∧
        handleMessage data t (some community) = .ok (some reply)) ∧
    ∀ tableFor tableFor' : Text → Option Table,
      (∀ community, peekCommunity data = .ok (some community) →
        tableFor community = tableFor' community) →
      serve tableFor data = serve tableFor' data := by
  have hfaithful : ∀ t reply, handleMessage data t none = .ok (some reply) →
      ∃ community, peekCommunity data = .ok (some community) ∧
        (∃ pdu, reply =
          tlv tSeq (encInt 1 ++ encOctetStr (latin1Bytes community) ++ tlv tResponse pdu)) ∧
        handleMessage data t (some community) = .ok (some reply) := by
    intro t reply hreply
    rcases exists_header hreply with ⟨cbody, ptag, pbody, ⟨header⟩, hhandle⟩
    refine ⟨latin1 cbody, header.peekCommunity_eq, ?_, ?_⟩
    · rw [latin1Bytes_latin1]
      exact exists_echo hhandle
    · rw [header.handleMessage_eq t (by simp), hhandle]
      rfl
  refine ⟨hfaithful, ?_, ?_⟩
  · intro tableFor reply hserve
    unfold serve at hserve
    split at hserve
    · rename_i community hpeek
      split at hserve
      · cases hserve
      split at hserve
      · cases hserve
      · rename_i t ht
        split at hserve
        · rename_i result hresult
          subst hserve
          rcases hfaithful t reply hresult with ⟨community', hpeek', -, hsame⟩
          cases hpeek.symm.trans hpeek'
          exact ⟨community, t, hpeek, ht, hsame⟩
        · cases hserve
    · cases hserve
  · intro tableFor tableFor' hagree
    unfold serve
    split
    · rename_i community hpeek
      rw [hagree community hpeek]
    · rfl

end Snmp
end DemoEstate
