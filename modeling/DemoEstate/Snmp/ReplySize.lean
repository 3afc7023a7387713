import DemoEstate.Snmp.Datagram
import DemoEstate.Snmp.Exchange

/-!
# The size of a reply

The responder answers with all bindings that a request asks for, whatever their number and their
size.  A reply that does not fit a datagram is not sent.

Main definitions:

- Definition {lit}`readRequest`: what the responder reads from a request.
- Definition {lit}`replySize`: the octets of a reply, counted over the request and the table.

Main results:

- Theorem {lit}`length_answer`: a reply has this size.
- Theorem {lit}`reply_fits_iff`: when a reply fits a datagram.
-/

namespace DemoEstate
namespace Snmp

/-! ## Requests -/

/-- A request: community, kind, number, two counts and the OIDs asked for. -/
structure Request where
  community : Bytes
  ptag : UInt8
  requestId : ℤ
  n1 : ℤ
  n2 : ℤ
  oids : List Oid

/-- Read a protocol data unit. -/
def readPdu (community : Bytes) (ptag : UInt8) (pbody : Bytes) : Result Request := do
  let (_, rbody, p) ← readTlv pbody 0
  let (_, n1body, p) ← readTlv pbody p
  let (_, n2body, p) ← readTlv pbody p
  let (_, vbbody, _) ← readTlv pbody p
  let oids ← parseVarbinds vbbody
  pure ⟨community, ptag, decInt rbody, decInt n1body, decInt n2body, oids⟩

/-- Read a request, unless it is dropped. -/
def readRequest (data : Bytes) : Result (Option Request) := do
  let (tag, body, _) ← readTlv data 0
  if tag ≠ tSeq then return none
  let (vtag, vbody, pos) ← readTlv body 0
  if vtag ≠ tInt ∨ decInt vbody ≠ 1 then return none
  let (ctag, cbody, pos) ← readTlv body pos
  if ctag ≠ tOctetStr then return none
  let (ptag, pbody, _) ← readTlv body pos
  if ptag ≠ tGet ∧ ptag ≠ tGetNext ∧ ptag ≠ tGetBulk then return none
  let request ← readPdu cbody ptag pbody
  return some request

/-- Answer a request. -/
def answer (t : Table) (request : Request) : Result Bytes :=
  (replyBindings t request.ptag request.n1 request.n2 request.oids).bind
    (encodeReply request.requestId request.community)

/-- A data unit is read and then answered. -/
theorem handlePdu_eq (t : Table) (community : Bytes) (ptag : UInt8) (pbody : Bytes) :
    handlePdu t community ptag pbody = (readPdu community ptag pbody).bind (answer t) := by
  change _ = readPdu community ptag pbody >>= answer t
  simp only [handlePdu, readPdu, bind_assoc, pure_bind]
  rfl

/-- A message that gets a reply is read and then answered. -/
theorem answered_of_handleMessage {data reply : Bytes} {t : Table} {routed : Option Text}
    (h : handleMessage data t routed = .ok (some reply)) :
    ∃ request, readRequest data = .ok (some request) ∧ answer t request = .ok reply := by
  simp only [handleMessage, bind, Except.bind] at h
  repeat' split at h
  all_goals cases h
  rename_i message hmessage htag _ version hversion hv2c _ community hcommunity hoctets hrouted
    _ pdu hpdu hknown _ hreply
  rw [handlePdu_eq] at hreply
  cases hread : readPdu community.2.1 pdu.1 pdu.2.1 with
  | error e =>
      rw [hread] at hreply
      cases hreply
  | ok request =>
      rw [hread] at hreply
      refine ⟨request, ?_, hreply⟩
      simp only [readRequest, bind, Except.bind, hmessage, hversion, hcommunity, hpdu, hread,
        if_neg htag, if_neg hv2c, if_neg hoctets, if_neg hknown]
      rfl

/-! ## Counting octets -/

/-- The octets of an encoding with a body of some octets. -/
def tlvSize (n : Nat) : Nat :=
  1 + (encLen n).length + n

/-- The octets of an integer's encoding. -/
def intSize (value : ℤ) : Nat :=
  tlvSize (intBody value).length

/-- The content octets of an object identifier. -/
def oidSize : Oid → Nat
  | a :: b :: rest => (subid (40 * a + b)).length + (rest.map fun n => (subid n).length).sum
  | _ => 0

/-- The octets of a binding with a value of some octets. -/
def bindingSize (oid : Oid) (value : Nat) : Nat :=
  tlvSize (tlvSize (oidSize oid) + value)

/-- The octets of an exceptional value. -/
def exceptionalSize : Nat := 2

/-- The octets of the value stored under an OID, if there is one. -/
def storedSize (t : Table) (oid : Oid) : Option Nat :=
  (t.get oid).map List.length

/-- What a requested OID takes in the reply. -/
def getSize (t : Table) (oid : Oid) : Nat :=
  bindingSize oid ((storedSize t oid).getD exceptionalSize)

/-- What the stored OIDs above a given one take, at most some of them, and the end of the view if
they run out. -/
def columnSize (t : Table) (cur : Oid) (n : Nat) : Nat :=
  (((t.above cur).take n).map (getSize t)).sum +
    if (t.above cur).length < n then
      bindingSize ((t.above cur).getLast?.getD cur) exceptionalSize
    else 0

/-- What the bindings asked for take. -/
def askedSize (t : Table) (request : Request) : Nat :=
  if request.ptag = tGet then (request.oids.map (getSize t)).sum
  else if request.ptag = tGetNext then (request.oids.map (columnSize t · 1)).sum
  else
    ((request.oids.take request.n1.toNat).map (columnSize t · 1)).sum +
      ((request.oids.drop request.n1.toNat).map (columnSize t · request.n2.toNat)).sum

/-- The octets of the reply to a request. -/
def replySize (t : Table) (request : Request) : Nat :=
  tlvSize (intSize 1 + tlvSize request.community.length +
    tlvSize (intSize request.requestId + intSize 0 + intSize 0 + tlvSize (askedSize t request)))

@[simp]
theorem length_tlv (tag : UInt8) (body : Bytes) : (tlv tag body).length = tlvSize body.length := by
  simp [tlv, tlvSize]
  omega

@[simp]
theorem length_encInt (value : ℤ) : (encInt value).length = intSize value :=
  length_tlv _ _

theorem length_oidToBytes {oid : Oid} {name : Bytes} (h : oidToBytes oid = .ok name) :
    name.length = oidSize oid := by
  match oid, h with
  | a :: b :: rest, h =>
      cases h
      rw [List.length_append, List.length_flatMap, oidSize]

/-- The octets of a binding. -/
theorem length_encode {vb : VarBind} {encoded : Bytes} (h : vb.encode = .ok encoded) :
    encoded.length = bindingSize vb.oid vb.valueTlv.length := by
  simp only [VarBind.encode, encOid, bind, Except.bind] at h
  cases hname : oidToBytes vb.oid with
  | error e => simp [hname, Except.map] at h
  | ok name =>
      simp only [hname, Except.map, pure, Except.pure, Except.ok.injEq] at h
      rw [← h, length_tlv, List.length_append, length_tlv, length_oidToBytes hname, bindingSize]

/-- The octets of some bindings. -/
def bindingsSize (out : List VarBind) : Nat :=
  (out.map fun vb => bindingSize vb.oid vb.valueTlv.length).sum

theorem length_flatten_encode {out : List VarBind} {encoded : List Bytes}
    (h : out.mapM VarBind.encode = .ok encoded) : encoded.flatten.length = bindingsSize out := by
  induction out generalizing encoded with
  | nil =>
      cases h
      rfl
  | cons vb out ih =>
      simp only [List.mapM_cons, bind, Except.bind] at h
      split at h
      · cases h
      · rename_i first hfirst
        split at h
        · cases h
        · rename_i rest hrest
          cases h
          rw [List.flatten_cons, List.length_append, length_encode hfirst, ih hrest]
          rfl

/-- The octets of a message around its bindings. -/
theorem length_encodeReply {requestId : ℤ} {community reply : Bytes} {out : List VarBind}
    (h : encodeReply requestId community out = .ok reply) :
    reply.length = tlvSize (intSize 1 + tlvSize community.length +
      tlvSize (intSize requestId + intSize 0 + intSize 0 + tlvSize (bindingsSize out))) := by
  simp only [encodeReply, bind, Except.bind] at h
  split at h
  · cases h
  · rename_i encoded hencoded
    cases h
    simp only [length_tlv, List.length_append, length_encInt, encOctetStr,
      length_flatten_encode hencoded]

/-! ## What the bindings take -/

variable {t : Table}

theorem bindingsSize_append (xs ys : List VarBind) :
    bindingsSize (xs ++ ys) = bindingsSize xs + bindingsSize ys := by
  rw [bindingsSize, List.map_append, List.sum_append, ← bindingsSize, ← bindingsSize]

theorem bindingsSize_flatten (columns : List (List VarBind)) :
    bindingsSize columns.flatten = (columns.map bindingsSize).sum := by
  induction columns with
  | nil => rfl
  | cons column columns ih =>
      rw [List.flatten_cons, bindingsSize_append, ih, List.map_cons, List.sum_cons]

/-- Stored values are not empty. -/
theorem getVb_size (ht : t.WellFormed) (oid : Oid) :
    bindingSize (getVb t oid).oid (getVb t oid).valueTlv.length = getSize t oid := by
  unfold getVb getSize storedSize
  cases hget : t.get oid with
  | none => rfl
  | some val =>
      rcases ht.octetStr oid val hget with ⟨payload, rfl⟩
      have hne : encOctetStr payload ≠ [] := by simp [encOctetStr, tlv]
      simp only [if_neg hne, Option.map_some, Option.getD_some]

theorem stored_size (ht : t.WellFormed) {oid : Oid} (h : oid ∈ t.oids) :
    bindingSize (stored t oid).oid (stored t oid).valueTlv.length = getSize t oid := by
  rcases Table.exists_get_of_mem ht h with ⟨payload, hget⟩
  simp only [stored, getSize, storedSize, hget, Option.map_some, Option.getD_some]

/-- What the repetitions of a column take. -/
theorem bulkColumn_size (ht : t.WellFormed) {cur : Oid} {n : Nat} {column : List VarBind}
    (h : bulkColumn t cur n = .ok column) : bindingsSize column = columnSize t cur n := by
  rw [bulkColumn_eq ht, Except.ok.injEq] at h
  have htaken : bindingsSize (((t.above cur).take n).map (stored t)) =
      (((t.above cur).take n).map (getSize t)).sum := by
    rw [bindingsSize, List.map_map]
    congr 1
    refine List.map_congr_left fun x hx => ?_
    exact stored_size ht (Table.mem_oids_of_mem_above (List.mem_of_mem_take hx))
  rw [← h, bindingsSize_append, htaken, columnSize, closing]
  split <;> rfl

/-- The next OID is a column of one repetition. -/
theorem nextVb_size (ht : t.WellFormed) {cur : Oid} {vb : VarBind} (h : nextVb t cur = .ok vb) :
    bindingSize vb.oid vb.valueTlv.length = columnSize t cur 1 := by
  have hcolumn : bulkColumn t cur 1 = .ok [vb] := by
    simp only [bulkColumn, h, bind, Except.bind, pure, Except.pure]
    split <;> rfl
  rw [← bulkColumn_size ht hcolumn]
  rfl

/-- Sizes that are known one by one add up. -/
theorem mapM_size {β : Type} {f : Oid → Result β} {size : β → Nat} {count : Oid → Nat}
    (hcount : ∀ oid b, f oid = .ok b → size b = count oid) {oids : List Oid} {out : List β}
    (h : oids.mapM f = .ok out) : (out.map size).sum = (oids.map count).sum := by
  induction oids generalizing out with
  | nil =>
      cases h
      rfl
  | cons oid oids ih =>
      simp only [List.mapM_cons, bind, Except.bind] at h
      split at h
      · cases h
      · rename_i first hfirst
        split at h
        · cases h
        · rename_i rest hrest
          cases h
          rw [List.map_cons, List.sum_cons, List.map_cons, List.sum_cons, hcount oid first hfirst,
            ih hrest]

/-- The bindings of a reply take what was counted. -/
theorem replyBindings_size (ht : t.WellFormed) {request : Request} {out : List VarBind}
    (h : replyBindings t request.ptag request.n1 request.n2 request.oids = .ok out) :
    bindingsSize out = askedSize t request := by
  have hfirst : (max 0 request.n1).toNat = request.n1.toNat := by omega
  have hsecond : (max 0 request.n2).toNat = request.n2.toNat := by omega
  unfold replyBindings at h
  unfold askedSize
  split at h
  · rw [if_pos ‹_›]
    cases h
    rw [bindingsSize, List.map_map]
    congr 1
    exact List.map_congr_left fun oid _ => getVb_size ht oid
  · rename_i hget
    rw [if_neg hget]
    split at h
    · rw [if_pos ‹_›]
      exact mapM_size (fun oid vb => nextVb_size ht) h
    · rename_i hnext
      rw [if_neg hnext]
      simp only [hfirst, hsecond, bind, Except.bind] at h
      split at h
      · cases h
      · rename_i single hsingle
        split at h
        · cases h
        · rename_i columns hcolumns
          cases h
          rw [bindingsSize_append, bindingsSize_flatten, bindingsSize,
            mapM_size (fun oid vb => nextVb_size ht) hsingle,
            mapM_size (fun oid column => bulkColumn_size ht) hcolumns]

/-- A reply has the counted size. -/
theorem length_answer (ht : t.WellFormed) {request : Request} {reply : Bytes}
    (h : answer t request = .ok reply) : reply.length = replySize t request := by
  unfold answer at h
  cases hout : replyBindings t request.ptag request.n1 request.n2 request.oids with
  | error e =>
      rw [hout] at h
      cases h
  | ok out =>
      rw [hout] at h
      rw [length_encodeReply h, replyBindings_size ht hout, replySize]

/-! ## Replies that fit a datagram -/

/-- The most octets that one datagram carries. -/
def maxPayload : Nat := 65507

/-- A reply has the octets that were counted over its request and the table, and it fits a datagram
exactly if these do. -/
theorem reply_fits_iff (ht : t.WellFormed) {data reply : Bytes} {routed : Option Text}
    (h : handleMessage data t routed = .ok (some reply)) :
    ∃ request, readRequest data = .ok (some request) ∧ reply.length = replySize t request ∧
      (reply.length ≤ maxPayload ↔ replySize t request ≤ maxPayload) := by
  rcases answered_of_handleMessage h with ⟨request, hread, hanswer⟩
  have hlength := length_answer ht hanswer
  exact ⟨request, hread, hlength, by rw [hlength]⟩

theorem reply_fits_iff_oneRow : ∃ request reply,
    handleMessage request (oneRow [1, 3, 6]) none = .ok (some reply) ∧
      ∃ r, readRequest request = .ok (some r) ∧ reply.length = replySize (oneRow [1, 3, 6]) r := by
  have hshort : ∃ request reply, build 7 [112] tGetBulk 0 10 [[1, 3]] = .ok request ∧
      handleMessage request (oneRow [1, 3, 6]) none = .ok (some reply) :=
    ⟨_, _, rfl, rfl⟩
  rcases hshort with ⟨request, reply, -, hreply⟩
  rcases reply_fits_iff (wellFormed_oneRow [1, 3, 6]) hreply with ⟨r, hread, hlength, -⟩
  exact ⟨request, reply, hreply, r, hread, hlength⟩

/-- A table with one value. -/
def oneValue (payload : Bytes) : Table where
  oids := [[1, 3, 6]]
  value := Dict.ofRows [([1, 3, 6], encOctetStr payload)]

theorem get_oneValue (payload : Bytes) :
    (oneValue payload).get [1, 3, 6] = some (encOctetStr payload) := by
  rw [Table.get, oneValue, Dict.ofRows, Dict.update_cons, Dict.update_nil, Dict.get_set_self]

theorem wellFormed_oneValue (payload : Bytes) : (oneValue payload).WellFormed where
  increasing := List.pairwise_singleton _ _
  mem_oids x := by simp [oneValue, Dict.mem_keys_ofRows]
  octetStr x v h := by
    rw [Table.get, oneValue, Dict.ofRows, Dict.update_cons, Dict.update_nil, Dict.get_set] at h
    split at h
    · exact ⟨payload, (Option.some.inj h).symm⟩
    · simp at h

/-- The reply to a GET request for a value is longer than the value. -/
theorem exists_reply_oneValue (payload : Bytes) : ∃ request reply,
    request.length ≤ 65535 ∧ handleMessage request (oneValue payload) none = .ok (some reply) ∧
      payload.length ≤ reply.length := by
  have hrequest : ∃ request, build 7 [112] tGet 0 0 [[1, 3, 6]] = .ok request ∧
      request.length ≤ 65535 :=
    ⟨_, rfl, by decide⟩
  rcases hrequest with ⟨request, hbuild, hlength⟩
  have hreply : ∃ reply, encodeReply 7 [112] [⟨[1, 3, 6], encOctetStr payload⟩] = .ok reply :=
    ⟨_, rfl⟩
  rcases hreply with ⟨reply, hreply⟩
  have hread : List.Forall₂ (fun oid asked => ∃ name, oidToBytes oid = .ok name ∧
      bytesToOid name = .ok asked) [[1, 3, 6]] [[1, 3, 6]] :=
    .cons ⟨_, rfl, by decide⟩ .nil
  have hvb : getVb (oneValue payload) [1, 3, 6] = ⟨[1, 3, 6], encOctetStr payload⟩ := by
    rw [getVb, get_oneValue]
    simp [encOctetStr, tlv]
  have hanswered : replyBindings (oneValue payload) tGet 0 0 [[1, 3, 6]] =
      .ok [⟨[1, 3, 6], encOctetStr payload⟩] := by
    rw [replyBindings, if_pos rfl, List.map_singleton, hvb]
  refine ⟨request, reply, hlength, ?_, ?_⟩
  · rw [handleMessage_build (by simp) (Or.inl rfl) hread hbuild (lt_of_le_of_lt hlength (by norm_num)),
      hanswered, Except.bind, hreply]
    rfl
  · have hsize : ∀ n, n ≤ tlvSize n := fun n => Nat.le_add_left n _
    have hvalue := hsize payload.length
    have hbinding := hsize (tlvSize (oidSize [1, 3, 6]) + tlvSize payload.length)
    have hlist := hsize (bindingSize [1, 3, 6] (tlvSize payload.length) + 0)
    have hpdu := hsize (intSize 7 + intSize 0 + intSize 0 +
      tlvSize (bindingSize [1, 3, 6] (tlvSize payload.length) + 0))
    rw [length_encodeReply hreply]
    simp only [bindingsSize, List.map_cons, List.map_nil, List.sum_cons, List.sum_nil, encOctetStr,
      length_tlv]
    have hmessage := hsize (intSize 1 + tlvSize [(112 : UInt8)].length +
      tlvSize (intSize 7 + intSize 0 + intSize 0 +
        tlvSize (bindingSize [1, 3, 6] (tlvSize payload.length) + 0)))
    rw [← bindingSize] at hbinding
    omega

/-- A reply with a long value does not fit a datagram. -/
theorem not_reply_fits_longValue : ¬ ∀ (t : Table), t.WellFormed → ∀ data : Bytes,
    data.length ≤ 65535 → ∀ reply, handleMessage data t none = .ok (some reply) →
      reply.length ≤ maxPayload := by
  intro hall
  rcases exists_reply_oneValue (List.replicate 70000 120) with ⟨request, reply, hlength, hreply, hlong⟩
  have hfits := hall _ (wellFormed_oneValue _) request hlength reply hreply
  rw [List.length_replicate] at hlong
  exact absurd (hlong.trans hfits) (by decide)

end Snmp
end DemoEstate
