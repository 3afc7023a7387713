import DemoEstate.Snmp.Table

/-!
# Requests and replies

The responder decodes a v2c request, looks its OIDs up in a device's table and
encodes the reply.  The client side is the one of the responder's self-test: it
assembles requests and decodes the bindings of a reply.

Main results:

- Theorem {lit}`handleMessage_tlv`: a request's header is read and its protocol
  data unit handled.
- Theorem {lit}`parseVarbindsFrom_names`: a binding list is read back.
- Theorem {lit}`respVarbinds_encodeReply`: the client decodes an encoded reply.
- Theorem {lit}`handleMessage_build`: the responder decodes an assembled request.
-/

namespace DemoEstate
namespace Snmp

/-! ## Bindings -/

/-- An OID with its already encoded value. -/
structure VarBind where
  oid : Oid
  valueTlv : Bytes
deriving DecidableEq

def VarBind.encode (vb : VarBind) : Result Bytes := do
  let name ← encOid vb.oid
  pure (tlv tSeq (name ++ vb.valueTlv))

/-- The exceptional value behind the last OID. -/
def endOfMibView : Bytes :=
  tlv tEndOfMibView []

/-- The binding of the next stored OID, or the end of the view. -/
def nextVb (table : Table) (oid : Oid) : Result VarBind :=
  match table.next oid with
  | none => .ok ⟨oid, endOfMibView⟩
  | some nxt =>
      match table.get nxt with
      | none => .error .assertionError
      | some val => .ok ⟨nxt, val⟩

/-- The binding of a requested OID. -/
def getVb (table : Table) (oid : Oid) : VarBind :=
  match table.get oid with
  | none => ⟨oid, tlv tNoSuchInstance []⟩
  | some val => ⟨oid, if val = [] then tlv tNoSuchInstance [] else val⟩

/-- The repetitions of one column, each continuing from the one before. -/
def bulkColumn (table : Table) : Oid → Nat → Result (List VarBind)
  | _, 0 => .ok []
  | cur, n + 1 => do
      let vb ← nextVb table cur
      if vb.valueTlv = endOfMibView then pure [vb]
      else
        let rest ← bulkColumn table vb.oid n
        pure (vb :: rest)

/-! ## Messages -/

/-- The OIDs requested by a binding list; a binding takes at least two octets, so
the fuel is never used up. -/
def parseVarbindsFrom (body : Bytes) : Nat → Nat → Result (List Oid)
  | 0, _ => .ok []
  | fuel + 1, pos => do
      if pos < body.length then
        let (tag, vb, pos) ← readTlv body pos
        if tag ≠ tSeq then throw (.berError "varbind not a sequence".toList)
        let (otag, obody, _) ← readTlv vb 0
        if otag ≠ tOid then throw (.berError "varbind name not an OID".toList)
        let oid ← bytesToOid obody
        let oids ← parseVarbindsFrom body fuel pos
        pure (oid :: oids)
      else pure []

def parseVarbinds (body : Bytes) : Result (List Oid) :=
  parseVarbindsFrom body (body.length + 1) 0

/-- The Latin-1 text of a byte string. -/
def latin1 (b : Bytes) : Text :=
  b.map fun x => Char.ofNat x.toNat

/-- The community of a request, read without handling it; only decoding errors are
caught. -/
def peekCommunity (data : Bytes) : Result (Option Text) :=
  let read : Result (Option Text) := do
    let (_, body, _) ← readTlv data 0
    let (vtag, vbody, pos) ← readTlv body 0
    if vtag ≠ tInt ∨ decInt vbody ≠ 1 then return none
    let (ctag, cbody, _) ← readTlv body pos
    if ctag ≠ tOctetStr then return none
    return some (latin1 cbody)
  match read with
  | .error (.berError _) => .ok none
  | result => result

/-- The bindings of the reply to a request of each kind. -/
def replyBindings (table : Table) (ptag : UInt8) (n1 n2 : ℤ) (oids : List Oid) :
    Result (List VarBind) :=
  if ptag = tGet then .ok (oids.map (getVb table))
  else if ptag = tGetNext then oids.mapM (nextVb table)
  else do
    let nonRep := (max 0 n1).toNat
    let maxRep := (max 0 n2).toNat
    let single ← (oids.take nonRep).mapM (nextVb table)
    let columns ← (oids.drop nonRep).mapM fun o => bulkColumn table o maxRep
    pure (single ++ columns.flatten)

/-- Assemble the reply message. -/
def encodeReply (requestId : ℤ) (community : Bytes) (out : List VarBind) : Result Bytes := do
  let encoded ← out.mapM VarBind.encode
  let respPdu := encInt requestId ++ encInt 0 ++ encInt 0 ++ tlv tSeq encoded.flatten
  pure (tlv tSeq (encInt 1 ++ encOctetStr community ++ tlv tResponse respPdu))

/-- Decode a protocol data unit and answer it. -/
def handlePdu (table : Table) (community : Bytes) (ptag : UInt8) (pbody : Bytes) :
    Result Bytes := do
  let (_, rbody, p) ← readTlv pbody 0
  let (_, n1body, p) ← readTlv pbody p
  let (_, n2body, p) ← readTlv pbody p
  let (_, vbbody, _) ← readTlv pbody p
  let oids ← parseVarbinds vbbody
  let out ← replyBindings table ptag (decInt n1body) (decInt n2body) oids
  encodeReply (decInt rbody) community out

/-- Answer a request, or drop it. -/
def handleMessage (data : Bytes) (table : Table) (community : Option Text) :
    Result (Option Bytes) := do
  let (tag, body, _) ← readTlv data 0
  if tag ≠ tSeq then return none
  let (vtag, vbody, pos) ← readTlv body 0
  if vtag ≠ tInt ∨ decInt vbody ≠ 1 then return none
  let (ctag, cbody, pos) ← readTlv body pos
  if ctag ≠ tOctetStr then return none
  if community.any (· ≠ latin1 cbody) then return none
  let (ptag, pbody, _) ← readTlv body pos
  if ptag ≠ tGet ∧ ptag ≠ tGetNext ∧ ptag ≠ tGetBulk then return none
  let reply ← handlePdu table cbody ptag pbody
  return some reply

/-! ## The client of the self-test -/

/-- Assemble a request. -/
def build (requestId : ℤ) (community : Bytes) (pduTag : UInt8) (n1 n2 : ℤ) (oids : List Oid) :
    Result Bytes := do
  let names ← oids.mapM encOid
  let vbl := (names.map fun name => tlv tSeq (name ++ encNull)).flatten
  let pdu := encInt requestId ++ encInt n1 ++ encInt n2 ++ tlv tSeq vbl
  pure (tlv tSeq (encInt 1 ++ encOctetStr community ++ tlv pduTag pdu))

/-- A decoded binding: OID, value tag and value body. -/
structure Binding where
  oid : Oid
  tag : UInt8
  body : Bytes
deriving DecidableEq

/-- Decode the bindings of a reply's list; the fuel is never used up. -/
def respVarbindsFrom (vbl : Bytes) : Nat → Nat → Result (List Binding)
  | 0, _ => .ok []
  | fuel + 1, q => do
      if q < vbl.length then
        let (_, vb, q) ← readTlv vbl q
        let (_, ob, r) ← readTlv vb 0
        let (vt, vbody, _) ← readTlv vb r
        let oid ← bytesToOid ob
        let rest ← respVarbindsFrom vbl fuel q
        pure (⟨oid, vt, vbody⟩ :: rest)
      else pure []

/-- Decode the bindings of a reply. -/
def respVarbinds (reply : Bytes) : Result (List Binding) := do
  let (_, body, _) ← readTlv reply 0
  let (_, _, p) ← readTlv body 0
  let (_, _, p) ← readTlv body p
  let (_, pdu, _) ← readTlv body p
  let (_, _, pp) ← readTlv pdu 0
  let (_, _, pp) ← readTlv pdu pp
  let (_, _, pp) ← readTlv pdu pp
  let (_, vbl, _) ← readTlv pdu pp
  respVarbindsFrom vbl (vbl.length + 1) 0

/-! ## Decoding what was encoded -/

/-- The header of a request in front of its protocol data unit. -/
theorem handleMessage_tlv {community pdu : Bytes} {ptag : UInt8} (table : Table)
    {routed : Option Text} (hrouted : ∀ c ∈ routed, c = latin1 community)
    (hptag : ptag = tGet ∨ ptag = tGetNext ∨ ptag = tGetBulk)
    (hsize : Sized (tlv tSeq (encInt 1 ++ encOctetStr community ++ tlv ptag pdu))) :
    handleMessage (tlv tSeq (encInt 1 ++ encOctetStr community ++ tlv ptag pdu)) table routed =
      (handlePdu table community ptag pdu).map some := by
  have hbody := hsize.of_tlv
  have hread := readTlv_tlv tSeq hbody
  have h₀ : (encInt 1 ++ encOctetStr community ++ tlv ptag pdu).drop 0 =
      tlv tInt (intBody 1) ++ (tlv tOctetStr community ++ tlv ptag pdu) :=
    List.append_assoc _ _ _
  have h₁ := drop_of_drop_append h₀
  have h₂ : (encInt 1 ++ encOctetStr community ++ tlv ptag pdu).drop
      (0 + (tlv tInt (intBody 1)).length + (tlv tOctetStr community).length) =
      tlv ptag pdu ++ [] := by
    rw [drop_of_drop_append h₁, List.append_nil]
  have hread₀ := readTlv_of_drop h₀ hbody.of_append_left.of_append_left.of_tlv
  have hread₁ := readTlv_of_drop h₁ hbody.of_append_left.of_append_right.of_tlv
  have hread₂ := readTlv_of_drop h₂ hbody.of_append_right.of_tlv
  have hknown : ¬ (ptag ≠ tGet ∧ ptag ≠ tGetNext ∧ ptag ≠ tGetBulk) := by
    rcases hptag with rfl | rfl | rfl <;> simp
  have hversion : decInt (intBody 1) = 1 := decInt_natBody 1
  have hsame : (routed.any fun c => decide (c ≠ latin1 community)) = false := by
    cases routed with
    | none => rfl
    | some c => simp [hrouted c rfl]
  simp only [handleMessage, hread, hread₀, hread₁, hread₂, bind, Except.bind, hversion, hsame]
  simp only [ne_eq, not_true_eq_false, or_self, if_false, Bool.false_eq_true]
  rw [if_neg hknown]
  cases handlePdu table community ptag pdu <;> rfl

/-- There are at least as many octets as nonempty pieces. -/
theorem length_le_flatten (pieces : List Bytes) (h : ∀ x ∈ pieces, x ≠ []) :
    pieces.length ≤ pieces.flatten.length := by
  induction pieces with
  | nil => exact le_rfl
  | cons x pieces ih =>
      have hx := List.length_pos_of_ne_nil (h x List.mem_cons_self)
      have hrest := ih fun y hy => h y (List.mem_cons_of_mem x hy)
      rw [List.flatten_cons, List.length_append, List.length_cons]
      omega

/-- A binding list is read back as the OIDs of its names. -/
theorem parseVarbindsFrom_names {body : Bytes} {names : List Bytes} {oids : List Oid}
    (hoids : List.Forall₂ (fun name oid => bytesToOid name = .ok oid) names oids) {pos fuel : Nat}
    (h : body.drop pos = (names.map fun name => tlv tSeq (tlv tOid name ++ encNull)).flatten)
    (hsize : ∀ name ∈ names, Sized (tlv tOid name ++ encNull)) (hfuel : names.length < fuel) :
    parseVarbindsFrom body fuel pos = .ok oids := by
  induction hoids generalizing pos fuel with
  | nil =>
      cases fuel with
      | zero => rfl
      | succ fuel =>
          have hend : ¬ pos < body.length := not_lt.mpr (List.drop_eq_nil_iff.mp h)
          simp only [parseVarbindsFrom, if_neg hend]
          rfl
  | @cons name oid names oids hoid _ ih =>
      cases fuel with
      | zero => exact absurd hfuel (Nat.not_lt_zero _)
      | succ fuel =>
          rw [List.map_cons, List.flatten_cons] at h
          have hvb : Sized (tlv tOid name ++ encNull) := hsize name List.mem_cons_self
          have hmore : pos < body.length := by
            have hlen := congrArg List.length h
            simp only [List.length_drop, List.length_append, tlv, List.length_cons] at hlen
            omega
          have hread := readTlv_of_drop h hvb
          have hdrop : (tlv tOid name ++ encNull).drop 0 = tlv tOid name ++ encNull := rfl
          have hname := readTlv_of_drop hdrop hvb.of_append_left.of_tlv
          have hrest := ih (drop_of_drop_append h)
            (fun x hx => hsize x (List.mem_cons_of_mem _ hx)) (Nat.lt_of_succ_lt_succ hfuel)
          simp only [parseVarbindsFrom, if_pos hmore, hread, hname, hoid, hrest, bind, Except.bind]
          rfl

/-- A binding of a reply and what a client reads from it. -/
def Decodes (vb : VarBind) (b : Binding) : Prop :=
  ∃ name, oidToBytes vb.oid = .ok name ∧ bytesToOid name = .ok b.oid ∧
    vb.valueTlv = tlv b.tag b.body

/-- The encoding of a binding that a client can decode. -/
theorem encode_of_decodes {vb : VarBind} {b : Binding} (h : Decodes vb b) :
    ∃ name, vb.encode = .ok (tlv tSeq (tlv tOid name ++ tlv b.tag b.body)) ∧
      bytesToOid name = .ok b.oid := by
  rcases h with ⟨name, hname, hoid, hvalue⟩
  refine ⟨name, ?_, hoid⟩
  simp only [VarBind.encode, encOid, hname, hvalue]
  rfl

/-- Bindings that can be decoded are encoded without an error. -/
theorem exists_encodeReply (requestId : ℤ) (community : Bytes) {out : List VarBind}
    {bindings : List Binding} (hdecodes : List.Forall₂ Decodes out bindings) :
    ∃ reply, encodeReply requestId community out = .ok reply := by
  have hencoded : ∃ encoded, out.mapM VarBind.encode = .ok encoded := by
    induction hdecodes with
    | nil => exact ⟨[], rfl⟩
    | cons hvb _ ih =>
        rcases encode_of_decodes hvb with ⟨name, hencode, -⟩
        rcases ih with ⟨encoded, hrest⟩
        simp only [List.mapM_cons, hencode, hrest, bind, Except.bind]
        exact ⟨_, rfl⟩
  rcases hencoded with ⟨encoded, hencoded⟩
  simp only [encodeReply, hencoded, bind, Except.bind]
  exact ⟨_, rfl⟩

/-- An encoded binding list is read back. -/
theorem respVarbindsFrom_encoded {vbl : Bytes} {out : List VarBind} {bindings : List Binding}
    (hdecodes : List.Forall₂ Decodes out bindings) {encoded : List Bytes}
    (hencoded : out.mapM VarBind.encode = .ok encoded) {q fuel : Nat}
    (h : vbl.drop q = encoded.flatten) (hsize : Sized encoded.flatten)
    (hfuel : encoded.flatten.length < fuel) :
    respVarbindsFrom vbl fuel q = .ok bindings := by
  induction hdecodes generalizing q fuel encoded with
  | nil =>
      cases fuel with
      | zero => rfl
      | succ fuel =>
          have hend : ¬ q < vbl.length := by
            have hnil : vbl.drop q = [] := by
              cases hencoded
              exact h
            exact not_lt.mpr (List.drop_eq_nil_iff.mp hnil)
          simp only [respVarbindsFrom, if_neg hend]
          rfl
  | @cons vb b out bindings hvb _ ih =>
      rcases encode_of_decodes hvb with ⟨name, hencode, hoid⟩
      simp only [List.mapM_cons, hencode, bind, Except.bind] at hencoded
      split at hencoded
      · cases hencoded
      · rename_i rest hrest
        cases hencoded
        rw [List.flatten_cons] at h hsize hfuel
        have hbody : Sized (tlv tOid name ++ tlv b.tag b.body) := hsize.of_append_left.of_tlv
        cases fuel with
        | zero => exact absurd hfuel (Nat.not_lt_zero _)
        | succ fuel =>
            have hmore : q < vbl.length := by
              have hlen := congrArg List.length h
              simp only [List.length_drop, List.length_append, tlv, List.length_cons] at hlen
              omega
            have hread := readTlv_of_drop h hbody
            have hdrop : (tlv tOid name ++ tlv b.tag b.body).drop 0 =
                tlv tOid name ++ (tlv b.tag b.body ++ []) := by simp
            have hname := readTlv_of_drop hdrop hbody.of_append_left.of_tlv
            have hvalue := readTlv_of_drop (drop_of_drop_append hdrop) hbody.of_append_right.of_tlv
            have hfuel' : rest.flatten.length < fuel := by
              simp only [List.length_append, tlv, List.length_cons] at hfuel
              omega
            have htail := ih hrest (drop_of_drop_append h) hsize.of_append_right hfuel'
            simp only [respVarbindsFrom, if_pos hmore, hread, hname, hvalue, hoid, htail, bind,
              Except.bind]
            rfl

/-- What is read from an encoded reply, field by field. -/
structure ReplyFields (requestId : ℤ) (community reply : Bytes) (out : List VarBind) where
  body : Bytes
  pdu : Bytes
  encoded : List Bytes
  (p₀ p₁ p₂ p₃ q₁ q₂ q₃ q₄ : Nat)
  message : readTlv reply 0 = .ok (tSeq, body, p₀)
  version : readTlv body 0 = .ok (tInt, intBody 1, p₁)
  community : readTlv body p₁ = .ok (tOctetStr, community, p₂)
  response : readTlv body p₂ = .ok (tResponse, pdu, p₃)
  requestId : readTlv pdu 0 = .ok (tInt, intBody requestId, q₁)
  errorStatus : readTlv pdu q₁ = .ok (tInt, intBody 0, q₂)
  errorIndex : readTlv pdu q₂ = .ok (tInt, intBody 0, q₃)
  list : readTlv pdu q₃ = .ok (tSeq, encoded.flatten, q₄)
  encodes : out.mapM VarBind.encode = .ok encoded
  sized : Sized encoded.flatten

/-- Every field of an encoded reply is read back. -/
theorem nonempty_replyFields {requestId : ℤ} {community reply : Bytes} {out : List VarBind}
    (hreply : encodeReply requestId community out = .ok reply) (hsize : Sized reply) :
    Nonempty (ReplyFields requestId community reply out) := by
  simp only [encodeReply, bind, Except.bind] at hreply
  split at hreply
  · cases hreply
  · rename_i encoded hencoded
    simp only [pure, Except.pure, Except.ok.injEq] at hreply
    subst hreply
    have hbody := hsize.of_tlv
    have hpdu := hbody.of_append_right.of_tlv
    have h₀ : (encInt 1 ++ encOctetStr community ++ tlv tResponse
        (encInt requestId ++ encInt 0 ++ encInt 0 ++ tlv tSeq encoded.flatten)).drop 0 =
        tlv tInt (intBody 1) ++ (tlv tOctetStr community ++ (tlv tResponse
          (encInt requestId ++ encInt 0 ++ encInt 0 ++ tlv tSeq encoded.flatten) ++ [])) := by
      simp [encInt, encOctetStr]
    have h₁ := drop_of_drop_append h₀
    have h₂ := drop_of_drop_append h₁
    have k₀ : (encInt requestId ++ encInt 0 ++ encInt 0 ++ tlv tSeq encoded.flatten).drop 0 =
        tlv tInt (intBody requestId) ++ (tlv tInt (intBody 0) ++ (tlv tInt (intBody 0) ++
          (tlv tSeq encoded.flatten ++ []))) := by
      simp [encInt]
    have k₁ := drop_of_drop_append k₀
    have k₂ := drop_of_drop_append k₁
    have k₃ := drop_of_drop_append k₂
    constructor
    exact {
      body := encInt 1 ++ encOctetStr community ++ tlv tResponse
        (encInt requestId ++ encInt 0 ++ encInt 0 ++ tlv tSeq encoded.flatten)
      pdu := encInt requestId ++ encInt 0 ++ encInt 0 ++ tlv tSeq encoded.flatten
      encoded := encoded
      p₀ := _, p₁ := _, p₂ := _, p₃ := _, q₁ := _, q₂ := _, q₃ := _, q₄ := _
      message := readTlv_tlv tSeq hbody
      version := readTlv_of_drop h₀ hbody.of_append_left.of_append_left.of_tlv
      community := readTlv_of_drop h₁ hbody.of_append_left.of_append_right.of_tlv
      response := readTlv_of_drop h₂ hpdu
      requestId := readTlv_of_drop k₀ hpdu.of_append_left.of_append_left.of_append_left.of_tlv
      errorStatus := readTlv_of_drop k₁ hpdu.of_append_left.of_append_left.of_append_right.of_tlv
      errorIndex := readTlv_of_drop k₂ hpdu.of_append_left.of_append_right.of_tlv
      list := readTlv_of_drop k₃ hpdu.of_append_right.of_tlv
      encodes := hencoded
      sized := hpdu.of_append_right.of_tlv }

/-- The client decodes the bindings of an encoded reply. -/
theorem respVarbinds_encodeReply {requestId : ℤ} {community reply : Bytes} {out : List VarBind}
    {bindings : List Binding} (hdecodes : List.Forall₂ Decodes out bindings)
    (hreply : encodeReply requestId community out = .ok reply) (hsize : Sized reply) :
    respVarbinds reply = .ok bindings := by
  rcases nonempty_replyFields hreply hsize with ⟨f⟩
  have hlist := respVarbindsFrom_encoded hdecodes f.encodes (q := 0) rfl f.sized
    (Nat.lt_succ_self _)
  simp only [respVarbinds, f.message, f.version, f.community, f.response, f.requestId,
    f.errorStatus, f.errorIndex, f.list, bind, Except.bind, hlist]

/-! ## Handling an assembled request -/

/-- The responder decodes an assembled request. -/
theorem handleMessage_build {t : Table} {requestId n1 n2 : ℤ} {community request : Bytes}
    {routed : Option Text} (hrouted : ∀ c ∈ routed, c = latin1 community) {ptag : UInt8}
    (hptag : ptag = tGet ∨ ptag = tGetNext ∨ ptag = tGetBulk) {oids asked : List Oid}
    (hasked : List.Forall₂ (fun oid asked => ∃ name, oidToBytes oid = .ok name ∧
      bytesToOid name = .ok asked) oids asked)
    (hrequest : build requestId community ptag n1 n2 oids = .ok request) (hsize : Sized request) :
    handleMessage request t routed =
      ((replyBindings t ptag n1 n2 asked).bind (encodeReply requestId community)).map some := by
  have hnames : ∃ names, oids.mapM encOid = .ok (names.map (tlv tOid)) ∧
      List.Forall₂ (fun name asked => bytesToOid name = .ok asked) names asked := by
    clear hrequest
    induction hasked with
    | nil => exact ⟨[], rfl, .nil⟩
    | cons hoid _ ih =>
        rcases hoid with ⟨name, hname, hread⟩
        rcases ih with ⟨names, hnames, hreads⟩
        refine ⟨name :: names, ?_, .cons hread hreads⟩
        simp only [List.mapM_cons, encOid, hname, Except.map, hnames, bind, Except.bind, pure,
          Except.pure, List.map_cons]
  rcases hnames with ⟨names, hnames, hreads⟩
  have hbuild : request = tlv tSeq (encInt 1 ++ encOctetStr community ++ tlv ptag
      (encInt requestId ++ encInt n1 ++ encInt n2 ++
        tlv tSeq (names.map fun name => tlv tSeq (tlv tOid name ++ encNull)).flatten)) := by
    simp only [build, hnames, bind, Except.bind, pure, Except.pure, Except.ok.injEq,
      List.map_map] at hrequest
    exact hrequest.symm
  subst hbuild
  have hpdu := hsize.of_tlv.of_append_right.of_tlv
  have hvbl := hpdu.of_append_right.of_tlv
  have k₀ : (encInt requestId ++ encInt n1 ++ encInt n2 ++
      tlv tSeq (names.map fun name => tlv tSeq (tlv tOid name ++ encNull)).flatten).drop 0 =
      tlv tInt (intBody requestId) ++ (tlv tInt (intBody n1) ++ (tlv tInt (intBody n2) ++
        (tlv tSeq (names.map fun name => tlv tSeq (tlv tOid name ++ encNull)).flatten ++ []))) := by
    simp [encInt]
  have k₁ := drop_of_drop_append k₀
  have k₂ := drop_of_drop_append k₁
  have k₃ := drop_of_drop_append k₂
  have hread₀ := readTlv_of_drop k₀ hpdu.of_append_left.of_append_left.of_append_left.of_tlv
  have hread₁ := readTlv_of_drop k₁ hpdu.of_append_left.of_append_left.of_append_right.of_tlv
  have hread₂ := readTlv_of_drop k₂ hpdu.of_append_left.of_append_right.of_tlv
  have hread₃ := readTlv_of_drop k₃ hvbl
  have hoids : parseVarbinds (names.map fun name => tlv tSeq (tlv tOid name ++ encNull)).flatten =
      .ok asked := by
    apply parseVarbindsFrom_names hreads rfl
    · intro name hname
      exact (hvbl.of_mem_flatten (List.mem_map_of_mem hname)).of_tlv
    · have hlong := length_le_flatten (names.map fun name => tlv tSeq (tlv tOid name ++ encNull))
        (by
          intro x hx
          rcases List.mem_map.mp hx with ⟨name, -, rfl⟩
          exact List.cons_ne_nil _ _)
      rw [List.length_map] at hlong
      omega
  rw [handleMessage_tlv t hrouted hptag hsize]
  simp only [handlePdu, hread₀, hread₁, hread₂, hread₃, hoids, decInt_intBody, bind, Except.bind]

end Snmp
end DemoEstate
