import Mathlib.Order.Bounds.Basic
import DemoEstate.Snmp.Walk

/-!
# GET and GETNEXT exchanges

A client assembles a GET or GETNEXT request as the self-test does and decodes every
field of the reply.

Main results:

- Theorem {lit}`readReply_encodeReply`: all fields of an encoded reply are read back.
- Theorem {lit}`replied`: a request is answered with one binding for each OID, in order.
- Theorem {lit}`not_replied_oneArc`: a stored OID of one arc makes GETNEXT raise.
-/

namespace DemoEstate
namespace Snmp

/-! ## Decoding a reply -/

/-- The fields of a reply. -/
structure Reply where
  version : ℤ
  community : Bytes
  requestId : ℤ
  errorStatus : ℤ
  errorIndex : ℤ
  bindings : List Binding

/-- Decode a reply whose fields have their tags. -/
def readReply (reply : Bytes) : Result Reply := do
  let (tag, body, _) ← readTlv reply 0
  let (vtag, vbody, p) ← readTlv body 0
  let (ctag, community, p) ← readTlv body p
  let (rtag, pdu, _) ← readTlv body p
  let (itag, ibody, q) ← readTlv pdu 0
  let (stag, sbody, q) ← readTlv pdu q
  let (xtag, xbody, q) ← readTlv pdu q
  let (ltag, vbl, _) ← readTlv pdu q
  if [tag, vtag, ctag, rtag, itag, stag, xtag, ltag] ≠
      [tSeq, tInt, tOctetStr, tResponse, tInt, tInt, tInt, tSeq] then throw .valueError
  let bindings ← respVarbindsFrom vbl (vbl.length + 1) 0
  pure {
    version := decInt vbody
    community := community
    requestId := decInt ibody
    errorStatus := decInt sbody
    errorIndex := decInt xbody
    bindings := bindings }

/-- All fields of an encoded reply are read back. -/
theorem readReply_encodeReply {requestId : ℤ} {community reply : Bytes} {out : List VarBind}
    {bindings : List Binding} (hdecodes : List.Forall₂ Decodes out bindings)
    (hreply : encodeReply requestId community out = .ok reply) (hsize : Sized reply) :
    readReply reply = .ok ⟨1, community, requestId, 0, 0, bindings⟩ := by
  rcases nonempty_replyFields hreply hsize with ⟨f⟩
  have hlist := respVarbindsFrom_encoded hdecodes f.encodes (q := 0) rfl f.sized
    (Nat.lt_succ_self _)
  simp only [readReply, f.message, f.version, f.community, f.response, f.requestId,
    f.errorStatus, f.errorIndex, f.list, decInt_intBody, bind, Except.bind, hlist]
  rfl

/-! ## The bindings of a reply -/

/-- The requested OID with its stored value, or without an instance. -/
def GetAnswer (t : Table) (oid : Oid) (b : Binding) : Prop :=
  b.oid = oid ∧
    match t.get oid with
    | some v => tlv b.tag b.body = v
    | none => b.tag = tNoSuchInstance ∧ b.body = []

/-- A stored OID is the least one above the requested OID. -/
def LeastAbove (t : Table) (oid next : Oid) : Prop :=
  IsLeast {x | x ∈ t.value.keys ∧ oid < x} next

/-- The least stored OID above the requested one with its value, or the end of the view. -/
def NextAnswer (t : Table) (oid : Oid) (b : Binding) : Prop :=
  (LeastAbove t oid b.oid ∧ t.get b.oid = some (tlv b.tag b.body)) ∨
    ((∀ x ∈ t.value.keys, ¬ oid < x) ∧ b.oid = oid ∧ b.tag = tEndOfMibView ∧ b.body = [])

/-- The binding that answers an OID of a GET or a GETNEXT request. -/
def Answers (t : Table) (ptag : UInt8) (oid : Oid) (b : Binding) : Prop :=
  if ptag = tGet then GetAnswer t oid b else NextAnswer t oid b

/-- The successor lookup finds the least stored OID above. -/
theorem leastAbove_of_next {t : Table} (ht : t.WellFormed) {oid next : Oid}
    (h : t.next oid = some next) : LeastAbove t oid next := by
  rw [Table.next_eq_head_above ht] at h
  have hmem : next ∈ t.above oid := List.mem_of_mem_head? h
  rcases List.mem_filter.mp hmem with ⟨hstored, habove⟩
  constructor
  · exact ⟨(ht.mem_oids next).mp hstored, by simpa using habove⟩
  · rintro x ⟨hx, hlt⟩
    have hx' : x ∈ t.above oid :=
      List.mem_filter.mpr ⟨(ht.mem_oids x).mpr hx, by simpa using hlt⟩
    have hsorted : (t.above oid).Pairwise (· < ·) := ht.increasing.filter _
    cases hlist : t.above oid with
    | nil => simp [hlist] at hmem
    | cons y ys =>
        rw [hlist, List.head?_cons, Option.some.injEq] at h
        subst h
        rw [hlist] at hx' hsorted
        rcases List.mem_cons.mp hx' with rfl | hys
        · exact le_rfl
        · exact ((List.pairwise_cons.mp hsorted).1 x hys).le

/-- Without a successor there is no stored OID above. -/
theorem not_lt_of_next {t : Table} (ht : t.WellFormed) {oid : Oid} (h : t.next oid = none) :
    ∀ x ∈ t.value.keys, ¬ oid < x := by
  intro x hx hlt
  rw [Table.next_eq_head_above ht, List.head?_eq_none_iff] at h
  have hmem : x ∈ t.above oid :=
    List.mem_filter.mpr ⟨(ht.mem_oids x).mpr hx, by simpa using hlt⟩
  rw [h] at hmem
  cases hmem

/-- A client decodes the answer to a GET of one OID. -/
theorem exists_getAnswer {t : Table} (ht : t.WellFormed) {oid : Oid} (h : OneOctet oid) :
    ∃ b, Decodes (getVb t oid) b ∧ GetAnswer t oid b := by
  rcases h.readBack with ⟨name, hname, hread⟩
  unfold getVb GetAnswer
  cases hget : t.get oid with
  | none => exact ⟨⟨oid, tNoSuchInstance, []⟩, ⟨name, hname, hread, rfl⟩, rfl, rfl, rfl⟩
  | some v =>
      rcases ht.octetStr oid v hget with ⟨payload, rfl⟩
      refine ⟨⟨oid, tOctetStr, payload⟩, ⟨name, hname, hread, ?_⟩, rfl, rfl⟩
      simp [encOctetStr, tlv]

/-- A client decodes the answer to a GETNEXT of one OID. -/
theorem exists_nextAnswer {t : Table} (ht : t.WellFormed) {oid : Oid} (h : OneOctet oid)
    (hnext : ∀ next, LeastAbove t oid next → OneOctet next) :
    ∃ vb b, nextVb t oid = .ok vb ∧ Decodes vb b ∧ NextAnswer t oid b := by
  unfold nextVb
  cases hlookup : t.next oid with
  | none =>
      rcases h.readBack with ⟨name, hname, hread⟩
      exact ⟨_, ⟨oid, tEndOfMibView, []⟩, rfl, ⟨name, hname, hread, rfl⟩,
        Or.inr ⟨not_lt_of_next ht hlookup, rfl, rfl, rfl⟩⟩
  | some next =>
      have hleast := leastAbove_of_next ht hlookup
      rcases (hnext next hleast).readBack with ⟨name, hname, hread⟩
      rcases Table.exists_get_of_mem ht ((ht.mem_oids next).mpr hleast.1.1) with ⟨payload, hget⟩
      simp only [hget]
      exact ⟨_, ⟨next, tOctetStr, payload⟩, rfl, ⟨name, hname, hread, rfl⟩,
        Or.inl ⟨hleast, hget⟩⟩

/-- The bindings of the reply to a GET or a GETNEXT request. -/
theorem exists_bindings {t : Table} (ht : t.WellFormed) {ptag : UInt8}
    (hptag : ptag = tGet ∨ ptag = tGetNext) {oids : List Oid} (hoids : ∀ oid ∈ oids, OneOctet oid)
    (hnext : ptag = tGetNext → ∀ oid ∈ oids, ∀ next, LeastAbove t oid next → OneOctet next) :
    ∃ out bindings, replyBindings t ptag 0 0 oids = .ok out ∧
      List.Forall₂ Decodes out bindings ∧ List.Forall₂ (Answers t ptag) oids bindings := by
  rcases hptag with rfl | rfl
  · have hall : ∃ bindings, List.Forall₂ Decodes (oids.map (getVb t)) bindings ∧
        List.Forall₂ (GetAnswer t) oids bindings := by
      clear hnext
      induction oids with
      | nil => exact ⟨[], .nil, .nil⟩
      | cons oid oids ih =>
          rcases exists_getAnswer ht (hoids oid List.mem_cons_self) with ⟨b, hdecodes, hanswer⟩
          rcases ih fun x hx => hoids x (List.mem_cons_of_mem oid hx) with ⟨bs, hbs, hanswers⟩
          exact ⟨b :: bs, .cons hdecodes hbs, .cons hanswer hanswers⟩
    rcases hall with ⟨bindings, hdecodes, hanswers⟩
    refine ⟨_, bindings, if_pos rfl, hdecodes, hanswers.imp fun oid b h => ?_⟩
    rw [Answers, if_pos rfl]
    exact h
  · have hall : ∃ out bindings, oids.mapM (nextVb t) = .ok out ∧
        List.Forall₂ Decodes out bindings ∧ List.Forall₂ (NextAnswer t) oids bindings := by
      have hnext := hnext rfl
      induction oids with
      | nil => exact ⟨[], [], rfl, .nil, .nil⟩
      | cons oid oids ih =>
          rcases exists_nextAnswer ht (hoids oid List.mem_cons_self)
            (hnext oid List.mem_cons_self) with ⟨vb, b, hvb, hdecodes, hanswer⟩
          rcases ih (fun x hx => hoids x (List.mem_cons_of_mem oid hx))
            (fun _ x hx => hnext x (List.mem_cons_of_mem oid hx))
            (fun x hx => hnext x (List.mem_cons_of_mem oid hx)) with
            ⟨out, bs, hout, hbs, hanswers⟩
          refine ⟨vb :: out, b :: bs, ?_, .cons hdecodes hbs, .cons hanswer hanswers⟩
          simp only [List.mapM_cons, hvb, hout, bind, Except.bind, pure, Except.pure]
    rcases hall with ⟨out, bindings, hout, hdecodes, hanswers⟩
    refine ⟨out, bindings, ?_, hdecodes, hanswers.imp fun oid b h => ?_⟩
    · rw [replyBindings, if_neg (by decide), if_pos rfl, hout]
    · rw [Answers, if_neg (by decide)]
      exact h

/-! ## The exchange -/

/-- A GET or GETNEXT request assembled as in the self-test is answered with version 1,
its own community and request id, no error, and one binding for each OID, in order. -/
theorem replied {t : Table} (ht : t.WellFormed) {ptag : UInt8}
    (hptag : ptag = tGet ∨ ptag = tGetNext) {oids : List Oid} (hoids : ∀ oid ∈ oids, Served oid)
    (hnext : ptag = tGetNext → ∀ oid ∈ oids, ∀ next, LeastAbove t oid next → OneOctet next)
    (requestId : ℤ) (community : Bytes) {routed : Option Text}
    (hrouted : ∀ c ∈ routed, c = latin1 community) :
    ∃ request, build requestId community ptag 0 0 oids = .ok request ∧
      (Storable request → ∃ reply, handleMessage request t routed = .ok (some reply) ∧
        (Storable reply → ∃ bindings,
          readReply reply = .ok ⟨1, community, requestId, 0, 0, bindings⟩ ∧
            List.Forall₂ (Answers t ptag) oids bindings)) := by
  have hread : List.Forall₂ (fun oid asked => ∃ name, oidToBytes oid = .ok name ∧
      bytesToOid name = .ok asked) oids oids :=
    List.forall₂_same.mpr fun oid hoid => (hoids oid hoid).oneOctet.readBack
  have hnames : ∃ names, oids.mapM encOid = .ok names := by
    clear hnext
    induction oids with
    | nil => exact ⟨[], rfl⟩
    | cons oid oids ih =>
        rcases (hoids oid List.mem_cons_self).oneOctet.readBack with ⟨name, hname, -⟩
        rcases ih (fun x hx => hoids x (List.mem_cons_of_mem oid hx))
          (List.forall₂_cons.mp hread).2 with ⟨names, hnames⟩
        simp only [List.mapM_cons, encOid, hname, hnames, Except.map, bind, Except.bind]
        exact ⟨_, rfl⟩
  rcases hnames with ⟨names, hnames⟩
  have hrequest : ∃ request, build requestId community ptag 0 0 oids = .ok request := by
    simp only [build, hnames, bind, Except.bind]
    exact ⟨_, rfl⟩
  rcases hrequest with ⟨request, hrequest⟩
  refine ⟨request, hrequest, fun hfits => ?_⟩
  rcases exists_bindings ht hptag (fun oid hoid => (hoids oid hoid).oneOctet) hnext with
    ⟨out, bindings, hout, hdecodes, hanswers⟩
  rcases exists_encodeReply requestId community hdecodes with ⟨reply, hreply⟩
  have hhandle := handleMessage_build (t := t) hrouted (hptag.imp_right Or.inl) hread hrequest
    hfits.sized
  simp only [hout, Except.bind, hreply, Except.map] at hhandle
  refine ⟨reply, hhandle, fun hstorable => ⟨bindings, ?_, hanswers⟩⟩
  exact readReply_encodeReply hdecodes hreply hstorable.sized

/-- A table of one stored OID. -/
def oneRow (oid : Oid) : Table where
  oids := [oid]
  value := Dict.ofRows [(oid, encOctetStr [120])]

theorem wellFormed_oneRow (oid : Oid) : (oneRow oid).WellFormed where
  increasing := List.pairwise_singleton _ _
  mem_oids x := by simp [oneRow, Dict.mem_keys_ofRows]
  octetStr x v h := by
    rw [Table.get, oneRow, Dict.ofRows, Dict.update_cons, Dict.update_nil, Dict.get_set] at h
    split at h
    · exact ⟨[120], (Option.some.inj h).symm⟩
    · simp at h

/-- A GETNEXT exchange for the OID below the only stored one and for that one. -/
theorem replied_oneRow : ∃ request reply bindings,
    build 7 [112] tGetNext 0 0 [[1, 3], [1, 3, 6]] = .ok request ∧
      handleMessage request (oneRow [1, 3, 6]) none = .ok (some reply) ∧
      readReply reply = .ok ⟨1, [112], 7, 0, 0, bindings⟩ ∧
      List.Forall₂ (Answers (oneRow [1, 3, 6]) tGetNext) [[1, 3], [1, 3, 6]] bindings := by
  have hserved : ∀ oid ∈ ([[1, 3], [1, 3, 6]] : List Oid), Served oid := by
    intro oid hoid
    simp only [List.mem_cons, List.not_mem_nil, or_false] at hoid
    rcases hoid with rfl | rfl <;> exact ⟨1, 3, _, rfl, by decide, by decide⟩
  have hnext : tGetNext = tGetNext → ∀ oid ∈ ([[1, 3], [1, 3, 6]] : List Oid), ∀ next,
      LeastAbove (oneRow [1, 3, 6]) oid next → OneOctet next := by
    intro _ oid _ next hleast
    have hkey : next = [1, 3, 6] := by
      simpa [oneRow, Dict.mem_keys_ofRows] using hleast.1.1
    exact ⟨1, 3, [6], hkey, by decide, by decide⟩
  have hshort : ∃ request reply, build 7 [112] tGetNext 0 0 [[1, 3], [1, 3, 6]] = .ok request ∧
      handleMessage request (oneRow [1, 3, 6]) none = .ok (some reply) ∧
        request.length < 100 ∧ reply.length < 100 :=
    ⟨_, _, rfl, rfl, by decide, by decide⟩
  rcases hshort with ⟨request, reply, hbuild, hhandle, hrequest, hreply⟩
  rcases replied (wellFormed_oneRow [1, 3, 6]) (Or.inr rfl) hserved hnext 7 [112]
    (by simp : ∀ c ∈ (none : Option Text), c = latin1 [112]) with ⟨request', hbuild', hanswered⟩
  cases hbuild.symm.trans hbuild'
  rcases hanswered (lt_trans hrequest (by norm_num)) with ⟨reply', hhandle', hdecoded⟩
  cases hhandle.symm.trans hhandle'
  rcases hdecoded (lt_trans hreply (by norm_num)) with ⟨bindings, hread, hanswers⟩
  exact ⟨request, reply, bindings, hbuild, hhandle, hread, hanswers⟩

/-- The OID behind the requested one has one arc and cannot be encoded. -/
theorem not_replied_oneArc : ∃ t request, Table.ofRows [(['.', '5'], ['x'])] = .ok t ∧
    t.WellFormed ∧ Served [1, 3] ∧ build 7 [112] tGetNext 0 0 [[1, 3]] = .ok request ∧
      Storable request ∧
      handleMessage request t none = .error (.berError "OID too short: (5,)".toList) ∧
      ¬ ∃ reply, handleMessage request t none = .ok (some reply) := by
  have hshort : ∃ request, build 7 [112] tGetNext 0 0 [[1, 3]] = .ok request ∧
      request.length < 100 ∧
        handleMessage request (oneRow [5]) none = .error (.berError "OID too short: (5,)".toList) :=
    ⟨_, rfl, by decide, by decide +kernel⟩
  rcases hshort with ⟨request, hbuild, hlength, herror⟩
  refine ⟨oneRow [5], request, by decide +kernel, wellFormed_oneRow [5],
    ⟨1, 3, [], rfl, by decide, by decide⟩, hbuild, lt_trans hlength (by norm_num), herror, ?_⟩
  rintro ⟨reply, hreply⟩
  cases herror.symm.trans hreply

end Snmp
end DemoEstate
