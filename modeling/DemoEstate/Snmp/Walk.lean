import DemoEstate.Snmp.Message

/-!
# Walking a table with GETBULK

A client walks a device by sending single-binding GETBULK requests, each from the
last OID it got, until it is told that the view has ended.

Main results:

- Theorem {lit}`bulkColumn_eq`: a GETBULK column is a prefix of the OIDs above,
  closed by an end-of-view binding when they run out.
- Theorem {lit}`bulkStep_eq`: one exchange delivers a prefix of the stored pairs.
- Theorem {lit}`bulkWalk_eq`: the walk delivers exactly the stored pairs above
  its start, in order.
-/

namespace DemoEstate
namespace Snmp

/-! ## The client -/

/-- One exchange: send a GETBULK request for a single OID and decode the reply. -/
def bulkStep (agent : Bytes → Result (Option Bytes)) (requestId : ℤ) (community : Bytes)
    (maxRepetitions : Nat) (cur : Oid) : Option (List Binding) :=
  match build requestId community tGetBulk 0 maxRepetitions [cur] with
  | .error _ => none
  | .ok request =>
      match agent request with
      | .ok (some reply) => (respVarbinds reply).toOption
      | _ => none

/-- Walk from an OID until an end-of-view binding; the fuel bounds the exchanges. -/
def bulkWalk (agent : Bytes → Result (Option Bytes)) (requestId : ℤ) (community : Bytes)
    (maxRepetitions : Nat) : Nat → Oid → Option (List Binding)
  | 0, _ => none
  | fuel + 1, cur => do
      let bindings ← bulkStep agent requestId community maxRepetitions cur
      let got := bindings.takeWhile (·.tag ≠ tEndOfMibView)
      if got.length < bindings.length then some got
      else
        let last ← bindings.getLast?
        let rest ← bulkWalk agent requestId community maxRepetitions fuel last.oid
        some (got ++ rest)

/-! ## OIDs on the wire -/

/-- At least two arcs, the first 0 or 1 and the second at most 39. -/
def Served (oid : Oid) : Prop :=
  ∃ a b rest, oid = a :: b :: rest ∧ a ≤ 1 ∧ b ≤ 39

/-- At least two arcs, and the first two share one octet that tells them apart. -/
def OneOctet (oid : Oid) : Prop :=
  ∃ a b rest, oid = a :: b :: rest ∧ b < 40 ∧ 40 * a + b < 0x80

theorem Served.oneOctet {oid : Oid} (h : Served oid) : OneOctet oid := by
  rcases h with ⟨a, b, rest, rfl, ha, hb⟩
  exact ⟨a, b, rest, rfl, by omega, by omega⟩

/-- At least two arcs, and a second arc of at most 39 under a first arc 0. -/
def Askable (oid : Oid) : Prop :=
  ∃ a b rest, oid = a :: b :: rest ∧ (a = 0 → b ≤ 39)

theorem Served.askable {oid : Oid} (h : Served oid) : Askable oid := by
  rcases h with ⟨a, b, rest, rfl, -, hb⟩
  exact ⟨a, b, rest, rfl, fun _ => hb⟩

/-- Such an OID is read back from its octets. -/
theorem OneOctet.readBack {oid : Oid} (h : OneOctet oid) :
    ∃ name, oidToBytes oid = .ok name ∧ bytesToOid name = .ok oid := by
  rcases h with ⟨a, b, rest, rfl, hb, hab⟩
  exact ⟨_, rfl, bytesToOid_oidToBytes hb hab rest⟩

/-- The octets of an OID of at least two arcs are read as some such OID. -/
theorem exists_readBack (a b : Nat) (rest : List Nat) :
    ∃ name a' b' rest', oidToBytes (a :: b :: rest) = .ok name ∧
      bytesToOid name = .ok (a' :: b' :: rest') := by
  refine ⟨subid (40 * a + b) ++ rest.flatMap subid, ?_⟩
  cases hname : subid (40 * a + b) ++ rest.flatMap subid with
  | nil =>
      have hsubid := List.append_eq_nil_iff.mp hname
      exact absurd hsubid.1 (by unfold subid; split <;> simp)
  | cons x xs => exact ⟨_, _, _, congrArg Except.ok hname, rfl⟩

/-- What the responder reads for an askable OID has the same stored OIDs above it. -/
theorem Askable.readBack {oid : Oid} (h : Askable oid) {t : Table}
    (hserved : ∀ x ∈ t.oids, Served x) :
    ∃ name a b rest, oidToBytes oid = .ok name ∧ bytesToOid name = .ok (a :: b :: rest) ∧
      t.above (a :: b :: rest) = t.above oid := by
  rcases h with ⟨a, b, rest, rfl, ha⟩
  by_cases hlow : a ≤ 1 ∧ b ≤ 39
  · exact ⟨_, a, b, rest, rfl, bytesToOid_oidToBytes (by omega) (by omega) rest, rfl⟩
  · -- every stored OID lies below such an OID and below what is read for it
    have hn : 80 ≤ 40 * a + b := by omega
    rcases subid_head (40 * a + b) with ⟨x, xs, hsubid, hx⟩
    refine ⟨_, x.toNat / 40, x.toNat % 40, arcs 0 (xs ++ rest.flatMap subid), rfl, ?_, ?_⟩
    · rw [hsubid]
      rfl
    · have hnone : ∀ first second more, 2 ≤ first ∨ first = 1 ∧ 40 ≤ second →
          t.above (first :: second :: more) = [] := by
        intro first second more hhigh
        refine List.filter_eq_nil_iff.mpr fun y hy => ?_
        rcases hserved y hy with ⟨c, d, ys, rfl, hc, hd⟩
        simp only [decide_eq_true_eq, List.cons_lt_cons_iff]
        omega
      rw [hnone _ _ _ (Or.inl (by omega)), hnone a b rest (by omega)]

/-! ## One column -/

/-- The binding of a stored OID. -/
def stored (t : Table) (oid : Oid) : VarBind :=
  ⟨oid, (t.get oid).getD []⟩

/-- The end-of-view binding closes a column that ran out of OIDs. -/
def closing (above : List Oid) (cur : Oid) (n : Nat) : List VarBind :=
  if above.length < n then [⟨above.getLast?.getD cur, endOfMibView⟩] else []

theorem encOctetStr_ne_endOfMibView (payload : Bytes) : encOctetStr payload ≠ endOfMibView := by
  simp [encOctetStr, endOfMibView, tlv, tOctetStr, tEndOfMibView]

/-- A column is a prefix of the OIDs above, closed when they run out. -/
theorem bulkColumn_eq {t : Table} (ht : t.WellFormed) (cur : Oid) (n : Nat) :
    bulkColumn t cur n =
      .ok (((t.above cur).take n).map (stored t) ++ closing (t.above cur) cur n) := by
  induction n generalizing cur with
  | zero => simp [bulkColumn, closing]
  | succ n ih =>
      cases habove : t.above cur with
      | nil =>
          have hnext : t.next cur = none := by rw [Table.next_eq_head_above ht, habove]; rfl
          simp only [bulkColumn, nextVb, hnext, bind, Except.bind, pure, Except.pure]
          simp [closing]
      | cons x xs =>
          have hnext : t.next cur = some x := by rw [Table.next_eq_head_above ht, habove]; rfl
          have hx : x ∈ t.oids := Table.mem_oids_of_mem_above (habove ▸ List.mem_cons_self)
          rcases Table.exists_get_of_mem ht hx with ⟨payload, hget⟩
          have hstored : nextVb t cur = .ok (stored t x) := by
            simp [nextVb, hnext, hget, stored]
          have hvalue : (stored t x).valueTlv ≠ endOfMibView := by
            simpa [stored, hget] using encOctetStr_ne_endOfMibView payload
          have hrest : bulkColumn t (stored t x).oid n = _ := ih x
          have hclosing : closing (x :: xs) cur (n + 1) = closing xs x n := by
            simp only [closing, List.length_cons, Nat.add_lt_add_iff_right, List.getLast?_cons,
              Option.getD_some]
          simp only [bulkColumn, hstored, bind, Except.bind, if_neg hvalue, hrest,
            Table.above_head ht habove, hclosing, pure, Except.pure]
          rfl

/-! ## One exchange -/

/-- A decoded binding is the stored pair of an OID. -/
def Delivers (t : Table) (oid : Oid) (b : Binding) : Prop :=
  b.oid = oid ∧ b.tag = tOctetStr ∧ t.get oid = some (tlv b.tag b.body)

/-- Every stored OID has a binding that delivers it. -/
theorem exists_delivered {t : Table} (ht : t.WellFormed) {oids : List Oid}
    (h : ∀ oid ∈ oids, oid ∈ t.oids) : ∃ bindings, List.Forall₂ (Delivers t) oids bindings := by
  induction oids with
  | nil => exact ⟨[], .nil⟩
  | cons oid oids ih =>
      rcases Table.exists_get_of_mem ht (h oid List.mem_cons_self) with ⟨payload, hget⟩
      rcases ih fun x hx => h x (List.mem_cons_of_mem oid hx) with ⟨bindings, hbindings⟩
      exact ⟨⟨oid, tOctetStr, payload⟩ :: bindings, .cons ⟨rfl, rfl, hget⟩ hbindings⟩

theorem map_oid_of_delivers {t : Table} {oids : List Oid} {bindings : List Binding}
    (h : List.Forall₂ (Delivers t) oids bindings) : bindings.map Binding.oid = oids := by
  induction h with
  | nil => rfl
  | cons hb _ ih => rw [List.map_cons, hb.1, ih]

/-- A delivered binding is what a client decodes from the stored one. -/
theorem decodes_of_delivers {t : Table} (hserved : ∀ x ∈ t.oids, Served x) {oids : List Oid}
    (hoids : ∀ oid ∈ oids, oid ∈ t.oids) {bindings : List Binding}
    (h : List.Forall₂ (Delivers t) oids bindings) :
    List.Forall₂ Decodes (oids.map (stored t)) bindings := by
  induction h with
  | nil => exact .nil
  | @cons oid b oids bindings hb _ ih =>
      rcases (hserved oid (hoids oid List.mem_cons_self)).oneOctet.readBack with ⟨name, hname, hoid⟩
      rcases hb with ⟨rfl, -, hget⟩
      exact .cons ⟨name, hname, hoid, by simp [stored, hget]⟩
        (ih fun x hx => hoids x (List.mem_cons_of_mem _ hx))

/-- The largest size of a byte string, as an address space bounds it. -/
def Storable (b : Bytes) : Prop :=
  b.length < 2 ^ 63

theorem Storable.sized {b : Bytes} (h : Storable b) : Sized b :=
  lt_trans h (by norm_num)

/-- The requests of a walk and their replies are byte strings that can be stored. -/
def FitsMemory (t : Table) (requestId : ℤ) (community : Bytes) (maxRepetitions : Nat)
    (start : Oid) : Prop :=
  ∀ cur ∈ start :: t.oids, ∀ request,
    build requestId community tGetBulk 0 maxRepetitions [cur] = .ok request →
      Storable request ∧
        ∀ reply, handleMessage request t none = .ok (some reply) → Storable reply

/-- The responder answers a single-binding GETBULK request with its column. -/
theorem handleMessage_bulk {t : Table} (requestId : ℤ) (community : Bytes) (n : Nat)
    {cur asked : Oid} {name request : Bytes} (hname : oidToBytes cur = .ok name)
    (hasked : bytesToOid name = .ok asked)
    (hrequest : build requestId community tGetBulk 0 n [cur] = .ok request)
    (hsize : Sized request) :
    handleMessage request t none =
      ((bulkColumn t asked n).bind (encodeReply requestId community)).map some := by
  have hbindings : replyBindings t tGetBulk 0 n [asked] = bulkColumn t asked n := by
    simp only [replyBindings]
    rw [if_neg (by decide), if_neg (by decide)]
    cases hcolumn : bulkColumn t asked n <;>
      simp [hcolumn, bind, Except.bind, pure, Except.pure]
  rw [handleMessage_build (by simp) (Or.inr (Or.inr rfl)) (.cons ⟨name, hname, hasked⟩ .nil) hrequest
    hsize, hbindings]

/-- One exchange delivers a prefix of the stored pairs above the OID, and says so
when there are no more. -/
theorem bulkStep_eq {t : Table} (ht : t.WellFormed) (hserved : ∀ x ∈ t.oids, Served x)
    {requestId : ℤ} {community : Bytes} {n : Nat} {start cur : Oid}
    (hfits : FitsMemory t requestId community n start) (hcur : cur ∈ start :: t.oids)
    (hask : Askable cur) :
    ∃ got closed, bulkStep (fun request => handleMessage request t none) requestId community n cur =
        some (got ++ closed) ∧
      List.Forall₂ (Delivers t) ((t.above cur).take n) got ∧
      if (t.above cur).length < n then closed.map Binding.tag = [tEndOfMibView] else closed = [] := by
  rcases hask.readBack hserved with ⟨name, a, b, rest, hname, hasked, habove⟩
  have hrequest : ∃ request, build requestId community tGetBulk 0 n [cur] = .ok request := by
    simp only [build, List.mapM_cons, List.mapM_nil, encOid, hname, Except.map, bind, Except.bind,
      pure, Except.pure]
    exact ⟨_, rfl⟩
  rcases hrequest with ⟨request, hrequest⟩
  have hfit := hfits cur hcur request hrequest
  have hmem : ∀ oid ∈ (t.above cur).take n, oid ∈ t.oids := fun oid h =>
    Table.mem_oids_of_mem_above (List.mem_of_mem_take h)
  rcases exists_delivered ht hmem with ⟨got, hgot⟩
  -- the closing binding echoes the last OID, which a client can always decode
  have hclosed : ∃ closed, List.Forall₂ Decodes (closing (t.above cur) (a :: b :: rest) n) closed ∧
      if (t.above cur).length < n then closed.map Binding.tag = [tEndOfMibView] else closed = [] := by
    by_cases hshort : (t.above cur).length < n
    · have harcs : ∃ c d more,
          (t.above cur).getLast?.getD (a :: b :: rest) = c :: d :: more := by
        cases hlast : (t.above cur).getLast? with
        | none => exact ⟨a, b, rest, rfl⟩
        | some x =>
            have hx := Table.mem_oids_of_mem_above (List.mem_of_getLast? hlast)
            rcases hserved x hx with ⟨c, d, more, rfl, -⟩
            exact ⟨c, d, more, rfl⟩
      rcases harcs with ⟨c, d, more, harcs⟩
      rcases exists_readBack c d more with ⟨name', c', d', more', hname', hoid'⟩
      refine ⟨[⟨c' :: d' :: more', tEndOfMibView, []⟩], ?_, by simp [hshort]⟩
      rw [closing, if_pos hshort, harcs]
      exact .cons ⟨name', hname', hoid', rfl⟩ .nil
    · exact ⟨[], by rw [closing, if_neg hshort]; exact .nil, by rw [if_neg hshort]⟩
  rcases hclosed with ⟨closed, hclosed, hend⟩
  have hdecodes := List.rel_append (decodes_of_delivers hserved hmem hgot) hclosed
  have hhandle := handleMessage_bulk (t := t) requestId community n hname hasked hrequest
    hfit.1.sized
  rw [bulkColumn_eq ht, habove] at hhandle
  simp only [Except.bind] at hhandle
  rcases exists_encodeReply requestId community hdecodes with ⟨reply, hreply⟩
  rw [hreply] at hhandle
  have hresp := respVarbinds_encodeReply hdecodes hreply (hfit.2 reply hhandle).sized
  refine ⟨got, closed, ?_, hgot, hend⟩
  simp only [bulkStep, hrequest, hhandle, Except.map, hresp]
  rfl

/-! ## The whole walk -/

/-- A client's walk delivers exactly the stored pairs above its start, in order. -/
theorem bulkWalk_eq {t : Table} (ht : t.WellFormed) (hserved : ∀ x ∈ t.oids, Served x)
    {requestId : ℤ} {community : Bytes} {n : Nat} (hn : 1 ≤ n) {start : Oid}
    (hfits : FitsMemory t requestId community n start) {cur : Oid}
    (hcur : cur ∈ start :: t.oids) (hask : Askable cur) {fuel : Nat}
    (hfuel : (t.above cur).length < fuel) :
    ∃ bindings, bulkWalk (fun request => handleMessage request t none) requestId community n fuel
        cur = some bindings ∧ List.Forall₂ (Delivers t) (t.above cur) bindings := by
  induction fuel generalizing cur with
  | zero => exact absurd hfuel (Nat.not_lt_zero _)
  | succ fuel ih =>
      rcases bulkStep_eq ht hserved hfits hcur hask with ⟨got, closed, hstep, hgot, hend⟩
      have hopen : ∀ b ∈ got, (decide (b.tag ≠ tEndOfMibView)) = true := by
        intro b hb
        rcases List.mem_iff_getElem.mp hb with ⟨i, hi, rfl⟩
        have hdelivers := hgot.get (i := i) (by rw [hgot.length_eq]; exact hi) hi
        simp only [List.get_eq_getElem] at hdelivers
        simp [hdelivers.2.1, tOctetStr, tEndOfMibView]
      have htake : (got ++ closed).takeWhile (fun b => decide (b.tag ≠ tEndOfMibView)) =
          got ++ closed.takeWhile (fun b => decide (b.tag ≠ tEndOfMibView)) :=
        List.takeWhile_append_of_pos hopen
      by_cases hshort : (t.above cur).length < n
      · rw [if_pos hshort] at hend
        rw [List.take_of_length_le hshort.le] at hgot
        have hstop : closed.takeWhile (fun b => decide (b.tag ≠ tEndOfMibView)) = [] := by
          rcases List.map_eq_singleton_iff.mp hend with ⟨b, rfl, hb⟩
          simp [hb]
        have hlen : got.length < (got ++ closed).length := by
          have hone : closed.length = 1 := by simpa using congrArg List.length hend
          rw [List.length_append]
          omega
        refine ⟨got, ?_, hgot⟩
        simp only [bulkWalk, hstep, Option.bind_eq_bind, Option.bind_some, htake, hstop,
          List.append_nil, if_pos hlen]
      · -- a full batch: continue from its last OID
        rw [if_neg hshort] at hend
        subst hend
        rw [List.append_nil] at hstep
        have hne : (t.above cur).take n ≠ [] := by
          intro hnil
          have hlen := congrArg List.length hnil
          rw [List.length_take, List.length_nil] at hlen
          omega
        have hsplit : t.above cur = (t.above cur).take n ++ (t.above cur).drop n :=
          (List.take_append_drop _ _).symm
        have hnext := Table.above_getLast ht hne hsplit
        have hlast : ∃ b, got.getLast? = some b ∧ b.oid = ((t.above cur).take n).getLast hne := by
          rw [← Option.map_eq_some_iff, ← List.getLast?_map, map_oid_of_delivers hgot]
          exact List.getLast?_eq_some_getLast hne
        rcases hlast with ⟨b, hb, hoid⟩
        have hstored : ((t.above cur).take n).getLast hne ∈ t.oids :=
          Table.mem_oids_of_mem_above (List.mem_of_mem_take (List.getLast_mem hne))
        have hfuel' : (t.above b.oid).length < fuel := by
          rw [hoid, hnext, List.length_drop]
          omega
        have hstored' : b.oid ∈ t.oids := hoid ▸ hstored
        rcases ih (List.mem_cons_of_mem _ hstored') (hserved _ hstored').askable hfuel' with
          ⟨more, hmore, hdelivered⟩
        refine ⟨got ++ more, ?_, ?_⟩
        · rw [List.append_nil, List.takeWhile_nil, List.append_nil] at htake
          simp only [bulkWalk, hstep, Option.bind_eq_bind, Option.bind_some, htake, lt_irrefl,
            if_false, hb, hmore]
        · rw [hsplit]
          rw [hoid, hnext] at hdelivered
          exact List.rel_append hgot hdelivered

end Snmp
end DemoEstate
