import DemoEstate.Deploy.TopoOrder

/-!
# The order in which the carried hosts are created

The carried hosts are created in two groups, first those whose parent is not a carried host.
Within a group they stay in the order of the roster, so that a host and its parent are in order
as long as no parent in the second group comes after its child.

Main results:

- Theorem {lit}`respects_creationOrder_iff`: when the two groups have parents before children.
- Theorem {lit}`parentsVisited_iff`: the same for the calls of {lit}`ensure_host` in a run.
-/

namespace DemoEstate
namespace Deploy

open Interaction
open Interaction.Program
open Precedence
open Relation

/-! ## Two groups -/

/-- A carried host has a carried host as its parent. -/
def Carried.ParentIn (info : Delivery) (h : Carried) (parent : Text) : Prop :=
  h.parent = some parent ∧ parent ∈ info.fqdns

/-- The parent of the carried host of a name, where it is a carried host. -/
def CarriedParent (info : Delivery) (child parent : Text) : Prop :=
  ∃ h ∈ info.carried, h.fqdn = child ∧ h.ParentIn info parent

/-- A host whose parent is a carried host with a carried parent of its own comes after its
parent in the roster. -/
def ChainsInOrder (info : Delivery) : Prop :=
  Respects Carried.fqdn
    (fun h parent => h.parent = some parent ∧ ∃ above, CarriedParent info parent above) info.carried

section Groups

variable {info : Delivery}

/-- The host is in the second group. -/
def Carried.isChild (info : Delivery) (h : Carried) : Bool :=
  h.parent.any (· ∈ info.fqdns)

theorem isChild_iff {h : Carried} : h.isChild info = true ↔ ∃ parent, h.ParentIn info parent := by
  unfold Carried.isChild Carried.ParentIn
  cases h.parent <;> simp

theorem fqdn_inj {h h' : Carried} (hh : h ∈ info.carried) (hh' : h' ∈ info.carried)
    (heq : h.fqdn = h'.fqdn) : h = h' :=
  List.inj_on_of_nodup_map (nodup_fqdns info) hh hh' heq

theorem creationOrder_perm (info : Delivery) : (creationOrder info).Perm info.carried := by
  have hsplit := List.filter_append_perm (fun h : Carried => !(h.parent.any (· ∈ info.fqdns)))
    info.carried
  simpa only [creationOrder, Bool.not_not] using hsplit

theorem mem_creationOrder {h : Carried} : h ∈ creationOrder info ↔ h ∈ info.carried :=
  (creationOrder_perm info).mem_iff

/-- In the order of creation the parents come first exactly if the chains of carried hosts are
in order. -/
theorem respects_creationOrder_iff :
    Respects Carried.fqdn (Carried.ParentIn info) (creationOrder info) ↔ ChainsInOrder info := by
  change Respects _ _ (info.carried.filter (fun h => !h.isChild info) ++
    info.carried.filter (Carried.isChild info)) ↔ _
  have hfirst : Respects Carried.fqdn (Carried.ParentIn info)
      (info.carried.filter fun h => !h.isChild info) := by
    apply respects_of_free
    intro h hh parent hparent
    have hroot := (List.mem_filter.mp hh).2
    rw [isChild_iff.mpr ⟨parent, hparent⟩] at hroot
    cases hroot
  rw [respects_append, and_iff_right hfirst]
  constructor
  · rintro hsecond pre h post heq parent ⟨hparent, above, p, hp, rfl, hup⟩
    have hin : h.ParentIn info p.fqdn := ⟨hparent, List.mem_map_of_mem hp⟩
    have hsplit : info.carried.filter (Carried.isChild info) =
        pre.filter (Carried.isChild info) ++ h :: post.filter (Carried.isChild info) :=
      filter_eq_append_cons_iff.mpr ⟨pre, post, heq, isChild_iff.mpr ⟨_, hin⟩, rfl, rfl⟩
    rcases hsecond _ _ _ hsplit p.fqdn hin with hroot | hbefore
    · -- the parent is a child itself and not in the first group
      obtain ⟨p', hp', hsame⟩ := List.mem_map.mp hroot
      obtain ⟨hmem, hfree⟩ := List.mem_filter.mp hp'
      rw [fqdn_inj hmem hp hsame, isChild_iff.mpr ⟨above, hup⟩] at hfree
      cases hfree
    · obtain ⟨p', hp', hsame⟩ := List.mem_map.mp hbefore
      exact List.mem_map.mpr ⟨p', (List.mem_filter.mp hp').1, hsame⟩
  · intro hchains pre h post hsplit parent hin
    obtain ⟨pre', post', heq, -, rfl, -⟩ := filter_eq_append_cons_iff.mp hsplit
    obtain ⟨p, hp, rfl⟩ := List.mem_map.mp hin.2
    by_cases hchild : p.isChild info = true
    · right
      obtain ⟨above, hup⟩ := isChild_iff.mp hchild
      obtain ⟨p', hp', hsame⟩ :=
        List.mem_map.mp (hchains pre' h post' heq p.fqdn ⟨hin.1, above, p, hp, rfl, hup⟩)
      have hmem : p' ∈ info.carried := by
        rw [heq]
        exact List.mem_append_left _ hp'
      obtain rfl := fqdn_inj hmem hp hsame
      exact List.mem_map_of_mem (List.mem_filter.mpr ⟨hp', hchild⟩)
    · left
      exact List.mem_map_of_mem (List.mem_filter.mpr ⟨hp, by simpa using hchild⟩)

end Groups

/-! ## The calls of a run -/

/-- The hosts that `ensure_host` was called for, in the order of the calls. -/
def visits (log : List (Exchange Request Ans)) : List Text :=
  log.filterMap fun e =>
    match e.1 with
    | .getHost name => some name
    | _ => none

/-- The operation looks at no host. -/
def LooksElsewhere (op : Request) : Prop :=
  ∀ name, op ≠ .getHost name

section Visits

variable {α σ : Type} {env : Env σ Request Ans} {s t : σ} {log : List (Exchange Request Ans)}
  {out : Option α}

theorem visits_append (log log' : List (Exchange Request Ans)) :
    visits (log ++ log') = visits log ++ visits log' :=
  List.filterMap_append

theorem visits_of_asks {p : Setup α} (h : p.Asks LooksElsewhere) (htraces : p.Traces env s log out t) :
    visits log = [] := by
  rw [visits, List.filterMap_eq_nil_iff]
  rintro ⟨op, ans⟩ hmem
  have hop := h.log htraces hmem
  cases op with
  | getHost name => exact absurd rfl (hop name)
  | _ => rfl

theorem looksElsewhere_expect (what : Text) (status : Status) :
    (expect what status).Asks LooksElsewhere := by
  unfold expect
  split
  · trivial
  · exact ⟨fun _ => Request.noConfusion, fun never => nomatch never⟩

theorem looksElsewhere_ensureFolderChain (parent : Ident) (chain : List (Text × Text)) :
    (ensureFolderChain parent chain).Asks LooksElsewhere := by
  induction chain generalizing parent with
  | nil => trivial
  | cons head chain ih =>
      refine Asks.bind ?_ fun _ => ih _
      unfold ensureFolder
      split
      · trivial
      · refine asks_call (fun _ => Request.noConfusion) fun status => ?_
        split
        · trivial
        · exact asks_call (fun _ => Request.noConfusion) fun _ => looksElsewhere_expect _ _

theorem looksElsewhere_leafFor (root : Ident) (leaf : Dict Role Ident) (role : Role) :
    (leafFor root leaf role).Asks LooksElsewhere := by
  unfold leafFor
  split
  · trivial
  · exact (looksElsewhere_ensureFolderChain _ _).bind fun _ => trivial

/-- `ensure_host` looks at its host first, and at no other. -/
theorem visits_ensureHost {name : Text} {folder : Ident} {attributes : Attributes} {u : Unit}
    (h : (ensureHost name folder attributes).Traces env s log (some u) t) : visits log = [name] := by
  obtain ⟨existing, s₁, rest, rfl, -, hrest⟩ := traces_call_some h
  have hnone : visits rest = [] := by
    apply visits_of_asks _ hrest
    split
    · exact asks_call (fun _ => Request.noConfusion) fun _ => looksElsewhere_expect _ _
    · split
      · exact asks_call (fun _ => Request.noConfusion) fun _ => looksElsewhere_expect _ _
      · trivial
  change name :: visits rest = [name]
  rw [hnone]

/-- The hosts of a list of rows are visited in turn. -/
theorem visits_createRows {root : Ident} {leaf leaf' : Dict Role Ident} {rows : List Row}
    (h : (createRows root leaf rows).Traces env s log (some leaf') t) :
    visits log = rows.map Row.name := by
  induction rows generalizing leaf s log with
  | nil =>
      obtain ⟨rfl, -⟩ := h
      rfl
  | cons row rows ih =>
      obtain ⟨⟨folder, leaf₁⟩, s₁, log₁, log', rfl, hfolder, h⟩ := traces_bind_some h
      obtain ⟨_, s₂, log₂, log₃, rfl, hhost, hrest⟩ := traces_bind_some h
      rw [visits_append, visits_append, visits_of_asks (looksElsewhere_leafFor _ _ _) hfolder,
        visits_ensureHost hhost, ih hrest]
      rfl

/-- The names of the rows of the carried hosts. -/
theorem map_name_hostRows (args : Args) (info : Delivery) (snmpFqdns : List Text) :
    (hostRows args info snmpFqdns).map Row.name = (creationOrder info).map Carried.fqdn := by
  rw [hostRows, List.map_map]
  rfl

theorem respects_visits_iff {args : Args} {info : Delivery} {snmpFqdns : List Text}
    {leaf leaf' : Dict Role Ident}
    (h : (createRows args.root leaf (hostRows args info snmpFqdns)).Traces env s log (some leaf') t) :
    Respects id (CarriedParent info) (visits log) ↔
      Respects Carried.fqdn (Carried.ParentIn info) (creationOrder info) := by
  rw [visits_createRows h, map_name_hostRows, ← respects_map fun a ha a' ha' =>
    fqdn_inj (mem_creationOrder.mp ha) (mem_creationOrder.mp ha')]
  simp only [mem_creationOrder]
  rfl

/-- A run visits every carried host after its parent, where that is a carried host, exactly if
each host whose parent has a carried parent itself comes after its parent in the roster. -/
theorem parentsVisited_iff {args : Args} {info : Delivery} {snmpFqdns : List Text}
    {leaf leaf' : Dict Role Ident}
    (h : (createRows args.root leaf (hostRows args info snmpFqdns)).Traces env s log (some leaf') t) :
    Respects id (CarriedParent info) (visits log) ↔ ChainsInOrder info := by
  rw [respects_visits_iff h]
  exact respects_creationOrder_iff

end Visits

/-! ## Two rosters -/

/-- A host of the domain `demo`, with its parent. -/
def demoHost (name : Text) (parent : Option Text) : Carried where
  name := name
  fqdn := name ++ ".demo".toList
  parent := parent.map (· ++ ".demo".toList)
  role := none
  state := some "healthy".toList
  actions := []

/-- A hypervisor, its guest, and a guest of the guest. -/
def outerFirst : Delivery where
  host := "gateway.demo".toList
  domain := "demo".toList
  carried := [demoHost "iron".toList none, demoHost "outer".toList (some "iron".toList),
    demoHost "inner".toList (some "outer".toList)]
  names_nodup := by decide
  named := by decide +kernel

/-- The same hosts with the inner guest named before the outer one. -/
def innerFirst : Delivery where
  host := "gateway.demo".toList
  domain := "demo".toList
  carried := [demoHost "inner".toList (some "outer".toList),
    demoHost "outer".toList (some "iron".toList), demoHost "iron".toList none]
  names_nodup := by decide
  named := by decide +kernel

/-- The carried parents have no cycle if they shorten the names. -/
theorem acyclic_carried (info : Delivery) (depth : Text → Nat)
    (h : ∀ c ∈ info.carried, ∀ p ∈ info.fqdns, c.parent = some p → depth p < depth c.fqdn)
    (fqdn : Text) : ¬ TransGen (CarriedParent info) fqdn fqdn := by
  have hlt : ∀ child parent, TransGen (CarriedParent info) child parent →
      depth parent < depth child := by
    intro child parent hpath
    induction hpath with
    | single hedge =>
        obtain ⟨c, hc, rfl, hparent, hmem⟩ := hedge
        exact h c hc _ hmem hparent
    | tail _ hedge ih =>
        obtain ⟨c, hc, rfl, hparent, hmem⟩ := hedge
        exact (h c hc _ hmem hparent).trans ih
  exact fun hcycle => absurd (hlt fqdn fqdn hcycle) (lt_irrefl _)

theorem exists_traces_hostRows (info : Delivery)
    (h : ((createRows demoArgs.root Dict.empty (hostRows demoArgs info [])).run
      (serve bareShell false) demoFolder).isSome = true) :
    ∃ leaf t log, (createRows demoArgs.root Dict.empty (hostRows demoArgs info [])).Traces
      (Serves bareShell) demoFolder log (some leaf) t :=
  exists_traces bareShell false h

theorem parentsVisited_iff_outerFirst : ∃ leaf t log,
    (createRows demoArgs.root Dict.empty (hostRows demoArgs outerFirst [])).Traces
      (Serves bareShell) demoFolder log (some leaf) t ∧
      (Respects id (CarriedParent outerFirst) (visits log) ↔ ChainsInOrder outerFirst) := by
  obtain ⟨leaf, t, log, htraces⟩ := exists_traces_hostRows outerFirst (by decide +kernel)
  exact ⟨leaf, t, log, htraces, parentsVisited_iff htraces⟩

/-- The inner guest is created before the outer one that it names as its parent. -/
theorem not_parentsVisited_innerFirst :
    ¬ ∀ (args : Args) (info : Delivery) (snmpFqdns : List Text) (leaf leaf' : Dict Role Ident)
      (s t : Site) (log : List (Exchange Request Ans)),
      (∀ fqdn, ¬ TransGen (CarriedParent info) fqdn fqdn) →
      (createRows args.root leaf (hostRows args info snmpFqdns)).Traces (Serves bareShell) s log
        (some leaf') t →
      Respects id (CarriedParent info) (visits log) := by
  intro hclaim
  obtain ⟨leaf, t, log, htraces⟩ := exists_traces_hostRows innerFirst (by decide +kernel)
  have hacyclic := acyclic_carried innerFirst
    (fun name => ["iron.demo".toList, "outer.demo".toList, "inner.demo".toList].idxOf name)
    (by decide +kernel)
  have hchains := respects_creationOrder_iff.mp
    ((respects_visits_iff htraces).mp (hclaim _ _ _ _ _ _ _ _ hacyclic htraces))
  have houter : CarriedParent innerFirst "outer.demo".toList "iron.demo".toList :=
    ⟨demoHost "outer".toList (some "iron".toList), List.mem_cons_of_mem _ List.mem_cons_self,
      rfl, rfl, by decide +kernel⟩
  have hnone := hchains [] (demoHost "inner".toList (some "outer".toList))
    [demoHost "outer".toList (some "iron".toList), demoHost "iron".toList none] rfl
    "outer.demo".toList ⟨rfl, _, houter⟩
  cases hnone

end Deploy
end DemoEstate
