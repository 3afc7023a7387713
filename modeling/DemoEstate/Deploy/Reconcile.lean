import DemoEstate.Deploy.SetupRuns
import DemoEstate.Library.Transition

/-!
# Reconciling hosts that exist

A host that exists keeps what a run does not mention.  After a sequence of runs, complete or cut
short, a managed attribute of a host is the value that the last plan with one has brought: the
runs can be followed through their calls.  The attributes are those of the last run only if that
one gives every attribute that the host already has.

Main definitions:

- Structure {lit}`SetupRun`: a run with its exchange of calls.
- Definition {lit}`leftBy`: a managed attribute of a host, followed through a sequence of runs.

Main results:

- Theorem {lit}`attribute_foldl_ensurePlaced`: an attribute after the hosts of a plan are
  ensured.
- Theorem {lit}`accounts_setup`: the calls of a run account for the managed attributes.
- Theorem {lit}`attribute_of_runs`: a sequence of runs leaves the attributes that its calls say.
- Theorem {lit}`converged_iff`: when a run leaves the managed attributes it would give the
  hosts on an empty site.
- Theorem {lit}`not_converged_cloud`: an estate that moves to the cloud keeps the tags of the
  other mode.
-/

namespace DemoEstate
namespace Deploy

open Interaction
open Interaction.Program
open Transition

/-- An attribute of a host of the site. -/
def Site.attribute (s : Site) (name : Text) (attr : Attr) : Option Value :=
  (s.hosts.get name).bind fun h => h.attributes attr

/-- The value a plan gives an attribute: the last one given. -/
def plannedValue : List Placed → Text → Attr → Option Value
  | [], _, _ => none
  | p :: plan, name, attr =>
      (plannedValue plan name attr).or (if p.1 = name then p.2.2 attr else none)

theorem plannedValue_append (plan plan' : List Placed) (name : Text) (attr : Attr) :
    plannedValue (plan ++ plan') name attr =
      (plannedValue plan' name attr).or (plannedValue plan name attr) := by
  induction plan with
  | nil => rw [List.nil_append, plannedValue, Option.or_none]
  | cons p plan ih => rw [List.cons_append, plannedValue, ih, plannedValue, Option.or_assoc]

theorem plannedValue_of_notMem {plan : List Placed} {name : Text} (h : name ∉ plan.map Prod.fst)
    (attr : Attr) : plannedValue plan name attr = none := by
  induction plan with
  | nil => rfl
  | cons p plan ih =>
      rw [List.map_cons, List.mem_cons, not_or] at h
      rw [plannedValue, ih h.2, if_neg (Ne.symm h.1), Option.none_or]

/-- A managed attribute after the hosts of a plan are ensured is the one the plan gives, or
else the one there was. -/
theorem attribute_foldl_ensurePlaced {plan : List Placed} {hosts : Text → Option HostConfig}
    {name : Text} {attr : Attr} (hattr : attr ∈ managed) :
    ((plan.foldl ensurePlaced hosts name).bind fun h => h.attributes attr) =
      (plannedValue plan name attr).or ((hosts name).bind fun h => h.attributes attr) := by
  induction plan generalizing hosts with
  | nil => rfl
  | cons p plan ih =>
      rw [List.foldl_cons, ih, plannedValue, Option.or_assoc]
      congr 1
      by_cases hname : p.1 = name
      · subst hname
        rw [ensurePlaced, Function.update_self, if_pos rfl, Option.bind_some]
        cases hhost : hosts p.1 with
        | none =>
            rw [Option.bind_none, Option.or_none]
            rfl
        | some config =>
            rw [Option.bind_some]
            simp only [ensured, reconciled]
            cases hvalue : p.2.2 attr <;> simp [hattr]
      · rw [ensurePlaced, Function.update_of_ne (Ne.symm hname), if_neg hname, Option.none_or]

/-- An entry of a plan without repetition gives the values for its host. -/
theorem plannedValue_of_mem {plan : List Placed} (hnodup : (plan.map Prod.fst).Nodup) {p : Placed}
    (hp : p ∈ plan) (attr : Attr) : plannedValue plan p.1 attr = p.2.2 attr := by
  induction plan with
  | nil => exact absurd hp List.not_mem_nil
  | cons head plan ih =>
      rw [List.map_cons, List.nodup_cons] at hnodup
      rw [plannedValue]
      rcases List.mem_cons.mp hp with rfl | hp
      · rw [plannedValue_of_notMem hnodup.1, if_pos rfl, Option.none_or]
      · have hne : head.1 ≠ p.1 := fun heq => hnodup.1 (heq ▸ List.mem_map_of_mem hp)
        rw [ih hnodup.2 hp, if_neg hne, Option.or_none]

/-! ## Following an attribute through the calls -/

/-- A run of the setup: its configuration, its exchange of calls, and whether it returned. -/
structure SetupRun where
  args : Args
  panels : Panels
  log : List (Exchange Request Ans)
  out : Option Unit

/-- The run, complete or cut short, brings the site from one state to another. -/
def SetupStep (digest : Canon → Text) (s : Site) (run : SetupRun) (t : Site) : Prop :=
  (setup digest run.args).Traces (Serves run.panels) s run.log run.out t

/-- A managed attribute of a host after a call: a write that the site accepts brings the planned
value, if there is one, and a removal leaves none. -/
def afterCall (plan : List Placed) (name : Text) (attr : Attr) (old : Option Value) :
    Exchange Request Ans → Option Value
  | ⟨.postHost host _ _, status⟩ =>
      if host = name ∧ status = (200 : Nat) then (plannedValue plan name attr).or old else old
  | ⟨.putHost host _, status⟩ =>
      if host = name ∧ status = (200 : Nat) then (plannedValue plan name attr).or old else old
  | ⟨.deleteHost host, _⟩ => if host = name then none else old
  | _ => old

/-- A managed attribute of a host after the calls of a run. -/
def SetupRun.leaves (run : SetupRun) (name : Text) (attr : Attr) (old : Option Value) :
    Option Value :=
  run.log.foldl (afterCall (hostPlan run.args run.panels) name attr) old

/-- A managed attribute of a host, followed through the runs from an empty site on. -/
def leftBy (earlier : List SetupRun) (name : Text) (attr : Attr) : Option Value :=
  earlier.foldl (fun old run => run.leaves name attr old) none

section Accounts

variable {α β : Type} {plan : List Placed} {panels : Panels} {s t : Site} {name m : Text}
  {attr : Attr} {attributes : Attributes} {parts : List Part} {args : Args}
  {digest : Canon → Text}

/-- Wherever the program is stopped, its calls account for the managed attributes. -/
def Accounts (plan : List Placed) (panels : Panels) (p : Setup α) : Prop :=
  ∀ s log out t, p.Traces (Serves panels) s log out t → ∀ name, ∀ attr ∈ managed,
    t.attribute name attr = log.foldl (afterCall plan name attr) (s.attribute name attr)

/-- In a sequence, the second part matters on the values that the first part can return. -/
theorem Accounts.bind {p : Setup α} {f : α → Setup β} (hp : Accounts plan panels p)
    (hf : ∀ s a u, p.Runs (Serves panels) s a u → Accounts plan panels (f a)) :
    Accounts plan panels (p >>= f) := by
  intro s log out t h name attr hattr
  rcases traces_bind.mp h with ⟨-, hcut⟩ | ⟨a, u, log₁, log₂, rfl, hfirst, hsecond⟩
  · exact hp s log none t hcut name attr hattr
  · rw [List.foldl_append, ← hp s log₁ (some a) u hfirst name attr hattr]
    exact hf s a u (runs_of_traces hfirst) u log₂ out t hsecond name attr hattr

/-- Only a write to the hosts changes an attribute. -/
theorem attribute_of_serves {op : Request} {ans : Ans op} (h : Serves panels s op ans t)
    (hop : Part.hosts ∉ op.touches) : t.attribute name attr = s.attribute name attr := by
  by_cases hlabels : Part.labels ∈ op.touches
  · cases op with
    | putLabels host labels =>
        rcases h with ⟨config, -, hget, rfl⟩ | ⟨-, rfl, -⟩
        · by_cases hname : name = host
          · subst hname
            rw [Site.attribute, Site.attribute, get_setHost, Function.update_self, hget]
            rfl
          · rw [Site.attribute, Site.attribute, get_setHost, Function.update_of_ne hname]
        · rfl
    | _ => simp [Request.touches] at hlabels
  · rw [Site.attribute, Site.attribute, hosts_eq h hop hlabels]

theorem afterCall_of_notMem {op : Request} {ans : Ans op} {old : Option Value}
    (hop : Part.hosts ∉ op.touches) : afterCall plan name attr old ⟨op, ans⟩ = old := by
  cases op with
  | postHost host folder attributes => simp [Request.touches] at hop
  | putHost host update => simp [Request.touches] at hop
  | deleteHost host => simp [Request.touches] at hop
  | _ => rfl

/-- The calls of a program that does not write to the hosts account for the attributes under every
plan. -/
theorem accounts_of_asks {p : Setup α} (h : p.Asks (Within parts)) (hparts : Part.hosts ∉ parts) :
    Accounts plan panels p := by
  intro s log out t htraces name attr hattr
  induction p generalizing s log with
  | done a =>
      obtain ⟨rfl, rfl, -⟩ := htraces
      rfl
  | ask op next ih =>
      rcases htraces with ⟨rfl, rfl, -⟩ | ⟨ans, s', rest, rfl, hans, hrest⟩
      · rfl
      · have hop : Part.hosts ∉ op.touches := fun hmem => hparts (h.1 hmem)
        rw [List.foldl_cons, afterCall_of_notMem hop, ← attribute_of_serves hans hop]
        exact ih ans (h.2 ans) s' rest hrest

theorem accounts_silent {p : Setup α} (h : p.Asks (Within [.running])) :
    Accounts plan panels p :=
  accounts_of_asks h (by decide)

theorem accounts_done (a : α) : Accounts plan panels (done a : Setup α) :=
  accounts_silent trivial

/-- After a call that does not write to the hosts, the rest matters on the answers to it. -/
theorem accounts_call {op : Request} {f : Ans op → Setup β} (hop : Part.hosts ∉ op.touches)
    (hf : ∀ s ans u, Serves panels s op ans u → Accounts plan panels (f ans)) :
    Accounts plan panels (call op >>= f) := by
  intro s log out t h name attr hattr
  rcases traces_call.mp h with ⟨rfl, rfl, -⟩ | ⟨ans, s', rest, rfl, hans, hrest⟩
  · rfl
  · rw [List.foldl_cons, afterCall_of_notMem hop, ← attribute_of_serves hans hop]
    exact hf s ans s' hans s' rest out t hrest name attr hattr

theorem attribute_of_post {folder : Ident} {ans : Status}
    (h : Serves panels s (.postHost name folder attributes) ans t)
    (hplan : plannedValue plan name attr = attributes attr) :
    t.attribute m attr =
      afterCall plan m attr (s.attribute m attr) ⟨.postHost name folder attributes, ans⟩ := by
  rw [afterCall]
  rcases h with ⟨rfl, hget, -, rfl⟩ | ⟨hno, rfl, -⟩
  · simp only [Site.attribute, get_setHost, and_true]
    by_cases hm : name = m
    · subst hm
      rw [Function.update_self, if_pos rfl, hget, hplan]
      exact Option.or_none.symm
    · rw [Function.update_of_ne (Ne.symm hm), if_neg hm]
  · rw [if_neg fun hall => hno hall.2]

theorem attribute_of_put {config : HostConfig} {ans : Status}
    (h : Serves panels s (.putHost name (fixes attributes config.attributes)) ans t)
    (hget : s.hosts.get name = some config) (hattr : attr ∈ managed)
    (hplan : plannedValue plan name attr = attributes attr) :
    t.attribute m attr = afterCall plan m attr (s.attribute m attr)
      ⟨.putHost name (fixes attributes config.attributes), ans⟩ := by
  rw [afterCall]
  rcases h with ⟨config', rfl, hget', rfl⟩ | ⟨hno, rfl, -⟩
  · obtain rfl : config = config' := Option.some.inj (hget.symm.trans hget')
    simp only [Site.attribute, get_setHost, and_true, updated_fixes]
    by_cases hm : name = m
    · subst hm
      rw [Function.update_self, if_pos rfl, hget, hplan, Option.bind_some, Option.bind_some]
      simp only [reconciled]
      cases attributes attr <;> simp [hattr]
    · rw [Function.update_of_ne (Ne.symm hm), if_neg hm]
  · rw [if_neg fun hall => hno hall.2]

/-- A host whose attributes the plan gives is ensured by calls that account for them. -/
theorem accounts_ensureHost {folder : Ident}
    (hplan : ∀ attr, plannedValue plan name attr = attributes attr) :
    Accounts plan panels (ensureHost name folder attributes) := by
  intro s log out t h m attr hattr
  rcases traces_call.mp h with ⟨rfl, rfl, -⟩ | ⟨existing, s₁, rest, rfl, ⟨rfl, rfl⟩, h⟩
  · rfl
  · rw [List.foldl_cons, afterCall_of_notMem List.not_mem_nil]
    split at h
    · rcases traces_call.mp h with ⟨rfl, rfl, -⟩ | ⟨status, s₂, rest, rfl, hpost, h⟩
      · rfl
      · rw [List.foldl_cons, ← attribute_of_post hpost (hplan attr)]
        exact accounts_silent asks_expect _ _ _ _ h m attr hattr
    · rename_i config hget
      split at h
      · rcases traces_call.mp h with ⟨rfl, rfl, -⟩ | ⟨status, s₂, rest, rfl, hput, h⟩
        · rfl
        · rw [List.foldl_cons, ← attribute_of_put hput hget hattr (hplan attr)]
          exact accounts_silent asks_expect _ _ _ _ h m attr hattr
      · obtain ⟨rfl, rfl, -⟩ := h
        rfl

theorem accounts_createRows {root : Ident} {leaf : Dict Role Ident} {rows : List Row}
    (hplan : ∀ row ∈ rows, ∀ attr, plannedValue plan row.name attr = row.attributes attr) :
    Accounts plan panels (createRows root leaf rows) := by
  induction rows generalizing leaf with
  | nil => exact accounts_done _
  | cons row rows ih =>
      rw [List.forall_mem_cons] at hplan
      apply Accounts.bind (accounts_of_asks (asks_leafFor _ _ _) (by decide))
      intro _ r _ _
      apply Accounts.bind (accounts_ensureHost hplan.1)
      intro _ _ _ _
      exact ih hplan.2

theorem accounts_deleteHosts (names : List Text) : Accounts plan panels (deleteHosts names) := by
  induction names with
  | nil => exact accounts_done _
  | cons host names ih =>
      intro s log out t h m attr hattr
      rcases traces_call.mp h with ⟨rfl, rfl, -⟩ | ⟨status, s₁, rest, rfl, rfl, hrest⟩
      · rfl
      · rw [List.foldl_cons, ih _ _ _ _ hrest m attr hattr, afterCall]
        congr 1
        rw [Site.attribute, Site.dropHost, Dict.get_erase]
        split <;> rfl

theorem accounts_pruneSubtree (root : Ident) (keep : List Text) :
    Accounts plan panels (pruneSubtree root keep) := by
  unfold pruneSubtree
  split
  · exact accounts_done _
  · apply accounts_call List.not_mem_nil
    intro _ hosts _ _
    cases hosts with
    | none => exact accounts_done _
    | some hosts => exact accounts_deleteHosts _

/-! ## The calls of a run -/

/-- The rows of the devices and of the carried hosts have the values of the plan. -/
theorem plannedValue_of_row {row : Row} (hrow : row ∈ estateRows args panels) (attr : Attr) :
    plannedValue (hostPlan args panels) row.name attr = row.attributes attr := by
  have hmem : row.placed args.root ∈ hostPlan args panels := by
    rw [hostPlan, List.mem_append, List.mem_cons]
    rcases List.mem_append.mp hrow with hrow | hrow
    · exact Or.inl (List.mem_map_of_mem hrow)
    · exact Or.inr (Or.inr (List.mem_map_of_mem hrow))
  exact plannedValue_of_mem (nodup_hostPlan args panels) hmem attr

theorem accounts_snmpLayer : Accounts (hostPlan args panels) panels (snmpLayer args) := by
  unfold snmpLayer
  split
  · exact accounts_done _
  · rename_i hon
    apply Accounts.bind
    · apply accounts_call List.not_mem_nil
      rintro s answer _ ⟨rfl, rfl⟩
      split
      · split
        · exact accounts_silent asks_die
        · exact accounts_done _
      · rename_i info hinfo
        apply Accounts.bind (accounts_silent (asks_healDevices _))
        intro _ _ _ _
        apply Accounts.bind
        · apply accounts_createRows
          intro row hrow attr
          apply plannedValue_of_row
          apply List.mem_append_left
          rwa [deployedRows, deployedNetsim, if_neg hon, hinfo]
        · intro _ _ _ _
          apply Accounts.bind (accounts_of_asks (asks_ensureSnmpAccess _ _) (by decide))
          intro _ _ _ _
          exact accounts_done _
    · rintro _ ⟨fqdns, leaf⟩ _ _
      apply Accounts.bind (accounts_of_asks (asks_ensureRule _ _ _) (by decide))
      intro _ _ _ _
      exact accounts_done _

theorem accounts_createObjects :
    Accounts (hostPlan args panels) panels (createObjects args panels.delivery) := by
  apply Accounts.bind (accounts_of_asks (asks_ensureFolder _ _ _) (by decide))
  intro _ _ _ _
  apply Accounts.bind accounts_snmpLayer
  rintro _ ⟨fqdns, leaf⟩ _ hlayer
  obtain rfl : fqdns = deployedFqdns args panels := (runs_snmpLayer hlayer).1
  have hshell : shellPlaced args panels ∈ hostPlan args panels :=
    List.mem_append_right _ List.mem_cons_self
  apply Accounts.bind
    (accounts_ensureHost fun attr => plannedValue_of_mem (nodup_hostPlan args panels) hshell attr)
  intro _ _ _ _
  apply Accounts.bind (accounts_of_asks (asks_ensureAgentAccess _ _) (by decide))
  intro _ _ _ _
  apply Accounts.bind
    (accounts_createRows fun row hrow => plannedValue_of_row (List.mem_append_right _ hrow))
  intro _ _ _ _
  apply Accounts.bind (accounts_pruneSubtree _ _)
  intro _ _ _ _
  apply Accounts.bind (accounts_of_asks (asks_ensureAgentSource _) (by decide))
  intro _ _ _ _
  apply Accounts.bind (accounts_of_asks (asks_ensureBiPack _) (by decide))
  intro _ _ _ _
  apply Accounts.bind (accounts_of_asks (asks_ensureRule _ _ _) (by decide))
  intro _ _ _ _
  exact accounts_done _

theorem accounts_reconfigure (fp : Text) :
    Accounts (hostPlan args panels) panels (reconfigure args panels.delivery fp) := by
  have hwrite : (writeFingerprint panels.delivery.host fp).Asks (Within [.labels]) := by
    refine asks_call (within_nil rfl) fun host => ?_
    dsimp only
    split
    · trivial
    · exact asks_call (within_self rfl) fun _ => asks_expect
  apply Accounts.bind (accounts_silent (asks_healEstate _))
  intro _ _ _ _
  apply Accounts.bind accounts_createObjects
  intro _ _ _ _
  apply Accounts.bind (accounts_silent (asks_discoverEstate _ _ _))
  intro _ _ _ _
  apply Accounts.bind (accounts_silent (asks_activate _))
  intro _ _ _ _
  apply Accounts.bind (accounts_silent (asks_discover _))
  intro _ _ _ _
  apply Accounts.bind (accounts_of_asks hwrite (by decide))
  intro _ _ _ _
  exact accounts_silent (asks_activate _)

/-- The calls of a run, complete or cut short, account for the managed attributes. -/
theorem accounts_setup : Accounts (hostPlan args panels) panels (setup digest args) := by
  have hread : (readFingerprint panels.delivery.host).Asks (Within [.running]) :=
    asks_call (within_nil rfl) fun _ => trivial
  apply accounts_call List.not_mem_nil
  rintro s answer _ ⟨rfl, rfl⟩
  dsimp only
  split
  · exact accounts_silent asks_die
  · apply Accounts.bind (accounts_silent (asks_plannedSnmp _))
    intro _ plan _ _
    split
    · exact accounts_reconfigure _
    · apply Accounts.bind (accounts_silent hread)
      intro _ stored _ _
      split
      · exact accounts_done _
      · exact accounts_reconfigure _

/-- After runs in turn, a managed attribute is what their calls have left of the one before. -/
theorem attribute_of_runs {runs : List SetupRun} (h : Run (SetupStep digest) s runs t)
    (name : Text) (hattr : attr ∈ managed) :
    t.attribute name attr =
      runs.foldl (fun old run => run.leaves name attr old) (s.attribute name attr) := by
  induction h with
  | nil s => rfl
  | @cons s s' t run runs head _ ih =>
      rw [ih, List.foldl_cons, SetupRun.leaves,
        accounts_setup s run.log run.out s' head name attr hattr]

/-- On a site that started empty, a managed attribute is the one that the runs have left. -/
theorem attribute_eq_leftBy {earlier : List SetupRun}
    (h : Run (SetupStep digest) Site.empty earlier s) (name : Text) (hattr : attr ∈ managed) :
    s.attribute name attr = leftBy earlier name attr :=
  attribute_of_runs h name hattr

end Accounts

/-! ## Convergence -/

/-- The hosts of the estate have the same managed attributes on both sites. -/
def Converged (args : Args) (panels : Panels) (s t : Site) : Prop :=
  ∀ name ∈ estateNames args panels, ∀ attr ∈ managed, s.attribute name attr = t.attribute name attr

/-- The earlier runs have left no managed attribute on a host of the estate that the plan does not
give. -/
def NoLeftover (args : Args) (panels : Panels) (earlier : List SetupRun) : Prop :=
  ∀ name ∈ estateNames args panels, ∀ attr ∈ managed,
    plannedValue (hostPlan args panels) name attr = none → leftBy earlier name attr = none

/-- The earlier runs have left the hosts of the estate with the managed attributes of the plan. -/
def LeftAsPlanned (args : Args) (panels : Panels) (earlier : List SetupRun) : Prop :=
  ∀ name ∈ estateNames args panels, ∀ attr ∈ managed,
    leftBy earlier name attr = plannedValue (hostPlan args panels) name attr

section Converge

variable {args : Args} {panels : Panels} {s t alone : Site} {digest : Canon → Text}

/-- A run on a site without the shell reconfigures it. -/
theorem reconfigures_of_new (hnew : s.hosts.get panels.delivery.host = none) :
    Reconfigures args panels digest s := by
  right
  simp [hnew]

theorem reconfigures_empty : Reconfigures args panels digest Site.empty :=
  reconfigures_of_new rfl

/-- After a run that reconfigures, a managed attribute is the planned one or the old one. -/
theorem attribute_of_reconfigures {fp : Text}
    (h : (reconfigure args panels.delivery fp).Runs (Serves panels) s () t) {name : Text}
    (hname : name ∈ estateNames args panels) {attr : Attr} (hattr : attr ∈ managed) :
    t.attribute name attr =
      (plannedValue (hostPlan args panels) name attr).or (s.attribute name attr) := by
  rcases runs_reconfigure h with ⟨s', hcreate, -, -, -, hhosts⟩
  have hlabels : t.attribute name attr = s'.attribute name attr := by
    simp only [Site.attribute, hhosts]
    by_cases hshell : name = panels.delivery.host
    · subst hshell
      rw [Function.update_self]
      cases s'.hosts.get panels.delivery.host <;> rfl
    · rw [Function.update_of_ne hshell]
  rw [hlabels, Site.attribute, hcreate.hosts_of_mem hname, attribute_foldl_ensurePlaced hattr]
  rfl

theorem attribute_alone (h : (setup digest args).Runs (Serves panels) Site.empty () alone)
    {name : Text} (hname : name ∈ estateNames args panels) {attr : Attr}
    (hattr : attr ∈ managed) :
    alone.attribute name attr = plannedValue (hostPlan args panels) name attr := by
  rcases runs_setup h with ⟨hnot, -⟩ | ⟨-, hrun⟩
  · exact absurd reconfigures_empty hnot
  · rw [attribute_of_reconfigures hrun hname hattr]
    simp [Site.attribute, Site.empty]

/-- After any sequence of runs, a run that returns leaves the hosts of its estate with the
managed attributes of a run on an empty site exactly if it reconfigures and the runs before it
have left no managed attribute that its plan does not give, or it takes the fast path and they
have left the attributes of its plan. -/
theorem converged_iff {earlier : List SetupRun}
    (hearlier : Run (SetupStep digest) Site.empty earlier s)
    (hrun : (setup digest args).Runs (Serves panels) s () t)
    (halone : (setup digest args).Runs (Serves panels) Site.empty () alone) :
    Converged args panels t alone ↔
      (Reconfigures args panels digest s ∧ NoLeftover args panels earlier) ∨
        (¬ Reconfigures args panels digest s ∧ LeftAsPlanned args panels earlier) := by
  rcases runs_setup hrun with ⟨hnot, rfl⟩ | ⟨hyes, hreconfigure⟩
  · simp only [hnot, false_and, not_false_eq_true, true_and, false_or]
    refine forall_congr' fun name => forall_congr' fun hname => forall_congr' fun attr =>
      forall_congr' fun hattr => ?_
    rw [attribute_alone halone hname hattr, attribute_eq_leftBy hearlier name hattr]
  · simp only [hyes, true_and, not_true_eq_false, false_and, or_false]
    refine forall_congr' fun name => forall_congr' fun hname => forall_congr' fun attr =>
      forall_congr' fun hattr => ?_
    rw [attribute_of_reconfigures hreconfigure hname hattr, attribute_alone halone hname hattr,
      attribute_eq_leftBy hearlier name hattr]
    cases plannedValue (hostPlan args panels) name attr <;> simp

end Converge

/-! ## A change of the mode -/

/-- The demo estate on a cloud site. -/
def cloudArgs : Args where
  mode := .cloud
  snmp := .off
  folder := "demo".toList
  agentIp := "127.0.0.1".toList
  agentPort := 6559
  agentOutputDir := "/var/tmp/out".toList
  force := false
  forceForeign := false
  cloud_off := fun _ => rfl

/-- A digest that tells the two modes apart. -/
def modeDigest (canon : Canon) : Text :=
  if canon.mode = .cloud then ['c'] else ['s']

/-- A run that returns is one of a history. -/
theorem exists_setupStep {digest : Canon → Text} {args : Args} {panels : Panels} {s t : Site}
    (h : (setup digest args).Runs (Serves panels) s () t) :
    ∃ log, SetupStep digest s ⟨args, panels, log, some ()⟩ t :=
  exists_traces_of_runs h

/-- Two runs in turn from an empty site, with a value read of the site they leave. -/
theorem exists_runs_observed {β : Type} (panels : Panels) {p q : Setup Unit} (f : Site → β)
    {b : β} (h : (((p.run (serve panels true) Site.empty).bind fun r =>
      (q.run (serve panels true) r.2)).map fun r => f r.2) = some b) :
    ∃ s t, p.Runs (Serves panels) Site.empty () s ∧ q.Runs (Serves panels) s () t ∧ f t = b := by
  rcases Option.map_eq_some_iff.mp h with ⟨⟨_, t⟩, hboth, hvalue⟩
  rcases Option.bind_eq_some_iff.mp hboth with ⟨⟨_, s⟩, hfirst, hsecond⟩
  exact ⟨s, t, runs_of_serve hfirst, runs_of_serve hsecond, hvalue⟩

theorem converged_iff_again :
    ∃ log s t, SetupStep modeDigest Site.empty ⟨demoArgs, bareShell, log, some ()⟩ s ∧
      (setup modeDigest demoArgs).Runs (Serves bareShell) s () t ∧
      (Converged demoArgs bareShell t s ↔
        (Reconfigures demoArgs bareShell modeDigest s ∧
          NoLeftover demoArgs bareShell [⟨demoArgs, bareShell, log, some ()⟩]) ∨
        (¬ Reconfigures demoArgs bareShell modeDigest s ∧
          LeftAsPlanned demoArgs bareShell [⟨demoArgs, bareShell, log, some ()⟩])) := by
  rcases exists_runs_observed bareShell (p := setup modeDigest demoArgs)
    (q := setup modeDigest demoArgs) (fun _ => ()) (b := ()) (by decide +kernel) with
    ⟨s, t, hfirst, hsecond, -⟩
  rcases exists_setupStep hfirst with ⟨log, hlog⟩
  exact ⟨log, s, t, hlog, hsecond, converged_iff (.cons hlog (.nil s)) hsecond hfirst⟩

/-- A self-hosted estate that moves to the cloud: the shell keeps the tag against piggyback
data, which the cloud run does not mention. -/
theorem not_converged_cloud :
    ¬ ∀ (digest : Canon → Text) (earlier : List SetupRun) (args : Args)
      (panels : Panels) (s t alone : Site),
      Run (SetupStep digest) Site.empty earlier s →
      (setup digest args).Runs (Serves panels) s () t →
      (setup digest args).Runs (Serves panels) Site.empty () alone →
      Converged args panels t alone := by
  intro hclaim
  rcases exists_runs_observed bareShell (p := setup modeDigest demoArgs)
    (q := setup modeDigest cloudArgs)
    (fun s => s.attribute bareShell.delivery.host .tagPiggyback) (by decide +kernel :
      _ = some (some (Value.text "no-piggyback".toList))) with ⟨s, t, hfirst, hsecond, htag⟩
  rcases exists_runs true (by decide +kernel : ((setup modeDigest cloudArgs).run
    (serve bareShell true) Site.empty).isSome = true) with ⟨alone, halone⟩
  rcases exists_setupStep hfirst with ⟨log, hlog⟩
  have hsame := hclaim modeDigest [⟨demoArgs, bareShell, log, some ()⟩] cloudArgs bareShell s t
    alone (.cons hlog (.nil s)) hsecond halone bareShell.delivery.host List.mem_cons_self
    .tagPiggyback (by decide)
  rw [htag, attribute_alone halone List.mem_cons_self (by decide)] at hsame
  revert hsame
  decide +kernel

end Deploy
end DemoEstate
