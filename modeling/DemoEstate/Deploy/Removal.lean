import DemoEstate.Deploy.Reconcile

/-!
# What a removal leaves, and in which order it deletes

The removal deletes the hosts that the panels name, the marked rules it takes for those of the
estate, the business objects of the tool and the root folder.  The shell is the last host it
deletes, although the setup makes a switch the parent of the shell.

Main definitions:

- Definition {lit}`removalNames`: the hosts that a removal deletes, in order.
- Definition {lit}`Removable`: the rules that a removal deletes.

Main results:

- Theorem {lit}`runs_teardown`: the site after a removal.
- Theorem {lit}`not_childrenFirst`: behind a switch, the parent of the shell is deleted before
  the shell.
-/

namespace DemoEstate
namespace Deploy

open Interaction
open Interaction.Program

/-- The hosts that a removal deletes, in order. -/
def removalNames (panels : Panels) : List Text :=
  panels.delivery.fqdns.reverse ++
    ((panels.netsim.map fun info => (createdFqdns info).reverse).getD []) ++
    [panels.delivery.host]

/-- A marked rule that a removal takes for one of the estate: by its hosts, or by its folder. -/
def Removable (root : Ident) (names : List Text) (r : Rule) : Prop :=
  r.description = description r.ruleset ∧
    match r.ruleset with
    | .usewalkHosts | .specialAgentsBi | .agentPorts => r.hosts ≠ [] ∧ ∀ h ∈ r.hosts, h ∈ names
    | .datasourcePrograms | .residualCurrent | .snmpCommunities | .snmpPorts => r.folder = root
    | .other _ => False

/-- In the tree of the root folder, which the site root does not have. -/
def Under (root folder : Ident) : Prop :=
  root ≠ [] ∧ root <+: folder

section Runs

variable {args : Args} {panels : Panels} {s t : Site} {u : Unit}

theorem asks_snmpTeardownNames : snmpTeardownNames.Asks (Within [.running]) := by
  apply asks_call (within_nil rfl)
  intro info
  cases info <;> trivial

theorem asks_teardownNames (args : Args) : (teardownNames args).Asks (Within [.running]) := by
  apply asks_call (within_nil rfl)
  intro info
  cases info with
  | none =>
      apply asks_call (within_nil rfl)
      intro hosts
      cases hosts <;> trivial
  | some info => exact asks_snmpTeardownNames.bind fun _ => trivial

theorem runs_teardownNames {names : List Text}
    (h : (teardownNames args).Runs (Serves panels) s names t) :
    names = removalNames panels := by
  rcases runs_call.mp h with ⟨answer, s', ⟨hanswer, hs'⟩, hnames⟩
  subst hanswer hs'
  rcases runs_bind.mp hnames with ⟨snmpNames, s₁, hsnmp, rfl, -⟩
  rcases runs_call.mp hsnmp with ⟨info, s₂, ⟨hinfo, hs₂⟩, hlast⟩
  subst hinfo hs₂
  unfold removalNames
  cases hnetsim : panels.netsim with
  | none =>
      rw [hnetsim] at hlast
      rw [hlast.1]
      rfl
  | some info =>
      rw [hnetsim] at hlast
      rw [hlast.1]
      rfl

theorem not_isPrefixOf_iff {root f : Ident} (hroot : root ≠ []) :
    (!root.isPrefixOf f) = true ↔ ¬ Under root f := by
  rw [Under, and_iff_right hroot, ← List.isPrefixOf_iff_prefix, Bool.not_eq_true',
    Bool.not_eq_true]

/-- Deleting the root folder removes what is in its tree. -/
theorem runs_deleteRoot {root : Ident} (h : (deleteRoot root).Runs (Serves panels) s u t) :
    (∀ f, f ∈ t.folders ↔ f ∈ s.folders ∧ ¬ Under root f) ∧
      (∀ m config, t.hosts.get m = some config ↔
        s.hosts.get m = some config ∧ ¬ Under root config.folder) ∧
      (∀ k r, t.rules.get k = some r ↔ s.rules.get k = some r ∧ ¬ Under root r.folder) ∧
      t.bi = s.bi := by
  unfold deleteRoot at h
  split at h
  · rename_i hroot
    rcases h with ⟨-, rfl⟩
    simp [Under, hroot]
  · rename_i hroot
    rcases h with ⟨status, s₁, rfl, -, rfl⟩
    simp only [Site.dropFolder, List.mem_filter, Dict.get_filter_eq_some_iff,
      not_isPrefixOf_iff hroot, implies_true, and_self]

/-- The removal of an estate, once its hosts are named. -/
def removal (args : Args) (names : List Text) : Setup Unit := do
  deleteBiObjects
  deleteMarkedRules .usewalkHosts names
  deleteMarkedRules .specialAgentsBi names
  deleteDatasourceRule args.root
  deleteResidualCurrentRule args.root
  deleteSnmpAccessRules args.root
  deleteHosts names
  deleteMarkedRules .agentPorts names
  deleteRoot args.root
  activate args.forceForeign

/-- The site after the hosts named, the rules and the root folder are removed. -/
theorem runs_removal {names : List Text}
    (h : (removal args names).Runs (Serves panels) s u t) :
    (∀ f, f ∈ t.folders ↔ f ∈ s.folders ∧ ¬ Under args.root f) ∧
      (∀ m config, t.hosts.get m = some config ↔
        s.hosts.get m = some config ∧ m ∉ names ∧ ¬ Under args.root config.folder) ∧
      (∀ k r, t.rules.get k = some r ↔
        s.rules.get k = some r ∧ ¬ Removable args.root names r ∧ ¬ Under args.root r.folder) ∧
      ∀ k, t.bi.get k = if k ∈ biObjects then none else s.bi.get k := by
  rcases runs_bind.mp h with ⟨_, s₂, hbi, h₂⟩
  rcases runs_bind.mp h₂ with ⟨_, s₃, husewalk, h₃⟩
  rcases runs_bind.mp h₃ with ⟨_, s₄, hservice, h₄⟩
  rcases runs_bind.mp h₄ with ⟨_, s₅, hsource, h₅⟩
  rcases runs_bind.mp h₅ with ⟨_, s₆, hresidual, h₆⟩
  rcases runs_bind.mp h₆ with ⟨_, s₈, haccess, h₈⟩
  rcases runs_bind.mp haccess with ⟨_, s₇, hcommunities, hports⟩
  rcases runs_bind.mp h₈ with ⟨_, s₉, hhosts, h₉⟩
  rcases runs_bind.mp h₉ with ⟨_, s₁₀, hagent, h₁₀⟩
  rcases runs_bind.mp h₁₀ with ⟨_, s₁₁, hroot, hactivate⟩
  cases site_of_asks (asks_activate _) hactivate
  rcases runs_deleteRoot hroot with ⟨hfolders, hhosts', hrules, hbi'⟩
  refine ⟨fun f => ?_, fun m config => ?_, fun k r => ?_, fun k => ?_⟩
  · rw [hfolders, folders_of_asks (asks_deleteOwn _ _) (by decide) hagent,
      folders_of_asks (asks_deleteHosts _) (by decide) hhosts,
      folders_of_asks (asks_deleteOwn _ _) (by decide) hports,
      folders_of_asks (asks_deleteOwn _ _) (by decide) hcommunities,
      folders_of_asks (asks_deleteOwn _ _) (by decide) hresidual,
      folders_of_asks (asks_deleteOwn _ _) (by decide) hsource,
      folders_of_asks (asks_deleteOwn _ _) (by decide) hservice,
      folders_of_asks (asks_deleteOwn _ _) (by decide) husewalk,
      folders_of_asks (asks_deleteBi _) (by decide) hbi]
  · rw [hhosts', hosts_of_asks (asks_deleteOwn _ _) (by decide) (by decide) hagent,
      runs_deleteHosts hhosts,
      hosts_of_asks (asks_deleteOwn _ _) (by decide) (by decide) hports,
      hosts_of_asks (asks_deleteOwn _ _) (by decide) (by decide) hcommunities,
      hosts_of_asks (asks_deleteOwn _ _) (by decide) (by decide) hresidual,
      hosts_of_asks (asks_deleteOwn _ _) (by decide) (by decide) hsource,
      hosts_of_asks (asks_deleteOwn _ _) (by decide) (by decide) hservice,
      hosts_of_asks (asks_deleteOwn _ _) (by decide) (by decide) husewalk,
      hosts_of_asks (asks_deleteBi _) (by decide) (by decide) hbi]
    by_cases hm : m ∈ names <;> simp [hm]
  · rw [hrules, runs_deleteOwn hagent,
      rules_of_asks (asks_deleteHosts _) (by decide) hhosts, runs_deleteOwn hports,
      runs_deleteOwn hcommunities, runs_deleteOwn hresidual, runs_deleteOwn hsource,
      runs_deleteOwn hservice, runs_deleteOwn husewalk,
      rules_of_asks (asks_deleteBi _) (by decide) hbi, Removable]
    cases hruleset : r.ruleset <;> simp [and_assoc]
  · rw [hbi', bi_of_asks (asks_deleteOwn _ _) (by decide) hagent,
      bi_of_asks (asks_deleteHosts _) (by decide) hhosts,
      bi_of_asks (asks_deleteOwn _ _) (by decide) hports,
      bi_of_asks (asks_deleteOwn _ _) (by decide) hcommunities,
      bi_of_asks (asks_deleteOwn _ _) (by decide) hresidual,
      bi_of_asks (asks_deleteOwn _ _) (by decide) hsource,
      bi_of_asks (asks_deleteOwn _ _) (by decide) hservice,
      bi_of_asks (asks_deleteOwn _ _) (by decide) husewalk, runs_deleteBi hbi]

/-- The site after a removal, while both panels answer. -/
theorem runs_teardown (h : (teardown args).Runs (Serves panels) s u t) :
    (∀ f, f ∈ t.folders ↔ f ∈ s.folders ∧ ¬ Under args.root f) ∧
      (∀ m config, t.hosts.get m = some config ↔
        s.hosts.get m = some config ∧ m ∉ removalNames panels ∧
          ¬ Under args.root config.folder) ∧
      (∀ k r, t.rules.get k = some r ↔
        s.rules.get k = some r ∧ ¬ Removable args.root (removalNames panels) r ∧
          ¬ Under args.root r.folder) ∧
      ∀ k, t.bi.get k = if k ∈ biObjects then none else s.bi.get k := by
  rcases runs_bind.mp h with ⟨names, s₁, hnames, h₁⟩
  cases site_of_asks (asks_teardownNames _) hnames
  rcases runs_teardownNames hnames with rfl
  exact runs_removal h₁

end Runs

/-! ## The order of the deletions -/

/-- The hosts that a log deletes, first to last. -/
def deletions (log : List (Exchange Request Ans)) : List Text :=
  log.filterMap fun e =>
    match e with
    | ⟨.deleteHost name, _⟩ => some name
    | _ => none

/-- No host is deleted before another one that names it as a parent. -/
def ChildrenFirst (s : Site) (names : List Text) : Prop :=
  names.Pairwise fun name later => ∀ config, s.hosts.get later = some config →
    name ∉ parentNames config.attributes

/-- By its name a device is an access switch or a core switch. -/
def isSwitch (short : Text) : Bool :=
  "sw-access".toList.isPrefixOf short || "sw-core".toList.isPrefixOf short

section Order

variable {α : Type} {args : Args} {panels : Panels} {s t : Site} {u : Unit}
  {log : List (Exchange Request Ans)} {info : Netsim} {digest : Canon → Text}

theorem deletions_append (log log' : List (Exchange Request Ans)) :
    deletions (log ++ log') = deletions log ++ deletions log' :=
  List.filterMap_append

theorem deletions_of_asks {parts : List Part} {p : Setup α} {out : Option α}
    (h : p.Asks (Within parts)) (hparts : Part.hosts ∉ parts)
    (htraces : p.Traces (Serves panels) s log out t) : deletions log = [] := by
  rw [deletions, List.filterMap_eq_nil_iff]
  rintro ⟨op, ans⟩ hmem
  have hop := h.log htraces hmem
  cases op with
  | deleteHost name => exact absurd (hop List.mem_cons_self) hparts
  | _ => rfl

theorem deletions_deleteHosts {names : List Text}
    (h : (deleteHosts names).Traces (Serves panels) s log (some u) t) : deletions log = names := by
  induction names generalizing s log with
  | nil =>
      rcases h with ⟨rfl, -⟩
      rfl
  | cons name names ih =>
      rcases traces_call_some h with ⟨status, s₁, rest, rfl, -, hrest⟩
      rw [← ih hrest]
      rfl

theorem deletions_deleteRoot {root : Ident}
    (h : (deleteRoot root).Traces (Serves panels) s log (some u) t) : deletions log = [] := by
  unfold deleteRoot at h
  split at h
  · rcases h with ⟨rfl, -⟩
    rfl
  · rcases traces_call_some h with ⟨status, s₁, rest, rfl, -, rfl, -⟩
    rfl

/-- A removal deletes the hosts that the panels name, each after the one before it. -/
theorem deletions_teardown (h : (teardown args).Traces (Serves panels) s log (some u) t) :
    deletions log = removalNames panels := by
  rcases traces_bind_some h with ⟨names, s₁, l₁, r₁, rfl, hnames, h₁⟩
  rcases traces_bind_some h₁ with ⟨_, s₂, l₂, r₂, rfl, hbi, h₂⟩
  rcases traces_bind_some h₂ with ⟨_, s₃, l₃, r₃, rfl, husewalk, h₃⟩
  rcases traces_bind_some h₃ with ⟨_, s₄, l₄, r₄, rfl, hservice, h₄⟩
  rcases traces_bind_some h₄ with ⟨_, s₅, l₅, r₅, rfl, hsource, h₅⟩
  rcases traces_bind_some h₅ with ⟨_, s₆, l₆, r₆, rfl, hresidual, h₆⟩
  rcases traces_bind_some h₆ with ⟨_, s₇, l₇, r₇, rfl, haccess, h₇⟩
  rcases traces_bind_some h₇ with ⟨_, s₈, l₈, r₈, rfl, hhosts, h₈⟩
  rcases traces_bind_some h₈ with ⟨_, s₉, l₉, r₉, rfl, hagent, h₉⟩
  rcases traces_bind_some h₉ with ⟨_, s₁₀, l₁₀, r₁₀, rfl, hroot, hactivate⟩
  have hasks : (deleteSnmpAccessRules args.root).Asks (Within [.rules]) :=
    (asks_deleteOwn _ _).bind fun _ => asks_deleteOwn _ _
  simp only [deletions_append, deletions_deleteHosts hhosts, deletions_deleteRoot hroot,
    deletions_of_asks (asks_teardownNames _) (by decide) hnames,
    deletions_of_asks (asks_deleteBi _) (by decide) hbi,
    deletions_of_asks (asks_deleteOwn _ _) (by decide) husewalk,
    deletions_of_asks (asks_deleteOwn _ _) (by decide) hservice,
    deletions_of_asks (asks_deleteOwn _ _) (by decide) hsource,
    deletions_of_asks (asks_deleteOwn _ _) (by decide) hresidual,
    deletions_of_asks hasks (by decide) haccess,
    deletions_of_asks (asks_deleteOwn _ _) (by decide) hagent,
    deletions_of_asks (asks_activate _) (by decide) hactivate, List.nil_append,
    List.append_nil, runs_teardownNames (runs_of_traces hnames)]

theorem label_fqdn {e : Text × Device} (he : e ∈ info.devices.entries) :
    label e.2.fqdn = e.1 := by
  rcases info.named e he with ⟨-, hdot, hfqdn⟩
  rw [hfqdn, label, Text.cut_append hdot]

theorem mem_of_shellParent {fqdns : List Text} {p : Text} (h : shellParent fqdns = some p) :
    p ∈ fqdns := by
  unfold shellParent at h
  split at h
  · rename_i access haccess
    cases h
    exact List.mem_of_find?_eq_some (Option.filter_eq_some_iff.mp haccess).1
  · exact List.mem_of_find?_eq_some h

/-- Where a switch is deployed, one of the deployed devices becomes the parent of the shell. -/
theorem exists_shellParent (hswitch : ∃ e ∈ info.devices.entries, isSwitch e.1 = true) :
    ∃ p ∈ createdFqdns info, given (shellParent (createdFqdns info)) = some p := by
  have hgiven : ∀ p ∈ createdFqdns info, given (some p) = some p := by
    intro p hp
    rcases mem_createdFqdns.mp hp with ⟨e, he, rfl⟩
    exact given_fqdn he
  have hsome : ∃ p, shellParent (createdFqdns info) = some p := by
    unfold shellParent
    cases haccess : (createdFqdns info).find? fun f => "sw-access".toList.isPrefixOf (label f) with
    | some access =>
        rw [hgiven access (List.mem_of_find?_eq_some haccess)]
        exact ⟨access, rfl⟩
    | none =>
        rcases hswitch with ⟨e, he, hprefix⟩
        have hmem : e.2.fqdn ∈ createdFqdns info := mem_createdFqdns.mpr ⟨e, he, rfl⟩
        have hno := List.find?_eq_none.mp haccess e.2.fqdn hmem
        rw [label_fqdn he] at hno
        apply Option.isSome_iff_exists.mp
        apply List.find?_isSome.mpr
        refine ⟨e.2.fqdn, hmem, ?_⟩
        rw [label_fqdn he]
        rw [isSwitch, Bool.or_eq_true] at hprefix
        exact hprefix.resolve_left hno
  rcases hsome with ⟨p, hp⟩
  have hmem := mem_of_shellParent hp
  exact ⟨p, hmem, by rw [hp, hgiven p hmem]⟩

/-- The shell has the attributes that the plan gives it, and no other entry names it. -/
theorem plannedValue_shell (attr : Attr) :
    plannedValue (hostPlan args panels) panels.delivery.host attr =
      shellAttributes args panels.delivery.host (deployedFqdns args panels) attr := by
  have hdevice : panels.delivery.host ∉
      ((deployedRows args panels).map (Row.placed args.root)).map Prod.fst := by
    rw [map_fst_deployedRows]
    exact host_notMem_deployedFqdns
  have hhost : panels.delivery.host ∉
      ((hostRows args panels.delivery (deployedFqdns args panels)).map
        (Row.placed args.root)).map Prod.fst := by
    rw [map_fst_hostRows, List.mem_map]
    rintro ⟨h, hh, hfqdn⟩
    apply panels.shell_notMem
    exact List.mem_map.mpr ⟨h, mem_creationOrder.mp hh, hfqdn⟩
  rw [hostPlan, plannedValue_append, plannedValue, plannedValue_of_notMem hdevice,
    plannedValue_of_notMem hhost, Option.none_or, Option.or_none]
  exact if_pos rfl

/-- After a run that reconfigures, the shell names a device that the removal deletes before
the shell. -/
theorem shell_after_parent (hdeployed : deployedNetsim args panels = some info)
    (hswitch : ∃ e ∈ info.devices.entries, isSwitch e.1 = true)
    (hreconfigures : Reconfigures args panels digest s)
    (hrun : (setup digest args).Runs (Serves panels) s u t) :
    ¬ ChildrenFirst t (removalNames panels) := by
  have hfqdns : deployedFqdns args panels = createdFqdns info := by
    rw [deployedFqdns, hdeployed]
    rfl
  rcases exists_shellParent hswitch with ⟨p, hp, hparent⟩
  have hne : p ≠ panels.delivery.host := by
    rintro rfl
    exact host_notMem_deployedFqdns (hfqdns ▸ hp)
  have hvalue : t.attribute panels.delivery.host .parents = some (.names [p]) := by
    rcases runs_setup hrun with ⟨hnot, -⟩ | ⟨-, hrun⟩
    · exact absurd hreconfigures hnot
    · rw [attribute_of_reconfigures hrun List.mem_cons_self (by decide), plannedValue_shell,
        shellAttributes, hfqdns, hparent, Option.filter_some_pos (by simpa using hne)]
      rfl
  rcases Option.bind_eq_some_iff.mp hvalue with ⟨config, hconfig, hnames⟩
  have hnetsim : panels.netsim = some info := by
    unfold deployedNetsim at hdeployed
    split at hdeployed
    · exact absurd hdeployed (by simp)
    · exact hdeployed
  intro hfirst
  rw [ChildrenFirst, removalNames, hnetsim, List.pairwise_append] at hfirst
  apply hfirst.2.2 p ?_ panels.delivery.host (List.mem_singleton_self _) config hconfig
  · rw [parentNames, hnames]
    exact List.mem_singleton_self p
  · exact List.mem_append_right _ (List.mem_reverse.mpr hp)

/-- Wherever an access switch or a core switch is deployed, the removal of the estate deletes
the parent of the shell before the shell. -/
theorem not_childrenFirst (hdeployed : deployedNetsim args panels = some info)
    (hswitch : ∃ e ∈ info.devices.entries, isSwitch e.1 = true)
    (hreconfigures : Reconfigures args panels digest s)
    (hsetup : (setup digest args).Runs (Serves panels) s () t) {after : Site}
    (hteardown : (teardown args).Traces (Serves panels) t log (some ()) after) :
    ¬ ChildrenFirst t (deletions log) := by
  rw [deletions_teardown hteardown]
  exact shell_after_parent hdeployed hswitch hreconfigures hsetup

theorem exists_removal_core : ∃ t log after,
    (setup modeDigest demoArgs).Runs (Serves corePanels) Site.empty () t ∧
      (teardown demoArgs).Traces (Serves corePanels) t log (some ()) after := by
  rcases exists_runs_observed corePanels (p := setup modeDigest demoArgs)
    (q := teardown demoArgs) (fun _ => ()) (b := ()) (by decide +kernel) with
    ⟨t, after, hsetup, hteardown, -⟩
  rcases exists_traces_of_runs hteardown with ⟨log, htraces⟩
  exact ⟨t, log, after, hsetup, htraces⟩

theorem not_childrenFirst_core : ∃ t log after,
    (setup modeDigest demoArgs).Runs (Serves corePanels) Site.empty () t ∧
      (teardown demoArgs).Traces (Serves corePanels) t log (some ()) after ∧
      ¬ ChildrenFirst t (deletions log) := by
  have hswitch : ∃ e ∈ coreAndAccess.devices.entries, isSwitch e.1 = true := by decide +kernel
  rcases exists_removal_core with ⟨t, log, after, hsetup, hteardown⟩
  refine ⟨t, log, after, hsetup, hteardown, ?_⟩
  exact not_childrenFirst rfl hswitch reconfigures_empty hsetup hteardown

/-- The children do not go first when the estate of the core and the access switch is
removed. -/
theorem not_childrenFirst_everywhere : ¬ ∀ (digest : Canon → Text) (args : Args) (panels : Panels)
    (info : Netsim) (s t after : Site) (log : List (Exchange Request Ans)),
      deployedNetsim args panels = some info →
      (∃ e ∈ info.devices.entries, isSwitch e.1 = true) →
      Reconfigures args panels digest s →
      (setup digest args).Runs (Serves panels) s () t →
      (teardown args).Traces (Serves panels) t log (some ()) after →
      ChildrenFirst t (deletions log) := by
  intro hclaim
  have hswitch : ∃ e ∈ coreAndAccess.devices.entries, isSwitch e.1 = true := by decide +kernel
  rcases exists_removal_core with ⟨t, log, after, hsetup, hteardown⟩
  have hfirst := hclaim modeDigest demoArgs corePanels coreAndAccess Site.empty t after log rfl
    hswitch reconfigures_empty hsetup hteardown
  rw [deletions_teardown hteardown] at hfirst
  exact shell_after_parent rfl hswitch reconfigures_empty hsetup hfirst

end Order

end Deploy
end DemoEstate
