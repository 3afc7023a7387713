import DemoEstate.Deploy.CreationOrder

/-!
# What a run of the setup leaves

A run that returns either found the fingerprint of its configuration and did nothing, or has
created and reconciled the objects of its plan.

Main definitions:

- Definition {lit}`hostPlan`: the hosts of an estate with their folders and attributes.
- Definition {lit}`plannedRules`: the rules of an estate.

Main results:

- Theorem {lit}`runs_setup`: a run takes the fast path or reconfigures.
- Theorem {lit}`runs_reconfigure`: a run that reconfigures creates the objects and stores the
  fingerprint.
- Theorems {lit}`CreateRun.hosts`, {lit}`CreateRun.folders`, {lit}`CreateRun.addsRules` and
  {lit}`CreateRun.bi`: the site after the objects are created.
-/

namespace DemoEstate
namespace Deploy

open Interaction
open Interaction.Program

/-! ## The plan of an estate -/

section Plan

variable (args : Args) (panels : Panels)

/-- The devices that are deployed, if any. -/
def deployedNetsim : Option Netsim :=
  if args.snmp = .off then none else panels.netsim

/-- The names of the deployed devices, in the order of their creation. -/
def deployedFqdns : List Text :=
  ((deployedNetsim args panels).map createdFqdns).getD []

/-- The deployed devices as `_planned_snmp` lists them. -/
def deployedPlan : List Planned :=
  ((deployedNetsim args panels).map snmpPlan).getD []

/-- The hosts of the deployed devices, in the order of their creation. -/
def deployedRows : List Row :=
  ((deployedNetsim args panels).map deviceRows).getD []

/-- The fingerprint of a configuration. -/
def fingerprintOf (digest : Canon → Text) : Text :=
  estateFingerprint digest args panels.delivery (deployedPlan args panels)

/-- A host to create: its name, its folder and its attributes. -/
abbrev Placed := Text × Ident × Attributes

/-- A row in the leaf folder of its role. -/
def Row.placed (root : Ident) (row : Row) : Placed :=
  (row.name, row.role.leaf root, row.attributes)

/-- The shell, in the root folder. -/
def shellPlaced : Placed :=
  (panels.delivery.host, args.root,
    shellAttributes args panels.delivery.host (deployedFqdns args panels))

/-- The hosts of an estate in the order of their creation. -/
def hostPlan : List Placed :=
  (deployedRows args panels).map (Row.placed args.root) ++ shellPlaced args panels ::
    (hostRows args panels.delivery (deployedFqdns args panels)).map (Row.placed args.root)

/-- The hosts that pruning keeps. -/
def estateNames : List Text :=
  panels.delivery.host :: panels.delivery.fqdns ++ deployedFqdns args panels

/-- The roles whose leaf folders the estate uses. -/
def estateRows : List Row :=
  deployedRows args panels ++ hostRows args panels.delivery (deployedFqdns args panels)

/-- The rule for the transport of the devices. -/
def accessRule (info : Netsim) : Rule :=
  if info.live then snmpPortRule args.root (snmpPort info) else usewalkRule (createdFqdns info)

/-- The rule for the transport of the deployed devices, if any. -/
def deviceRules : List Rule :=
  ((deployedNetsim args panels).map (accessRule args)).toList

/-- The rule for the units without residual-current sensors, in an SNMP layer. -/
def residualRules : List Rule :=
  if args.snmp = .off then [] else [residualCurrentRule args.root]

/-- The rule for the agent port of the shell, in a cloud estate. -/
def portRules : List Rule :=
  if args.mode = .cloud then [portRule panels.delivery.host args.agentPort] else []

/-- The rule for the agent output, in a self-hosted estate. -/
def sourceRules : List Rule :=
  if args.mode = .selfHosted then [datasourceRule args.root args.agentOutputDir] else []

/-- The rules of an estate. -/
def plannedRules : List Rule :=
  deviceRules args panels ++ residualRules args ++ portRules args panels ++ sourceRules args ++
    [biServiceRule panels.delivery.host]

/-- The business objects of an estate. -/
def plannedBi : List (BiId × BiBody) :=
  biPlan (fqdnByShort panels.delivery.carried (deployedFqdns args panels))

/-- A run on this site reconfigures it: it is forced to, or another fingerprint is stored. -/
def Reconfigures (digest : Canon → Text) (s : Site) : Prop :=
  args.force = true ∨
    ((s.hosts.get panels.delivery.host).bind fun h => h.labels.get fingerprintLabel) ≠
      some (fingerprintOf args panels digest)

end Plan

/-- Hosts after one of the plan is ensured. -/
def ensurePlaced (hosts : Text → Option HostConfig) (p : Placed) : Text → Option HostConfig :=
  Function.update hosts p.1 (some (ensured p.2.1 p.2.2 (hosts p.1)))

section Runs

variable {args : Args} {panels : Panels} {s t : Site} {u : Unit} {digest : Canon → Text}

theorem foldl_ensureRow (root : Ident) (rows : List Row) (hosts : Text → Option HostConfig) :
    rows.foldl (ensureRow root) hosts = (rows.map (Row.placed root)).foldl ensurePlaced hosts := by
  rw [List.foldl_map]
  rfl

/-! ## The parts of a run -/

/-- Ensure the rule for the transport of the deployed devices, if any. -/
def deployedAccess (args : Args) (panels : Panels) : Setup Unit :=
  match deployedNetsim args panels with
  | none => pure ()
  | some info => ensureSnmpAccess args.root info

/-- Ensure the rule for the units without residual-current sensors, in an SNMP layer. -/
def deployedResidual (args : Args) : Setup Unit :=
  if args.snmp = .off then pure () else ensureResidualCurrentRule args.root

theorem asks_deployedAccess (args : Args) (panels : Panels) :
    (deployedAccess args panels).Asks (Within [.rules]) := by
  unfold deployedAccess
  split
  · trivial
  · exact asks_ensureSnmpAccess _ _

theorem asks_deployedResidual (args : Args) :
    (deployedResidual args).Asks (Within [.rules]) := by
  unfold deployedResidual
  split
  · trivial
  · exact asks_ensureRule _ _ _

/-- The SNMP layer creates the deployed devices and the rules they need. -/
theorem runs_snmpLayer {result : List Text × Dict Role Ident}
    (h : (snmpLayer args).Runs (Serves panels) s result t) :
    result.1 = deployedFqdns args panels ∧
      ∃ s₁ s₂, (createRows args.root Dict.empty (deployedRows args panels)).Runs
          (Serves panels) s result.2 s₁ ∧
        (deployedAccess args panels).Runs (Serves panels) s₁ () s₂ ∧
        (deployedResidual args).Runs (Serves panels) s₂ () t := by
  unfold snmpLayer at h
  unfold deployedFqdns deployedRows deployedAccess deployedResidual deployedNetsim
  split at h
  · rename_i hoff
    rcases h with ⟨rfl, rfl⟩
    simp only [if_pos hoff]
    exact ⟨rfl, t, t, ⟨rfl, rfl⟩, ⟨rfl, rfl⟩, ⟨rfl, rfl⟩⟩
  · rename_i hon
    simp only [if_neg hon]
    rcases runs_bind.mp h with ⟨⟨fqdns, leaf⟩, s₂, hsetup, h⟩
    rcases runs_bind.mp h with ⟨_, s₃, hresidual, ⟨rfl, rfl⟩⟩
    rcases runs_call.mp hsetup with ⟨answer, s', ⟨hanswer, hs'⟩, hdevices⟩
    rw [hanswer] at hdevices
    subst hs'
    cases hnetsim : panels.netsim with
    | none =>
        rw [hnetsim] at hdevices
        dsimp only at hdevices
        split at hdevices
        · exact absurd hdevices not_runs_die
        · rcases hdevices with ⟨heq, rfl⟩
          cases heq
          exact ⟨rfl, s₂, s₂, ⟨rfl, rfl⟩, ⟨rfl, rfl⟩, hresidual⟩
    | some info =>
        rw [hnetsim] at hdevices
        rcases runs_bind.mp hdevices with ⟨_, s₄, hheal, hcreate⟩
        rcases runs_bind.mp hcreate with ⟨leaf', s₅, hrows, hend⟩
        rcases runs_bind.mp hend with ⟨_, s₆, haccess, heq, rfl⟩
        cases heq
        cases site_of_asks (asks_healDevices _) hheal
        exact ⟨rfl, s₅, s₂, hrows, haccess, hresidual⟩

theorem runs_plannedSnmp {plan : List Planned}
    (h : (plannedSnmp args).Runs (Serves panels) s plan t) :
    plan = deployedPlan args panels ∧ t = s := by
  unfold plannedSnmp at h
  unfold deployedPlan deployedNetsim
  split at h
  · rename_i hoff
    rcases h with ⟨rfl, rfl⟩
    simp [hoff]
  · rename_i hon
    rcases runs_call.mp h with ⟨answer, s', ⟨hanswer, hs'⟩, hplan⟩
    rw [hanswer] at hplan
    subst hs'
    simp only [if_neg hon]
    cases hnetsim : panels.netsim with
    | none =>
        rw [hnetsim] at hplan
        dsimp only at hplan
        split at hplan
        · exact absurd hplan not_runs_die
        · exact hplan
    | some info =>
        rw [hnetsim] at hplan
        exact hplan

/-- A run that returns found its fingerprint and left the site alone, or reconfigured it. -/
theorem runs_setup (h : (setup digest args).Runs (Serves panels) s u t) :
    (¬ Reconfigures args panels digest s ∧ t = s) ∨
      (Reconfigures args panels digest s ∧
        (reconfigure args panels.delivery (fingerprintOf args panels digest)).Runs
          (Serves panels) s u t) := by
  rcases runs_call.mp h with ⟨answer, s', ⟨hanswer, hs'⟩, hrun⟩
  subst hanswer hs'
  dsimp only at hrun
  split at hrun
  · exact absurd hrun not_runs_die
  · rcases runs_bind.mp hrun with ⟨plan, s₁, hplan, hrest⟩
    rcases runs_plannedSnmp hplan with ⟨rfl, rfl⟩
    split at hrest
    · rename_i hforce
      exact Or.inr ⟨Or.inl hforce, hrest⟩
    · rename_i hforce
      rcases runs_bind.mp hrest with ⟨stored, s₂, hread, hlast⟩
      rcases runs_call.mp hread with ⟨host, s₃, ⟨hhost, hs₃⟩, hstored, hs₂⟩
      subst hhost hs₃ hs₂ hstored
      split at hlast
      · rename_i hsame
        refine Or.inl ⟨?_, hlast.2⟩
        rintro (hyes | hdiffers)
        · exact hforce hyes
        · exact hdiffers hsame
      · rename_i hdiffers
        exact Or.inr ⟨Or.inr hdiffers, hlast⟩

/-- The steps by which a run creates the objects of an estate. -/
inductive CreateRun (args : Args) (panels : Panels) (s t : Site) : Prop
  | steps (s₁ s₂ s₃ s₄ s₅ s₆ s₇ s₈ s₉ s₁₀ : Site) (leaf leaf' : Dict Role Ident)
    (hroot : (ensureFolder args.root "Meridian Retail demo".toList []).Runs
      (Serves panels) s () s₁)
    (hdevices : (createRows args.root Dict.empty (deployedRows args panels)).Runs
      (Serves panels) s₁ leaf s₂)
    (hdeviceAccess : (deployedAccess args panels).Runs (Serves panels) s₂ () s₃)
    (hresidual : (deployedResidual args).Runs (Serves panels) s₃ () s₄)
    (hshell : (ensureHost panels.delivery.host args.root
      (shellAttributes args panels.delivery.host (deployedFqdns args panels))).Runs
        (Serves panels) s₄ () s₅)
    (haccess : (ensureAgentAccess args panels.delivery.host).Runs (Serves panels) s₅ () s₆)
    (hhosts : (createRows args.root leaf
      (hostRows args panels.delivery (deployedFqdns args panels))).Runs
        (Serves panels) s₆ leaf' s₇)
    (hprune : (pruneSubtree args.root (estateNames args panels)).Runs (Serves panels) s₇ () s₈)
    (hsource : (ensureAgentSource args).Runs (Serves panels) s₈ () s₉)
    (hpack : (ensureBiPack (fqdnByShort panels.delivery.carried
      (deployedFqdns args panels))).Runs (Serves panels) s₉ () s₁₀)
    (hservice : (ensureBiServiceRule panels.delivery.host).Runs (Serves panels) s₁₀ () t)

theorem runs_createObjects {fqdns : List Text}
    (h : (createObjects args panels.delivery).Runs (Serves panels) s fqdns t) :
    CreateRun args panels s t ∧ fqdns = deployedFqdns args panels := by
  rcases runs_bind.mp h with ⟨_, s₁, hroot, h₁⟩
  rcases runs_bind.mp h₁ with ⟨⟨fqdns', leaf⟩, s₄, hlayer, h₄⟩
  rcases runs_snmpLayer hlayer with ⟨hfqdns, s₂, s₃, hdevices, hdeviceAccess, hresidual⟩
  obtain rfl : fqdns' = deployedFqdns args panels := hfqdns
  rcases runs_bind.mp h₄ with ⟨_, s₅, hshell, h₅⟩
  rcases runs_bind.mp h₅ with ⟨_, s₆, haccess, h₆⟩
  rcases runs_bind.mp h₆ with ⟨leaf', s₇, hhosts, h₇⟩
  rcases runs_bind.mp h₇ with ⟨_, s₈, hprune, h₈⟩
  rcases runs_bind.mp h₈ with ⟨_, s₉, hsource, h₉⟩
  rcases runs_bind.mp h₉ with ⟨_, s₁₀, hpack, h₁₀⟩
  rcases runs_bind.mp h₁₀ with ⟨_, s₁₁, hservice, rfl, rfl⟩
  exact ⟨.steps s₁ s₂ s₃ s₄ s₅ s₆ s₇ s₈ s₉ s₁₀ leaf leaf' hroot hdevices hdeviceAccess hresidual
    hshell haccess hhosts hprune hsource hpack hservice, rfl⟩

/-! ## The site after the objects are created -/

theorem map_fst_deployedRows (args : Args) (panels : Panels) :
    ((deployedRows args panels).map (Row.placed args.root)).map Prod.fst =
      deployedFqdns args panels := by
  unfold deployedRows deployedFqdns
  cases deployedNetsim args panels with
  | none => rfl
  | some info =>
      simp only [Option.map_some, Option.getD_some, deviceRows, createdFqdns, List.map_map]
      rfl

theorem map_fst_hostRows (args : Args) (info : Delivery) (snmpFqdns : List Text) :
    ((hostRows args info snmpFqdns).map (Row.placed args.root)).map Prod.fst =
      (creationOrder info).map Carried.fqdn := by
  rw [hostRows, List.map_map, List.map_map]
  rfl

theorem map_fst_hostPlan (args : Args) (panels : Panels) :
    (hostPlan args panels).map Prod.fst =
      deployedFqdns args panels ++ panels.delivery.host ::
        (creationOrder panels.delivery).map Carried.fqdn := by
  rw [hostPlan, List.map_append, List.map_cons, map_fst_deployedRows, map_fst_hostRows]
  rfl

/-- The planned hosts are the hosts of the estate. -/
theorem mem_hostPlan {m : Text} :
    m ∈ (hostPlan args panels).map Prod.fst ↔ m ∈ estateNames args panels := by
  rw [map_fst_hostPlan]
  simp only [estateNames, Delivery.fqdns, List.mem_append, List.mem_cons, List.mem_map,
    mem_creationOrder]
  exact or_comm

theorem mem_createdFqdns {info : Netsim} {f : Text} :
    f ∈ createdFqdns info ↔ ∃ e ∈ info.devices.entries, e.2.fqdn = f := by
  rw [createdFqdns, List.mem_map]
  simp only [(topoOrder_perm info.devices).mem_iff]

theorem deployedNetsim_eq {info : Netsim} (h : deployedNetsim args panels = some info) :
    args.snmp ≠ .off ∧ panels.netsim = some info := by
  unfold deployedNetsim at h
  split at h
  · exact absurd h (by simp)
  · rename_i hon
    exact ⟨hon, h⟩

/-- A deployed host is one of the devices of the network simulator. -/
theorem exists_of_mem_deployedFqdns {f : Text} (hf : f ∈ deployedFqdns args panels) :
    ∃ info, panels.netsim = some info ∧ f ∈ createdFqdns info := by
  unfold deployedFqdns at hf
  cases hinfo : deployedNetsim args panels with
  | none =>
      rw [hinfo] at hf
      exact absurd hf List.not_mem_nil
  | some info =>
      rw [hinfo] at hf
      exact ⟨info, (deployedNetsim_eq hinfo).2, hf⟩

theorem host_notMem_deployedFqdns :
    panels.delivery.host ∉ deployedFqdns args panels := by
  unfold deployedFqdns deployedNetsim
  split
  · exact List.not_mem_nil
  · cases hnetsim : panels.netsim with
    | none => exact List.not_mem_nil
    | some info =>
        intro hmem
        rcases mem_createdFqdns.mp hmem with ⟨e, he, hfqdn⟩
        apply panels.shell_ne_device info hnetsim
        exact List.mem_map.mpr ⟨e, he, hfqdn⟩

theorem nodup_deployedFqdns (args : Args) (panels : Panels) :
    (deployedFqdns args panels).Nodup := by
  rw [← map_fst_deployedRows]
  unfold deployedRows
  cases deployedNetsim args panels with
  | none => exact List.nodup_nil
  | some info =>
      rw [Option.map_some, Option.getD_some, List.map_map]
      exact nodup_deviceRows info

/-- No host is planned twice. -/
theorem nodup_hostPlan (args : Args) (panels : Panels) :
    ((hostPlan args panels).map Prod.fst).Nodup := by
  have hcarried : ((creationOrder panels.delivery).map Carried.fqdn).Perm panels.delivery.fqdns :=
    (creationOrder_perm _).map _
  rw [map_fst_hostPlan, List.nodup_append, List.nodup_cons]
  refine ⟨nodup_deployedFqdns args panels, ⟨?_, hcarried.nodup_iff.mpr (nodup_fqdns _)⟩, ?_⟩
  · rw [hcarried.mem_iff]
    exact panels.shell_notMem
  · rintro f hf g hg rfl
    rcases List.mem_cons.mp hg with rfl | hg
    · exact host_notMem_deployedFqdns hf
    · rw [hcarried.mem_iff] at hg
      obtain ⟨info, hinfo, hf⟩ := exists_of_mem_deployedFqdns hf
      obtain ⟨e, he, rfl⟩ := mem_createdFqdns.mp hf
      exact panels.disjoint info hinfo _ hg (List.mem_map.mpr ⟨e, he, rfl⟩)

/-- A host that is not planned stays as it was. -/
theorem foldl_ensurePlaced_of_notMem {plan : List Placed} {hosts : Text → Option HostConfig}
    {m : Text} (hm : m ∉ plan.map Prod.fst) : plan.foldl ensurePlaced hosts m = hosts m := by
  induction plan generalizing hosts with
  | nil => rfl
  | cons p plan ih =>
      rw [List.map_cons, List.mem_cons, not_or] at hm
      rw [List.foldl_cons, ih hm.2, ensurePlaced, Function.update_of_ne hm.1]

/-- Between the devices and the carried hosts no folder is made. -/
theorem folders_of_shellSteps {s₂ s₃ s₄ s₅ s₆ : Site} {fqdns : List Text}
    (hdeviceAccess : (deployedAccess args panels).Runs (Serves panels) s₂ () s₃)
    (hresidual : (deployedResidual args).Runs (Serves panels) s₃ () s₄)
    (hshell : (ensureHost panels.delivery.host args.root
      (shellAttributes args panels.delivery.host fqdns)).Runs (Serves panels) s₄ () s₅)
    (haccess : (ensureAgentAccess args panels.delivery.host).Runs (Serves panels) s₅ () s₆) :
    s₄.folders = s₂.folders ∧ s₆.folders = s₂.folders := by
  have hf₃ := folders_of_asks (asks_deployedAccess _ _) (by decide) hdeviceAccess
  have hf₄ := folders_of_asks (asks_deployedResidual _) (by decide) hresidual
  have hf₅ := folders_of_asks (asks_ensureHost _ _ _) (by decide) hshell
  have hf₆ := folders_of_asks (asks_ensureAgentAccess _ _) (by decide) haccess
  rw [hf₆, hf₅, hf₄, hf₃]
  exact ⟨rfl, rfl⟩

/-- Behind the carried hosts no folder is made. -/
theorem folders_of_lastSteps {s₇ s₈ s₉ s₁₀ : Site} {keep fqdns : List Text}
    (hprune : (pruneSubtree args.root keep).Runs (Serves panels) s₇ () s₈)
    (hsource : (ensureAgentSource args).Runs (Serves panels) s₈ () s₉)
    (hpack : (ensureBiPack (fqdnByShort panels.delivery.carried fqdns)).Runs
      (Serves panels) s₉ () s₁₀)
    (hservice : (ensureBiServiceRule panels.delivery.host).Runs (Serves panels) s₁₀ () t) :
    t.folders = s₇.folders := by
  have hf₈ := folders_of_asks (asks_pruneSubtree _ _) (by decide) hprune
  have hf₉ := folders_of_asks (asks_ensureAgentSource _) (by decide) hsource
  have hf₁₀ := folders_of_asks (asks_ensureBiPack _) (by decide) hpack
  have hf₁₁ := folders_of_asks (asks_ensureRule _ _ _) (by decide) hservice
  rw [hf₁₁, hf₁₀, hf₉, hf₈]

/-- The hosts of the plan are ensured one after the other, and then others are pruned. -/
theorem CreateRun.hosts (h : CreateRun args panels s t) (m : Text) :
    t.hosts.get m =
      if m ∉ estateNames args panels ∧
          ∃ config, s.hosts.get m = some config ∧ inSubtree config.folder args.root = true
      then none
      else (hostPlan args panels).foldl ensurePlaced s.hosts.get m := by
  rcases h with ⟨s₁, s₂, s₃, s₄, s₅, s₆, s₇, s₈, s₉, s₁₀, leaf, leaf', hroot, hdevices,
    hdeviceAccess, hresidual, hshell, haccess, hhosts, hprune, hsource, hpack, hservice⟩
  have h₁ := hosts_of_asks (asks_ensureFolder _ _ _) (by decide) (by decide) hroot
  rcases runs_createRows (leafOk_empty args.root s₁) hdevices with ⟨h₂, hleaf₂, -⟩
  have h₃ := hosts_of_asks (asks_deployedAccess _ _) (by decide) (by decide) hdeviceAccess
  have h₄ := hosts_of_asks (asks_deployedResidual _) (by decide) (by decide) hresidual
  have h₅ := (runs_ensureHost hshell).1
  have h₆ := hosts_of_asks (asks_ensureAgentAccess _ _) (by decide) (by decide) haccess
  have hf₆ := (folders_of_shellSteps hdeviceAccess hresidual hshell haccess).2
  have hleaf : LeafOk args.root leaf s₆ := hleaf₂.mono fun f hf => hf₆ ▸ hf
  have h₇ := (runs_createRows hleaf hhosts).1
  have h₉ := hosts_of_asks (asks_ensureAgentSource _) (by decide) (by decide) hsource
  have h₁₀ := hosts_of_asks (asks_ensureBiPack _) (by decide) (by decide) hpack
  have h₁₁ := hosts_of_asks (asks_ensureRule _ _ _) (by decide) (by decide) hservice
  have hall : s₇.hosts.get = (hostPlan args panels).foldl ensurePlaced s.hosts.get := by
    rw [h₇, h₆, h₅, h₄, h₃, h₂, h₁, foldl_ensureRow, foldl_ensureRow, hostPlan,
      List.foldl_append, List.foldl_cons]
    rfl
  rw [h₁₁, h₁₀, h₉, runs_pruneSubtree hprune]
  simp only [mem_underRoot, hall]
  by_cases hm : m ∈ estateNames args panels
  · simp [hm]
  · have hsame : (hostPlan args panels).foldl ensurePlaced s.hosts.get m = s.hosts.get m :=
      foldl_ensurePlaced_of_notMem fun hmem => hm (mem_hostPlan.mp hmem)
    simp only [hm, hsame]

/-- A host of the estate is ensured for every entry of the plan. -/
theorem CreateRun.hosts_of_mem (h : CreateRun args panels s t) {m : Text}
    (hm : m ∈ estateNames args panels) :
    t.hosts.get m = (hostPlan args panels).foldl ensurePlaced s.hosts.get m := by
  rw [h.hosts, if_neg fun hall => hall.1 hm]

/-- No folder but the root and the folders of the roles is made. -/
theorem CreateRun.folders (h : CreateRun args panels s t) :
    ∃ s₁, (ensureFolder args.root "Meridian Retail demo".toList []).Runs (Serves panels) s () s₁ ∧
      ∀ f, f ∈ t.folders ↔
        f ∈ s₁.folders ∨ ∃ row ∈ estateRows args panels, f ∈ row.role.folders args.root := by
  rcases h with ⟨s₁, s₂, s₃, s₄, s₅, s₆, s₇, s₈, s₉, s₁₀, leaf, leaf', hroot, hdevices,
    hdeviceAccess, hresidual, hshell, haccess, hhosts, hprune, hsource, hpack, hservice⟩
  rcases runs_createRows (leafOk_empty args.root s₁) hdevices with ⟨-, hleaf₂, hf₂⟩
  have hf₆ := (folders_of_shellSteps hdeviceAccess hresidual hshell haccess).2
  have hleaf : LeafOk args.root leaf s₆ := hleaf₂.mono fun f hf => hf₆ ▸ hf
  have hf₇ := (runs_createRows hleaf hhosts).2.2
  have hft := folders_of_lastSteps hprune hsource hpack hservice
  refine ⟨s₁, hroot, fun f => ?_⟩
  rw [hft, hf₇, hf₆, hf₂, or_assoc]
  simp only [estateRows, List.mem_append, or_and_right, exists_or]

/-- No rule is added but the given ones; where nothing is marked in their rulesets, they are
added and none is lost. -/
structure AddsRules (rules : List Rule) (s t : Site) : Prop where
  upper : ∀ r, t.HasRule r → s.HasRule r ∨ r ∈ rules
  lower : (∀ r ∈ rules, s.marked r.ruleset = []) →
    ∀ r, s.HasRule r ∨ r ∈ rules → t.HasRule r

theorem hasRule_congr (h : t.rules = s.rules) (r : Rule) : t.HasRule r ↔ s.HasRule r := by
  simp only [Site.HasRule, h]

theorem addsRules_of_eq (h : t.rules = s.rules) : AddsRules [] s t where
  upper r hr := Or.inl ((hasRule_congr h r).mp hr)
  lower _ r hr := (hasRule_congr h r).mpr (hr.resolve_right List.not_mem_nil)

theorem AddsRules.congr {rules : List Rule} {s' : Site} (h : AddsRules rules s s')
    (heq : t.rules = s'.rules) : AddsRules rules s t where
  upper r hr := h.upper r ((hasRule_congr heq r).mp hr)
  lower hmarked r hr := (hasRule_congr heq r).mpr (h.lower hmarked r hr)

theorem Replaced.addsRules {gone : List Nat} {kept : Prop} {rule : Rule}
    (h : Replaced gone kept rule s t)
    (hnone : s.marked rule.ruleset = [] → gone = [] ∧ ¬ kept) : AddsRules [rule] s t where
  upper r hr := by
    rw [List.mem_singleton]
    exact h.hasRule hr
  lower hmarked r hr := by
    rcases hnone (hmarked rule (List.mem_singleton_self _)) with ⟨hgone, hkept⟩
    rw [List.mem_singleton] at hr
    exact (h.hasRule_iff hgone hkept r).mpr hr

theorem AddsRules.trans {rules rules' : List Rule} {s' : Site} (h : AddsRules rules s s')
    (h' : AddsRules rules' s' t)
    {rulesets : List Ruleset} (hrules : ∀ r ∈ rules, r.ruleset ∈ rulesets)
    (hrules' : ∀ r ∈ rules', r.ruleset ∉ rulesets) : AddsRules (rules ++ rules') s t where
  upper r hr := by
    rw [List.mem_append, ← or_assoc]
    exact (h'.upper r hr).imp_left (h.upper r)
  lower hmarked r hr := by
    have hfirst := h.lower fun r hr => hmarked r (List.mem_append_left _ hr)
    have hsecond : ∀ r' ∈ rules', s'.marked r'.ruleset = [] := by
      intro r' hr'
      rw [marked_eq_nil_iff]
      intro r₀ hr₀ hruleset
      rcases h.upper r₀ hr₀ with hold | hnew
      · exact marked_eq_nil_iff.mp (hmarked r' (List.mem_append_right _ hr')) r₀ hold hruleset
      · exact absurd (hruleset ▸ hrules r₀ hnew) (hrules' r' hr')
    rw [List.mem_append, ← or_assoc] at hr
    exact h'.lower hsecond r (hr.imp_left (hfirst r))

theorem addsRules_ensureRule {own keep : Rule → Bool} {rule : Rule}
    (h : (ensureRule own keep rule).Runs (Serves panels) s u t) : AddsRules [rule] s t := by
  refine (runs_ensureRule h).addsRules fun hnone => ?_
  rw [hnone]
  exact ⟨rfl, by simp⟩

theorem addsRules_ensureSnmpAccess {info : Netsim}
    (h : (ensureSnmpAccess args.root info).Runs (Serves panels) s u t) :
    AddsRules [accessRule args info] s t := by
  unfold ensureSnmpAccess at h
  unfold accessRule
  split at h
  · rename_i hlive
    rw [if_pos hlive]
    refine (runs_ensureSnmpPortRule h).addsRules fun hnone => ?_
    change s.marked .snmpPorts = [] at hnone
    rw [hnone]
    exact ⟨rfl, by simp⟩
  · rename_i hlive
    rw [if_neg hlive]
    exact addsRules_ensureRule h

theorem addsRules_deployedAccess (h : (deployedAccess args panels).Runs (Serves panels) s u t) :
    AddsRules (deviceRules args panels) s t := by
  unfold deployedAccess at h
  unfold deviceRules
  cases hinfo : deployedNetsim args panels with
  | none =>
      rw [hinfo] at h
      exact addsRules_of_eq (by rw [h.2])
  | some info =>
      rw [hinfo] at h
      exact addsRules_ensureSnmpAccess h

theorem addsRules_deployedResidual (h : (deployedResidual args).Runs (Serves panels) s u t) :
    AddsRules (residualRules args) s t := by
  unfold deployedResidual at h
  unfold residualRules
  split at h
  · rename_i hoff
    rw [if_pos hoff]
    exact addsRules_of_eq (by rw [h.2])
  · rename_i hon
    rw [if_neg hon]
    exact addsRules_ensureRule h

theorem addsRules_ensureAgentAccess
    (h : (ensureAgentAccess args panels.delivery.host).Runs (Serves panels) s u t) :
    AddsRules (portRules args panels) s t := by
  unfold ensureAgentAccess at h
  unfold portRules
  split at h
  · rename_i hcloud
    rw [if_pos hcloud]
    exact addsRules_ensureRule h
  · rename_i hcloud
    rw [if_neg hcloud]
    exact addsRules_of_eq (by rw [h.2])

theorem addsRules_ensureAgentSource (h : (ensureAgentSource args).Runs (Serves panels) s u t) :
    AddsRules (sourceRules args) s t := by
  unfold ensureAgentSource at h
  unfold sourceRules
  split at h
  · rename_i hself
    rw [if_pos hself]
    exact addsRules_ensureRule h
  · rename_i hself
    rw [if_neg hself]
    exact addsRules_of_eq (by rw [h.2])

theorem ruleset_of_mem_deviceRules {r : Rule} (h : r ∈ deviceRules args panels) :
    r.ruleset ∈ [Ruleset.snmpPorts, .usewalkHosts] := by
  unfold deviceRules at h
  rcases Option.map_eq_some_iff.mp (Option.mem_toList.mp h) with ⟨info, -, rfl⟩
  unfold accessRule
  split
  · exact List.mem_cons_self
  · exact List.mem_cons_of_mem _ List.mem_cons_self

theorem ruleset_of_mem_residualRules {r : Rule} (h : r ∈ residualRules args) :
    r.ruleset = .residualCurrent := by
  unfold residualRules at h
  split at h
  · exact absurd h List.not_mem_nil
  · rw [List.mem_singleton.mp h]
    rfl

theorem ruleset_of_mem_portRules {r : Rule} (h : r ∈ portRules args panels) :
    r.ruleset = .agentPorts := by
  unfold portRules at h
  split at h
  · rw [List.mem_singleton.mp h]
    rfl
  · exact absurd h List.not_mem_nil

theorem ruleset_of_mem_sourceRules {r : Rule} (h : r ∈ sourceRules args) :
    r.ruleset = .datasourcePrograms := by
  unfold sourceRules at h
  split at h
  · rw [List.mem_singleton.mp h]
    rfl
  · exact absurd h List.not_mem_nil

/-- The steps of a run that touch rules; between them the rules stay. -/
theorem CreateRun.ruleSteps (h : CreateRun args panels s t) :
    ∃ s₂ s₃ s₄ s₅ s₆ s₈ s₉ s₁₀ : Site, s₂.rules = s.rules ∧
      (deployedAccess args panels).Runs (Serves panels) s₂ () s₃ ∧
      (deployedResidual args).Runs (Serves panels) s₃ () s₄ ∧ s₅.rules = s₄.rules ∧
      (ensureAgentAccess args panels.delivery.host).Runs (Serves panels) s₅ () s₆ ∧
      s₈.rules = s₆.rules ∧ (ensureAgentSource args).Runs (Serves panels) s₈ () s₉ ∧
      s₁₀.rules = s₉.rules ∧
      (ensureBiServiceRule panels.delivery.host).Runs (Serves panels) s₁₀ () t := by
  rcases h with ⟨s₁, s₂, s₃, s₄, s₅, s₆, s₇, s₈, s₉, s₁₀, leaf, leaf', hroot, hdevices,
    hdeviceAccess, hresidual, hshell, haccess, hhosts, hprune, hsource, hpack, hservice⟩
  have h₂ : s₂.rules = s.rules :=
    (rules_of_asks (asks_createRows _ _ _) (by decide) hdevices).trans
      (rules_of_asks (asks_ensureFolder _ _ _) (by decide) hroot)
  have h₅ := rules_of_asks (asks_ensureHost _ _ _) (by decide) hshell
  have h₈ : s₈.rules = s₆.rules :=
    (rules_of_asks (asks_pruneSubtree _ _) (by decide) hprune).trans
      (rules_of_asks (asks_createRows _ _ _) (by decide) hhosts)
  have h₁₀ := rules_of_asks (asks_ensureBiPack _) (by decide) hpack
  exact ⟨s₂, s₃, s₄, s₅, s₆, s₈, s₉, s₁₀, h₂, hdeviceAccess, hresidual, h₅, haccess, h₈, hsource,
    h₁₀, hservice⟩

/-- The planned rules are added, and no others. -/
theorem CreateRun.addsRules (h : CreateRun args panels s t) :
    AddsRules (plannedRules args panels) s t := by
  rcases h.ruleSteps with ⟨s₂, s₃, s₄, s₅, s₆, s₈, s₉, s₁₀, h₂, hdeviceAccess, hresidual, h₅,
    haccess, h₈, hsource, h₁₀, hservice⟩
  have m₃ : ∀ r ∈ deviceRules args panels, r.ruleset ∈ [Ruleset.snmpPorts, .usewalkHosts] :=
    fun r hr => ruleset_of_mem_deviceRules hr
  have m₄ : ∀ r ∈ deviceRules args panels ++ residualRules args,
      r.ruleset ∈ [Ruleset.snmpPorts, .usewalkHosts, .residualCurrent] := by
    rw [List.forall_mem_append]
    exact ⟨fun r hr => List.mem_append_left [_] (m₃ r hr),
      fun r hr => by simp [ruleset_of_mem_residualRules hr]⟩
  have m₆ : ∀ r ∈ deviceRules args panels ++ residualRules args ++ portRules args panels,
      r.ruleset ∈ [Ruleset.snmpPorts, .usewalkHosts, .residualCurrent, .agentPorts] := by
    rw [List.forall_mem_append]
    exact ⟨fun r hr => List.mem_append_left [_] (m₄ r hr),
      fun r hr => by simp [ruleset_of_mem_portRules hr]⟩
  have m₉ : ∀ r ∈ deviceRules args panels ++ residualRules args ++ portRules args panels ++
      sourceRules args, r.ruleset ∈ [Ruleset.snmpPorts, .usewalkHosts, .residualCurrent,
        .agentPorts, .datasourcePrograms] := by
    rw [List.forall_mem_append]
    exact ⟨fun r hr => List.mem_append_left [_] (m₆ r hr),
      fun r hr => by simp [ruleset_of_mem_sourceRules hr]⟩
  have a₃ := (addsRules_of_eq h₂).trans (addsRules_deployedAccess hdeviceAccess)
    (fun _ hr => absurd hr List.not_mem_nil) fun _ _ => List.not_mem_nil
  have a₄ := a₃.trans (addsRules_deployedResidual hresidual) m₃ fun r hr => by
    simp [ruleset_of_mem_residualRules hr]
  have a₆ := (a₄.congr h₅).trans (addsRules_ensureAgentAccess haccess) m₄ fun r hr => by
    simp [ruleset_of_mem_portRules hr]
  have a₉ := (a₆.congr h₈).trans (addsRules_ensureAgentSource hsource) m₆ fun r hr => by
    simp [ruleset_of_mem_sourceRules hr]
  exact (a₉.congr h₁₀).trans (addsRules_ensureRule hservice) m₉ fun r hr => by
    rw [List.mem_singleton.mp hr]
    simp [biServiceRule]

/-- The planned business objects are created where they are missing. -/
theorem CreateRun.bi (h : CreateRun args panels s t) (k : BiId) :
    t.bi.get k = (s.bi.get k).or (Dict.find (plannedBi args panels) k) := by
  rcases h with ⟨s₁, s₂, s₃, s₄, s₅, s₆, s₇, s₈, s₉, s₁₀, leaf, leaf', hroot, hdevices,
    hdeviceAccess, hresidual, hshell, haccess, hhosts, hprune, hsource, hpack, hservice⟩
  rw [bi_of_asks (asks_ensureRule _ _ _) (by decide) hservice, runs_ensureBiPack hpack,
    bi_of_asks (asks_ensureAgentSource _) (by decide) hsource,
    bi_of_asks (asks_pruneSubtree _ _) (by decide) hprune,
    bi_of_asks (asks_createRows _ _ _) (by decide) hhosts,
    bi_of_asks (asks_ensureAgentAccess _ _) (by decide) haccess,
    bi_of_asks (asks_ensureHost _ _ _) (by decide) hshell,
    bi_of_asks (asks_deployedResidual _) (by decide) hresidual,
    bi_of_asks (asks_deployedAccess _ _) (by decide) hdeviceAccess,
    bi_of_asks (asks_createRows _ _ _) (by decide) hdevices,
    bi_of_asks (asks_ensureFolder _ _ _) (by decide) hroot]
  rfl

theorem runs_writeFingerprint {delivery fp : Text}
    (h : (writeFingerprint delivery fp).Runs (Serves panels) s u t) :
    t.folders = s.folders ∧ t.rules = s.rules ∧ t.bi = s.bi ∧
      t.hosts.get = Function.update s.hosts.get delivery ((s.hosts.get delivery).map fun h =>
        { h with labels := h.labels.set fingerprintLabel fp }) := by
  rcases runs_call.mp h with ⟨host, s', ⟨hhost, hs'⟩, hwrite⟩
  subst hhost hs'
  dsimp only at hwrite
  split at hwrite
  · rename_i hsame
    rcases hwrite with ⟨-, rfl⟩
    refine ⟨rfl, rfl, rfl, ?_⟩
    cases hget : t.hosts.get delivery with
    | none => rw [Option.map_none, ← hget, Function.update_eq_self]
    | some config =>
        rw [hget] at hsame
        have hset : config.labels.set fingerprintLabel fp = config.labels := Dict.set_eq_self hsame
        rw [Option.map_some, hset, ← hget, Function.update_eq_self]
  · rcases runs_call.mp hwrite with ⟨status, s₁, hput, hend⟩
    rcases runs_expect.mp hend with ⟨rfl, rfl⟩
    rcases hput with ⟨config, -, hget, rfl⟩ | ⟨hno, -⟩
    · refine ⟨rfl, rfl, rfl, ?_⟩
      rw [get_setHost, hget]
      rfl
    · exact absurd rfl hno

/-- After its objects are created, a run that reconfigures only stores the fingerprint. -/
theorem runs_reconfigure {fp : Text}
    (h : (reconfigure args panels.delivery fp).Runs (Serves panels) s u t) :
    ∃ s', CreateRun args panels s s' ∧ t.folders = s'.folders ∧ t.rules = s'.rules ∧
      t.bi = s'.bi ∧
      t.hosts.get = Function.update s'.hosts.get panels.delivery.host
        ((s'.hosts.get panels.delivery.host).map fun h =>
          { h with labels := h.labels.set fingerprintLabel fp }) := by
  rcases runs_bind.mp h with ⟨_, s₁, hheal, h₁⟩
  rcases runs_bind.mp h₁ with ⟨fqdns, s₂, hcreate, h₂⟩
  rcases runs_bind.mp h₂ with ⟨_, s₃, hdiscover, h₃⟩
  rcases runs_bind.mp h₃ with ⟨_, s₄, hactivate, h₄⟩
  rcases runs_bind.mp h₄ with ⟨_, s₅, hsecond, h₅⟩
  rcases runs_bind.mp h₅ with ⟨_, s₆, hwrite, hlast⟩
  cases site_of_asks (asks_healEstate _) hheal
  cases site_of_asks (asks_discoverEstate _ _ _) hdiscover
  cases site_of_asks (asks_activate _) hactivate
  cases site_of_asks (asks_discover _) hsecond
  cases site_of_asks (asks_activate _) hlast
  exact ⟨s₂, (runs_createObjects hcreate).1, runs_writeFingerprint hwrite⟩

end Runs

end Deploy
end DemoEstate
