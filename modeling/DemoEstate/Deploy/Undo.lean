import DemoEstate.Deploy.BiPack
import DemoEstate.Deploy.Removal

/-!
# A removal after a setup

A removal undoes what the setup with the same arguments has created, with two exceptions: the
role folders of an estate in the site root, and the rule for stored walks without a device.

Main definitions:

- Definition {lit}`NoEstate`: a site without objects of the estate.
- Definition {lit}`NothingLeft`: a site without objects that another one does not have.

Main results:

- Theorem {lit}`root_of_setup`: no run makes a root folder inside another folder.
- Theorem {lit}`nothingLeft_iff`: when a removal undoes a setup.
- Theorem {lit}`not_nothingLeft_siteRoot`: the folders that an estate in the site root leaves.
-/

namespace DemoEstate
namespace Deploy

open Interaction
open Interaction.Program

/-- The rulesets to which the tool adds rules. -/
def toolRulesets : List Ruleset :=
  [.snmpPorts, .usewalkHosts, .residualCurrent, .agentPorts, .datasourcePrograms,
    .specialAgentsBi]

/-- The site has no host of the estate, no marked rule and no business object of the tool. -/
structure NoEstate (args : Args) (panels : Panels) (s : Site) : Prop where
  hosts : ∀ m ∈ estateNames args panels, s.hosts.get m = none
  rules : ∀ ruleset ∈ toolRulesets, s.marked ruleset = []
  bi : NoObjects s

/-- All hosts, folders, rules and business objects of a site are those of another one. -/
structure NothingLeft (s t : Site) : Prop where
  hosts : ∀ m, s.hosts.get m = none → t.hosts.get m = none
  folders : ∀ f ∈ t.folders, f ∈ s.folders
  rules : ∀ r, t.HasRule r → s.HasRule r
  bi : ∀ k, s.bi.get k = none → t.bi.get k = none

/-- The devices of the estate, if any, answer themselves or are at least one. -/
def WalksHaveDevices (args : Args) (panels : Panels) : Prop :=
  ∀ info ∈ deployedNetsim args panels, info.live = true ∨ info.devices.entries ≠ []

/-- The role folders that an estate in the site root would create exist. -/
def HasRoleFolders (args : Args) (panels : Panels) (s : Site) : Prop :=
  ∀ row ∈ estateRows args panels, ∀ f ∈ row.role.folders [], f ∈ s.folders

section Undo

variable {args : Args} {panels : Panels} {s t after : Site} {u : Unit} {digest : Canon → Text}

/-- Where the shell is new, the root folder exists after the objects are created. -/
theorem CreateRun.hasRoot (h : CreateRun args panels s t)
    (hnew : s.hosts.get panels.delivery.host = none) : t.HasFolder args.root := by
  rcases h with ⟨s₁, s₂, s₃, s₄, s₅, s₆, s₇, s₈, s₉, s₁₀, leaf, leaf', hroot, hdevices,
    hdeviceAccess, hresidual, hshell, haccess, hhosts, hprune, hsource, hpack, hservice⟩
  rcases runs_createRows (leafOk_empty args.root s₁) hdevices with ⟨hhosts₂, hleaf₂, -⟩
  have hnew₄ : s₄.hosts.get panels.delivery.host = none := by
    rw [hosts_of_asks (asks_deployedResidual _) (by decide) (by decide) hresidual,
      hosts_of_asks (asks_deployedAccess _ _) (by decide) (by decide) hdeviceAccess, hhosts₂,
      hosts_of_asks (asks_ensureFolder _ _ _) (by decide) (by decide) hroot, foldl_ensureRow,
      foldl_ensurePlaced_of_notMem, hnew]
    rw [map_fst_deployedRows]
    exact host_notMem_deployedFqdns
  have hf := folders_of_shellSteps hdeviceAccess hresidual hshell haccess
  have hleaf : LeafOk args.root leaf s₆ := hleaf₂.mono fun f hmem => hf.2 ▸ hmem
  have hf₇ := (runs_createRows hleaf hhosts).2.2
  have hft := folders_of_lastSteps hprune hsource hpack hservice
  apply ((runs_ensureHost hshell).2 hnew₄).imp_right
  intro hmem
  rw [hft, hf₇, hf.2, ← hf.1]
  exact Or.inl hmem

/-- Where the shell is new, a run has found the root folder, or has made it in the site root. -/
theorem CreateRun.found_or_made (h : CreateRun args panels s t)
    (hnew : s.hosts.get panels.delivery.host = none) :
    ∃ s₁, (s.HasFolder args.root ∧ s₁ = s ∨
        ∃ name, args.root = [name] ∧ s₁ = s.addFolder args.root) ∧
      ∀ f, f ∈ t.folders ↔
        f ∈ s₁.folders ∨ ∃ row ∈ estateRows args panels, f ∈ row.role.folders args.root := by
  rcases h.folders with ⟨s₁, hroot, hfolders⟩
  refine ⟨s₁, ?_, hfolders⟩
  rcases runs_ensureFolder hroot with hfound | ⟨name, -, hmissing, -, hmade⟩
  · exact Or.inl hfound
  · have hmem : args.root ∈ s₁.folders := by
      rcases h.hasRoot hnew with hnil | hmem
      · exact absurd (Or.inl hnil) hmissing
      · rcases (hfolders _).mp hmem with hold | ⟨row, -, hrole⟩
        · exact hold
        · exact absurd rfl (prefix_of_mem_chainFolders hrole).2
    rw [hmade, Site.addFolder, List.mem_append, List.mem_singleton, List.nil_append] at hmem
    have hname := hmem.resolve_left fun hold => hmissing (Or.inr hold)
    right
    exact ⟨name, hname, by rw [hmade, hname]; rfl⟩

theorem ruleset_of_mem_plannedRules {r : Rule} (h : r ∈ plannedRules args panels) :
    r.ruleset ∈ toolRulesets := by
  simp only [plannedRules, List.mem_append, List.mem_singleton] at h
  unfold toolRulesets
  rcases h with (((h | h) | h) | h) | rfl
  · exact List.mem_append_left [_, _, _, _] (ruleset_of_mem_deviceRules h)
  · simp [ruleset_of_mem_residualRules h]
  · simp [ruleset_of_mem_portRules h]
  · simp [ruleset_of_mem_sourceRules h]
  · simp [biServiceRule]

theorem deployedFqdns_subset : deployedFqdns args panels ⊆ removalNames panels := by
  intro f hf
  rcases exists_of_mem_deployedFqdns hf with ⟨info, hinfo, hf⟩
  rw [removalNames, hinfo]
  exact List.mem_append_left _ (List.mem_append_right _ (List.mem_reverse.mpr hf))

theorem host_mem_removalNames : panels.delivery.host ∈ removalNames panels :=
  List.mem_append_right _ (List.mem_singleton_self _)

theorem estateNames_subset_removalNames : estateNames args panels ⊆ removalNames panels := by
  intro m hm
  simp only [estateNames, List.mem_append, List.mem_cons] at hm
  rcases hm with (rfl | hm) | hm
  · exact host_mem_removalNames
  · exact List.mem_append_left _ (List.mem_append_left _ (List.mem_reverse.mpr hm))
  · exact deployedFqdns_subset hm

theorem mem_sorted {f : Text} {fqdns : List Text} : f ∈ sorted fqdns ↔ f ∈ fqdns :=
  (List.perm_insertionSort _ _).mem_iff

theorem createdFqdns_eq_nil_iff {info : Netsim} :
    createdFqdns info = [] ↔ info.devices.entries = [] := by
  rw [createdFqdns, List.map_eq_nil_iff]
  constructor
  · intro hnil
    exact (hnil ▸ topoOrder_perm info.devices).nil_eq.symm
  · intro hnil
    exact (hnil ▸ topoOrder_perm info.devices).eq_nil

/-- A planned rule is one that the removal deletes, or the one for stored walks without a
device. -/
theorem removable_of_mem_plannedRules {r : Rule} (h : r ∈ plannedRules args panels)
    (hwalks : WalksHaveDevices args panels) : Removable args.root (removalNames panels) r := by
  simp only [plannedRules, List.mem_append, List.mem_singleton] at h
  rcases h with (((h | h) | h) | h) | rfl
  · unfold deviceRules at h
    rcases Option.map_eq_some_iff.mp (Option.mem_toList.mp h) with ⟨info, hinfo, rfl⟩
    unfold accessRule
    split
    · exact ⟨rfl, rfl⟩
    · rename_i hwalk
      refine ⟨rfl, ?_, fun f hf => ?_⟩
      · intro hnil
        have hperm := List.perm_insertionSort (· ≤ ·) (createdFqdns info)
        rw [show (createdFqdns info).insertionSort (· ≤ ·) = [] from hnil] at hperm
        exact (hwalks info hinfo).resolve_left hwalk (createdFqdns_eq_nil_iff.mp hperm.nil_eq.symm)
      · have hdeployed : f ∈ deployedFqdns args panels := by
          rw [deployedFqdns, hinfo]
          exact mem_sorted.mp hf
        exact deployedFqdns_subset hdeployed
  · unfold residualRules at h
    split at h
    · exact absurd h List.not_mem_nil
    · rw [List.mem_singleton.mp h]
      exact ⟨rfl, rfl⟩
  · unfold portRules at h
    split at h
    · rw [List.mem_singleton.mp h]
      exact ⟨rfl, by simp [portRule], by simpa [portRule] using host_mem_removalNames⟩
    · exact absurd h List.not_mem_nil
  · unfold sourceRules at h
    split at h
    · rw [List.mem_singleton.mp h]
      exact ⟨rfl, rfl⟩
    · exact absurd h List.not_mem_nil
  · exact ⟨rfl, by simp [biServiceRule], by simpa [biServiceRule] using host_mem_removalNames⟩

/-- No run returns that would have to make a root folder inside another folder. -/
theorem root_of_setup (hnew : s.hosts.get panels.delivery.host = none)
    (hsetup : (setup digest args).Runs (Serves panels) s u t) :
    s.HasFolder args.root ∨ args.root.length = 1 := by
  rcases runs_setup hsetup with ⟨hnot, -⟩ | ⟨-, hrun⟩
  · exact absurd (reconfigures_of_new hnew) hnot
  rcases runs_reconfigure hrun with ⟨s', hcreate, -⟩
  rcases hcreate.found_or_made hnew with ⟨s₁, ⟨hfound, -⟩ | ⟨name, hname, -⟩, -⟩
  · exact Or.inl hfound
  · right
    rw [hname, List.length_singleton]

/-- A removal leaves none of the folders exactly if the estate has a root folder of its own, or
its role folders were there before. -/
theorem folders_left_iff (h : CreateRun args panels s t)
    (hnew : s.hosts.get panels.delivery.host = none)
    (hafter : ∀ f, f ∈ after.folders ↔ f ∈ t.folders ∧ ¬ Under args.root f) :
    (∀ f ∈ after.folders, f ∈ s.folders) ↔ args.root ≠ [] ∨ HasRoleFolders args panels s := by
  rcases h.found_or_made hnew with ⟨s₁, hroot, hfolders⟩
  constructor
  · intro hall
    by_cases hnil : args.root = []
    · right
      intro row hrow f hf
      apply hall f
      rw [hafter, hfolders]
      exact ⟨Or.inr ⟨row, hrow, hnil ▸ hf⟩, fun hunder => hunder.1 hnil⟩
    · exact Or.inl hnil
  · intro hcond f hf
    rcases (hafter f).mp hf with ⟨hmem, hnot⟩
    rcases (hfolders f).mp hmem with hold | ⟨row, hrow, hrole⟩
    · rcases hroot with ⟨-, rfl⟩ | ⟨name, hname, rfl⟩
      · exact hold
      · rcases List.mem_append.mp hold with hold | hmade
        · exact hold
        · rw [List.mem_singleton.mp hmade, hname] at hnot
          exact absurd ⟨by simp, List.prefix_refl _⟩ hnot
    · by_cases hnil : args.root = []
      · exact hcond.resolve_left (not_not.mpr hnil) row hrow f (hnil ▸ hrole)
      · exact absurd ⟨hnil, (prefix_of_mem_chainFolders hrole).1⟩ hnot

/-- A removal leaves none of the rules exactly if no rule for stored walks is made without a
device. -/
theorem rules_left_iff (h : CreateRun args panels s t)
    (hnone : ∀ ruleset ∈ toolRulesets, s.marked ruleset = [])
    (hafter : ∀ k r, after.rules.get k = some r ↔
      t.rules.get k = some r ∧ ¬ Removable args.root (removalNames panels) r ∧
        ¬ Under args.root r.folder) :
    (∀ r, after.HasRule r → s.HasRule r) ↔ WalksHaveDevices args panels := by
  have hlower := h.addsRules.lower fun r hr => hnone _ (ruleset_of_mem_plannedRules hr)
  constructor
  · intro hall info hinfo
    by_contra hno
    rw [not_or, not_not] at hno
    have hrule : usewalkRule [] ∈ plannedRules args panels := by
      have hdevice : usewalkRule [] ∈ deviceRules args panels := by
        rw [deviceRules, Option.mem_def.mp hinfo, Option.map_some, accessRule, if_neg hno.1,
          createdFqdns_eq_nil_iff.mpr hno.2]
        exact List.mem_singleton_self _
      simp only [plannedRules, List.mem_append]
      exact Or.inl (Or.inl (Or.inl (Or.inl hdevice)))
    rcases hlower _ (Or.inr hrule) with ⟨k, hk⟩
    have hleft : after.HasRule (usewalkRule []) := by
      refine ⟨k, (hafter k _).mpr ⟨hk, ?_, ?_⟩⟩
      · rintro ⟨-, hhosts, -⟩
        exact hhosts rfl
      · rintro ⟨hroot, hprefix⟩
        exact hroot (List.prefix_nil.mp hprefix)
    exact marked_eq_nil_iff.mp (hnone .usewalkHosts (by decide)) _ (hall _ hleft) rfl rfl
  · rintro hwalks r ⟨k, hk⟩
    rcases (hafter k r).mp hk with ⟨hget, hnot, -⟩
    rcases h.addsRules.upper r ⟨k, hget⟩ with hold | hplanned
    · exact hold
    · exact absurd (removable_of_mem_plannedRules hplanned hwalks) hnot

/-- The planned business objects are among those that a removal deletes. -/
theorem find_plannedBi_of_notMem {k : BiId} (hk : k ∉ biObjects) :
    Dict.find (plannedBi args panels) k = none := by
  rw [Dict.find_eq_none_iff, plannedBi, biPlan]
  intro hmem
  apply hk
  rw [mem_biObjects]
  simp only [List.cons_append, List.map_cons, List.map_append, List.map_map, List.mem_cons,
    List.mem_append, List.mem_map] at hmem
  rcases hmem with rfl | ⟨tier, htier, rfl⟩ | hlast
  · simp
  · exact Or.inr (Or.inr (Or.inl ⟨tier, List.mem_of_mem_filter htier, rfl⟩))
  · rcases hlast with ⟨entry, hentry, rfl⟩
    split at hentry
    · exact absurd hentry List.not_mem_nil
    · rcases List.mem_pair.mp hentry with rfl | rfl <;> simp

/-- From a site without the estate, a removal after a setup leaves nothing exactly if the
estate has a root folder or finds all its role folders, and no rule for stored walks is made
without a device. -/
theorem nothingLeft_iff (hnone : NoEstate args panels s)
    (hsetup : (setup digest args).Runs (Serves panels) s () t)
    (hteardown : (teardown args).Runs (Serves panels) t () after) :
    NothingLeft s after ↔
      (args.root ≠ [] ∨ HasRoleFolders args panels s) ∧ WalksHaveDevices args panels := by
  have hnew := hnone.hosts _ List.mem_cons_self
  rcases runs_setup hsetup with ⟨hnot, -⟩ | ⟨-, hrun⟩
  · exact absurd (reconfigures_of_new hnew) hnot
  rcases runs_reconfigure hrun with ⟨s', hcreate, hfolders, hrules, hbi, hhosts⟩
  rcases runs_teardown hteardown with ⟨hfolders', hhosts', hrules', hbi'⟩
  rw [hfolders] at hfolders'
  rw [hrules] at hrules'
  rw [← folders_left_iff hcreate hnew hfolders', ← rules_left_iff hcreate hnone.rules hrules']
  constructor
  · intro hleft
    exact ⟨hleft.folders, hleft.rules⟩
  · rintro ⟨hleftFolders, hleftRules⟩
    refine ⟨fun m hm => ?_, hleftFolders, hleftRules, fun k hk => ?_⟩
    · by_contra hsome
      rcases Option.ne_none_iff_exists'.mp hsome with ⟨config, hconfig⟩
      rcases (hhosts' m config).mp hconfig with ⟨hget, hkept, -⟩
      have hother : m ∉ estateNames args panels := fun hmem =>
        hkept (estateNames_subset_removalNames hmem)
      have hne : m ≠ panels.delivery.host := fun heq => hother (heq ▸ List.mem_cons_self)
      rw [hhosts, Function.update_of_ne hne, hcreate.hosts, foldl_ensurePlaced_of_notMem, hm,
        ite_self] at hget
      · exact absurd hget (by simp)
      · exact fun hmem => hother (mem_hostPlan.mp hmem)
    · rw [hbi', hbi, hcreate.bi, hk, Option.none_or]
      split
      · rfl
      · rename_i hnot
        exact find_plannedBi_of_notMem hnot

theorem noEstate_empty : NoEstate args panels Site.empty where
  hosts _ _ := rfl
  rules _ _ := rfl
  bi := noObjects_empty

theorem nothingLeft_iff_core : ∃ t after,
    (setup modeDigest demoArgs).Runs (Serves corePanels) Site.empty () t ∧
      (teardown demoArgs).Runs (Serves corePanels) t () after ∧
      (NothingLeft Site.empty after ↔
        (demoArgs.root ≠ [] ∨ HasRoleFolders demoArgs corePanels Site.empty) ∧
          WalksHaveDevices demoArgs corePanels) := by
  rcases exists_runs_observed corePanels (p := setup modeDigest demoArgs)
    (q := teardown demoArgs) (fun _ => ()) (b := ()) (by decide +kernel) with
    ⟨t, after, hsetup, hteardown, -⟩
  exact ⟨t, after, hsetup, hteardown, nothingLeft_iff noEstate_empty hsetup hteardown⟩

/-- The arguments of an estate in the site root. -/
def siteRootArgs : Args :=
  { demoArgs with folder := "/".toList }

/-- An estate in the site root leaves the folder of its network gear. -/
theorem not_nothingLeft_siteRoot : ¬ ∀ (digest : Canon → Text) (args : Args) (panels : Panels)
    (s t after : Site), NoEstate args panels s →
      (setup digest args).Runs (Serves panels) s () t →
      (teardown args).Runs (Serves panels) t () after → NothingLeft s after := by
  intro hclaim
  rcases exists_runs_observed corePanels (p := setup modeDigest siteRootArgs)
    (q := teardown siteRootArgs) (fun s => decide ([networkFolder.1] ∈ s.folders))
    (by decide +kernel : _ = some true) with ⟨t, after, hsetup, hteardown, hleft⟩
  have hnothing := hclaim modeDigest siteRootArgs corePanels Site.empty t after noEstate_empty
    hsetup hteardown
  exact absurd (hnothing.folders _ (of_decide_eq_true hleft)) List.not_mem_nil

end Undo

end Deploy
end DemoEstate
