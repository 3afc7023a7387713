import DemoEstate.Deploy.Site

/-!
# What the parts of the tool do to a site

For every part of the tool: to which parts of the site it writes at all, and what a run that
returns has made of them.

Main results:

- Theorems {lit}`folders_of_asks`, {lit}`hosts_of_asks`, {lit}`rules_of_asks` and
  {lit}`bi_of_asks`: a program that asks for no write to a part leaves it alone.
- Theorem {lit}`runs_createRows`: the hosts and folders after a sequence of rows.
- Theorem {lit}`runs_ensureRule`: the rules after making a rule exist.
- Theorem {lit}`runs_ensureBiPack`: the business objects after the pack is ensured.
-/

namespace DemoEstate
namespace Deploy

open Interaction
open Interaction.Program

/-! ## Which parts a program writes to -/

/-- A call writes to none but the given parts. -/
def Within (parts : List Part) (op : Request) : Prop :=
  op.touches ⊆ parts

theorem Within.mono {parts parts' : List Part} (h : parts ⊆ parts') {op : Request}
    (hop : Within parts op) : Within parts' op :=
  List.Subset.trans hop h

section Frames

variable {α : Type} {panels : Panels} {s t : Site} {a : α} {p : Setup α} {parts : List Part}

theorem folders_of_asks (h : p.Asks (Within parts)) (hparts : Part.folders ∉ parts)
    (hrun : p.Runs (Serves panels) s a t) : t.folders = s.folders :=
  h.invariant (I := fun u => u.folders = s.folders)
    (fun _ _ _ _ hop hs hans => (folders_eq hans fun hmem => hparts (hop hmem)).trans hs) hrun rfl

theorem hosts_of_asks (h : p.Asks (Within parts)) (hhosts : Part.hosts ∉ parts)
    (hlabels : Part.labels ∉ parts) (hrun : p.Runs (Serves panels) s a t) :
    t.hosts = s.hosts :=
  h.invariant (I := fun u => u.hosts = s.hosts)
    (fun _ _ _ _ hop hs hans =>
      (hosts_eq hans (fun hmem => hhosts (hop hmem)) fun hmem => hlabels (hop hmem)).trans hs)
    hrun rfl

theorem rules_of_asks (h : p.Asks (Within parts)) (hparts : Part.rules ∉ parts)
    (hrun : p.Runs (Serves panels) s a t) : t.rules = s.rules :=
  h.invariant (I := fun u => u.rules = s.rules)
    (fun _ _ _ _ hop hs hans => (rules_eq hans fun hmem => hparts (hop hmem)).trans hs) hrun rfl

theorem bi_of_asks (h : p.Asks (Within parts)) (hparts : Part.bi ∉ parts)
    (hrun : p.Runs (Serves panels) s a t) : t.bi = s.bi :=
  h.invariant (I := fun u => u.bi = s.bi)
    (fun _ _ _ _ hop hs hans => (bi_eq hans fun hmem => hparts (hop hmem)).trans hs) hrun rfl

/-- A program that writes no object leaves the site alone. -/
theorem site_of_asks (h : p.Asks (Within [.running])) (hrun : p.Runs (Serves panels) s a t) :
    t = s := by
  have hfolders := folders_of_asks h (by decide) hrun
  have hhosts := hosts_of_asks h (by decide) (by decide) hrun
  have hrules := rules_of_asks h (by decide) hrun
  have hbi := bi_of_asks h (by decide) hrun
  cases s
  cases t
  simp_all

end Frames

section Asks

variable {α : Type} {parts : List Part}

theorem within_nil {op : Request} (h : op.touches = []) : Within parts op := by
  simp [Within, h]

theorem within_self {op : Request} (h : op.touches = parts) : Within parts op := by
  simp [Within, h]

theorem asks_die {error : Failure} : (die error : Setup α).Asks (Within parts) :=
  ⟨within_nil rfl, fun never => nomatch never⟩

theorem asks_expect {what : Text} {status : Status} :
    (expect what status).Asks (Within parts) := by
  unfold expect
  split
  · trivial
  · exact asks_die

theorem asks_ensureFolder (ident : Ident) (title : Text) (parent : Ident) :
    (ensureFolder ident title parent).Asks (Within [.folders]) := by
  unfold ensureFolder
  split
  · trivial
  · refine asks_call (within_nil rfl) fun status => ?_
    split
    · trivial
    · exact asks_call (within_self rfl) fun status => asks_expect

theorem asks_ensureFolderChain (parent : Ident) (chain : List (Text × Text)) :
    (ensureFolderChain parent chain).Asks (Within [.folders]) := by
  induction chain generalizing parent with
  | nil => trivial
  | cons head chain ih =>
      rcases head with ⟨name, title⟩
      exact (asks_ensureFolder _ _ _).bind fun _ => ih _

theorem asks_leafFor (root : Ident) (leaf : Dict Role Ident) (role : Role) :
    (leafFor root leaf role).Asks (Within [.folders]) := by
  unfold leafFor
  split
  · trivial
  · exact (asks_ensureFolderChain _ _).bind fun _ => trivial

theorem asks_ensureHost (name : Text) (folder : Ident) (attributes : Attributes) :
    (ensureHost name folder attributes).Asks (Within [.hosts]) := by
  refine asks_call (within_nil rfl) fun existing => ?_
  split
  · exact asks_call (within_self rfl) fun status => asks_expect
  · split
    · exact asks_call (within_self rfl) fun status => asks_expect
    · trivial

theorem asks_createRows (root : Ident) (leaf : Dict Role Ident) (rows : List Row) :
    (createRows root leaf rows).Asks (Within [.folders, .hosts]) := by
  induction rows generalizing leaf with
  | nil => trivial
  | cons row rows ih =>
      refine Asks.bind ?_ fun r => Asks.bind ?_ fun _ => ih r.2
      · exact (asks_leafFor _ _ _).mono fun _ => Within.mono (by simp)
      · exact (asks_ensureHost _ _ _).mono fun _ => Within.mono (by simp)

theorem asks_deleteHosts (names : List Text) : (deleteHosts names).Asks (Within [.hosts]) := by
  induction names with
  | nil => trivial
  | cons name names ih => exact asks_call (within_self rfl) fun _ => ih

theorem asks_pruneSubtree (root : Ident) (keep : List Text) :
    (pruneSubtree root keep).Asks (Within [.hosts]) := by
  unfold pruneSubtree
  split
  · trivial
  · refine asks_call (within_nil rfl) fun hosts => ?_
    split
    · trivial
    · exact asks_deleteHosts _

theorem asks_markedRules (ruleset : Ruleset) : (markedRules ruleset).Asks (Within parts) := by
  refine asks_call (within_nil rfl) fun rules => ?_
  split
  · exact asks_die
  · trivial

theorem asks_createRule (rule : Rule) : (createRule rule).Asks (Within [.rules]) :=
  asks_call (within_self rfl) fun _ => asks_expect

theorem asks_replaceStale (own keep : Rule → Bool) (marked : List (Nat × Rule)) :
    (replaceStale own keep marked).Asks (Within [.rules]) := by
  induction marked with
  | nil => trivial
  | cons head marked ih =>
      rcases head with ⟨ident, rule⟩
      unfold replaceStale
      split
      · split
        · trivial
        · exact asks_call (within_self rfl) fun _ => ih
      · exact ih

theorem asks_ensureRule (own keep : Rule → Bool) (rule : Rule) :
    (ensureRule own keep rule).Asks (Within [.rules]) := by
  refine (asks_markedRules _).bind fun marked => (asks_replaceStale _ _ _).bind fun found => ?_
  split
  · trivial
  · exact asks_createRule rule

theorem asks_ensureSnmpPortRule (root : Ident) (port : ℤ) :
    (ensureSnmpPortRule root port).Asks (Within [.rules]) := by
  refine (asks_markedRules _).bind fun marked => ?_
  split
  · exact asks_createRule _
  · split
    · trivial
    · exact asks_call (within_self rfl) fun _ => asks_createRule _

theorem asks_ensureSnmpAccess (root : Ident) (info : Netsim) :
    (ensureSnmpAccess root info).Asks (Within [.rules]) := by
  unfold ensureSnmpAccess
  split
  · exact asks_ensureSnmpPortRule _ _
  · exact asks_ensureRule _ _ _

theorem asks_deleteRules (own : Rule → Bool) (marked : List (Nat × Rule)) :
    (deleteRules own marked).Asks (Within [.rules]) := by
  induction marked with
  | nil => trivial
  | cons head marked ih =>
      rcases head with ⟨ident, rule⟩
      unfold deleteRules
      split
      · exact asks_call (within_self rfl) fun _ => ih
      · exact ih

theorem asks_deleteOwn (ruleset : Ruleset) (own : Rule → Bool) :
    (deleteOwn ruleset own).Asks (Within [.rules]) :=
  (asks_markedRules _).bind fun _ => asks_deleteRules _ _

theorem asks_ensureBiObject (ident : BiId) (body : BiBody) (name : Text) :
    (ensureBiObject ident body name).Asks (Within [.bi]) := by
  refine asks_call (within_nil rfl) fun status => ?_
  split
  · trivial
  · exact asks_call (within_self rfl) fun _ => asks_expect

theorem asks_ensureTiers (fqdns : Dict Text Text) (ts : List Tier) :
    (ensureTiers fqdns ts).Asks (Within [.bi]) := by
  induction ts with
  | nil => trivial
  | cons tier ts ih =>
      unfold ensureTiers
      split
      · exact ih
      · exact (asks_ensureBiObject _ _ _).bind fun _ => ih.bind fun _ => trivial

theorem asks_ensureBiPack (fqdns : Dict Text Text) :
    (ensureBiPack fqdns).Asks (Within [.bi]) := by
  refine (asks_ensureBiObject _ _ _).bind fun _ => (asks_ensureTiers _ _).bind fun calls => ?_
  split
  · trivial
  · exact (asks_ensureBiObject _ _ _).bind fun _ => asks_ensureBiObject _ _ _

theorem asks_deleteBi (idents : List BiId) : (deleteBi idents).Asks (Within [.bi]) := by
  induction idents with
  | nil => trivial
  | cons ident idents ih => exact asks_call (within_self rfl) fun _ => ih

theorem asks_ensureAgentAccess (args : Args) (delivery : Text) :
    (ensureAgentAccess args delivery).Asks (Within [.rules]) := by
  unfold ensureAgentAccess
  split
  · exact asks_ensureRule _ _ _
  · trivial

theorem asks_ensureAgentSource (args : Args) :
    (ensureAgentSource args).Asks (Within [.rules]) := by
  unfold ensureAgentSource
  split
  · exact asks_ensureRule _ _ _
  · trivial

theorem asks_healDevices (devices : List (Text × Device)) :
    (healDevices devices).Asks (Within parts) := by
  induction devices with
  | nil => trivial
  | cons head devices ih =>
      rcases head with ⟨short, dev⟩
      unfold healDevices
      split
      · refine asks_call (within_nil rfl) fun healed => ?_
        split
        · exact ih
        · exact asks_die
      · exact ih

theorem asks_healEstate (hosts : List Carried) : (healEstate hosts).Asks (Within parts) := by
  induction hosts with
  | nil => trivial
  | cons h hosts ih =>
      unfold healEstate
      split
      · refine asks_call (within_nil rfl) fun healed => ?_
        split
        · exact ih
        · exact asks_die
      · exact ih

theorem asks_plannedSnmp (args : Args) : (plannedSnmp args).Asks (Within parts) := by
  unfold plannedSnmp
  split
  · trivial
  · refine asks_call (within_nil rfl) fun info => ?_
    split
    · split
      · exact asks_die
      · trivial
    · trivial

theorem asks_waitForDiscovery (host : Text) (n : Nat) (last : Status) :
    (waitForDiscovery host n last).Asks (Within parts) := by
  induction n generalizing last with
  | zero => exact asks_die
  | succ n ih =>
      refine asks_call (within_nil rfl) fun before => ?_
      split
      · refine asks_call (within_nil rfl) fun status => ?_
        split
        · trivial
        · split
          · exact ih status
          · exact asks_die
      · exact asks_die

theorem asks_refresh (host : Text) : (refresh host).Asks (Within parts) := by
  refine asks_call (within_nil rfl) fun status => ?_
  split
  · exact asks_waitForDiscovery _ _ _
  · exact asks_expect

theorem asks_fixAll (host : Text) : (fixAll host).Asks (Within parts) :=
  asks_call (within_nil rfl) fun _ => asks_expect

theorem asks_discover (host : Text) : (discover host).Asks (Within parts) :=
  (asks_refresh host).bind fun _ => asks_fixAll host

theorem asks_discoverAll (hosts : List Text) : (discoverAll hosts).Asks (Within parts) := by
  induction hosts with
  | nil => trivial
  | cons host hosts ih => exact (asks_discover host).bind fun _ => ih

theorem asks_waitForJob (job : Text) (n : Nat) : (waitForJob job n).Asks (Within parts) := by
  induction n with
  | zero => exact asks_die
  | succ n ih =>
      refine asks_call (within_nil rfl) fun before => ?_
      split
      · refine asks_call (within_nil rfl) fun active => ?_
        split
        · trivial
        · exact ih
      · exact asks_die

theorem asks_bulkDiscover (hosts : List Text) : (bulkDiscover hosts).Asks (Within parts) := by
  refine asks_call (within_nil rfl) fun started => ?_
  split
  · exact asks_waitForJob _ _
  · exact asks_die

theorem asks_pendingHosts (skip : Bool) (hosts : List Text) :
    (pendingHosts skip hosts).Asks (Within parts) := by
  induction hosts with
  | nil => trivial
  | cons host hosts ih =>
      unfold pendingHosts
      split
      · exact asks_call (within_nil rfl) fun _ => ih.bind fun _ => trivial
      · exact ih.bind fun _ => trivial

theorem asks_discoverEstate (args : Args) (info : Delivery) (snmpFqdns : List Text) :
    (discoverEstate args info snmpFqdns).Asks (Within parts) := by
  refine (asks_discover _).bind fun _ => (asks_pendingHosts _ _).bind fun pending => ?_
  split
  · exact asks_bulkDiscover _
  · exact asks_discoverAll _

theorem asks_waitForActivation (run : Text) (n : Nat) :
    (waitForActivation run n).Asks (Within parts) := by
  induction n with
  | zero => trivial
  | succ n ih =>
      refine asks_call (within_nil rfl) fun before => ?_
      split
      · refine asks_call (within_nil rfl) fun status => ?_
        split
        · trivial
        · split
          · exact ih
          · exact asks_die
      · trivial

theorem asks_activate (forceForeign : Bool) :
    (activate forceForeign).Asks (Within [.running]) := by
  refine asks_call (within_self rfl) fun started => ?_
  split
  · trivial
  · split
    · split
      · trivial
      · exact asks_waitForActivation _ _
    · split <;> exact asks_die

/-- The objects of the estate are created without a change of labels. -/
theorem asks_createObjects (args : Args) (info : Delivery) :
    (createObjects args info).Asks (Within [.folders, .hosts, .rules, .bi]) := by
  have hsub : ∀ {α : Type} {p : Setup α} {parts : List Part},
      parts ⊆ [.folders, .hosts, .rules, .bi] → p.Asks (Within parts) →
        p.Asks (Within [.folders, .hosts, .rules, .bi]) :=
    fun h hp => hp.mono fun _ => Within.mono h
  have hlayer : (snmpLayer args).Asks (Within [.folders, .hosts, .rules, .bi]) := by
    unfold snmpLayer
    split
    · trivial
    · apply Asks.bind
      · refine asks_call (within_nil rfl) fun answer => ?_
        split
        · split
          · exact asks_die
          · trivial
        · apply Asks.bind (asks_healDevices _)
          intro _
          apply Asks.bind (hsub (by simp) (asks_createRows _ _ _))
          intro leaf
          exact Asks.bind (hsub (by simp) (asks_ensureSnmpAccess _ _)) fun _ => trivial
      · intro result
        exact Asks.bind (hsub (by simp) (asks_ensureRule _ _ _)) fun _ => trivial
  apply Asks.bind (hsub (by simp) (asks_ensureFolder _ _ _))
  intro _
  apply Asks.bind hlayer
  intro result
  apply Asks.bind (hsub (by simp) (asks_ensureHost _ _ _))
  intro _
  apply Asks.bind (hsub (by simp) (asks_ensureAgentAccess _ _))
  intro _
  apply Asks.bind (hsub (by simp) (asks_createRows _ _ _))
  intro _
  apply Asks.bind (hsub (by simp) (asks_pruneSubtree _ _))
  intro _
  apply Asks.bind (hsub (by simp) (asks_ensureAgentSource _))
  intro _
  apply Asks.bind (hsub (by simp) (asks_ensureBiPack _))
  intro _
  exact Asks.bind (hsub (by simp) (asks_ensureRule _ _ _)) fun _ => trivial

end Asks

/-! ## Folders and hosts -/

section Runs

variable {α : Type} {panels : Panels} {s t : Site} {u : Unit}

theorem not_runs_die {error : Failure} {a : α} :
    ¬ (die error : Setup α).Runs (Serves panels) s a t := by
  rintro ⟨never, -⟩
  exact nomatch never

theorem runs_expect {what : Text} {status : Status} :
    (expect what status).Runs (Serves panels) s u t ↔ status = 200 ∧ t = s := by
  unfold expect
  by_cases h : status = 200
  · simp [h]
  · simp [h, not_runs_die]

/-- A folder that is ensured was there, or is made below the folder named as its parent. -/
theorem runs_ensureFolder {ident parent : Ident} {title : Text}
    (h : (ensureFolder ident title parent).Runs (Serves panels) s u t) :
    (s.HasFolder ident ∧ t = s) ∨
      ∃ name, ident.getLast? = some name ∧ ¬ s.HasFolder ident ∧ s.HasFolder parent ∧
        t = s.addFolder (parent ++ [name]) := by
  unfold ensureFolder at h
  split at h
  · rename_i hnil
    rcases h with ⟨-, rfl⟩
    exact Or.inl ⟨Or.inl (List.getLast?_eq_none_iff.mp hnil), rfl⟩
  · rename_i name hname
    replace h := runs_call.mp h
    rcases h with ⟨status, s₁, ⟨hget, rfl⟩, h⟩
    split at h
    · rename_i hstatus
      exact Or.inl ⟨hget.mp hstatus, h.2⟩
    · rename_i hstatus
      rcases h with ⟨status', s₂, hpost, h⟩
      rcases runs_expect.mp h with ⟨rfl, rfl⟩
      simp only [Serves] at hpost
      split at hpost
      · rename_i hok
        exact Or.inr ⟨name, hname, fun hhas => hstatus (hget.mpr hhas), hok.1, hpost.2⟩
      · exact absurd rfl hpost.1

/-- The folders of a chain of names below a folder. -/
def chainFolders (parent : Ident) : List (Text × Text) → List Ident
  | [] => []
  | (name, _) :: chain => (parent ++ [name]) :: chainFolders (parent ++ [name]) chain

/-- The folders of a role below the root folder. -/
def Role.folders (root : Ident) (role : Role) : List Ident :=
  chainFolders root role.chain

theorem prefix_of_mem_chainFolders {parent : Ident} {chain : List (Text × Text)} {f : Ident}
    (h : f ∈ chainFolders parent chain) : parent <+: f ∧ f ≠ parent := by
  induction chain generalizing parent with
  | nil => exact absurd h List.not_mem_nil
  | cons head chain ih =>
      rcases head with ⟨name, title⟩
      rcases List.mem_cons.mp h with rfl | h
      · exact ⟨List.prefix_append _ _, by simp⟩
      · rcases ih h with ⟨⟨rest, rfl⟩, -⟩
        refine ⟨⟨name :: rest, by simp⟩, fun heq => ?_⟩
        have hlength := congrArg List.length heq
        simp only [List.append_assoc, List.length_append, List.length_cons] at hlength
        omega

/-- After a chain is ensured, its folders have been added. -/
theorem runs_ensureFolderChain {parent ident : Ident} {chain : List (Text × Text)}
    (h : (ensureFolderChain parent chain).Runs (Serves panels) s ident t) :
    ident = parent ++ chain.map Prod.fst ∧
      ∀ f, f ∈ t.folders ↔ f ∈ s.folders ∨ f ∈ chainFolders parent chain := by
  induction chain generalizing parent s with
  | nil =>
      rcases h with ⟨rfl, rfl⟩
      simp [chainFolders]
  | cons head chain ih =>
      rcases head with ⟨name, title⟩
      rcases runs_bind.mp h with ⟨_, s₁, hfirst, hrest⟩
      rcases ih hrest with ⟨rfl, hfolders⟩
      refine ⟨by simp, fun f => ?_⟩
      rw [hfolders, chainFolders, List.mem_cons]
      rcases runs_ensureFolder hfirst with ⟨hhas, rfl⟩ | ⟨name', hname', -, -, rfl⟩
      · have hmem : parent ++ [name] ∈ s₁.folders := by simpa [Site.HasFolder] using hhas
        constructor
        · rintro (hf | hf)
          · exact Or.inl hf
          · exact Or.inr (Or.inr hf)
        · rintro (hf | rfl | hf)
          · exact Or.inl hf
          · exact Or.inl hmem
          · exact Or.inr hf
      · obtain rfl : name = name' := by simpa using hname'
        simp [Site.addFolder, or_assoc]

/-- The leaf folders known so far are those of their roles and exist. -/
def LeafOk (root : Ident) (leaf : Dict Role Ident) (s : Site) : Prop :=
  ∀ role ident, leaf.get role = some ident →
    ident = role.leaf root ∧ ∀ f ∈ role.folders root, f ∈ s.folders

theorem leafOk_empty (root : Ident) (s : Site) : LeafOk root Dict.empty s := by
  intro role ident h
  simp at h

theorem LeafOk.mono {root : Ident} {leaf : Dict Role Ident} (h : LeafOk root leaf s)
    (hst : ∀ f, f ∈ s.folders → f ∈ t.folders) : LeafOk root leaf t := fun role ident hget =>
  ⟨(h role ident hget).1, fun f hf => hst f ((h role ident hget).2 f hf)⟩

theorem runs_leafFor {root : Ident} {leaf : Dict Role Ident} {role : Role}
    {r : Ident × Dict Role Ident} (hleaf : LeafOk root leaf s)
    (h : (leafFor root leaf role).Runs (Serves panels) s r t) :
    r.1 = role.leaf root ∧ LeafOk root r.2 t ∧
      ∀ f, f ∈ t.folders ↔ f ∈ s.folders ∨ f ∈ role.folders root := by
  unfold leafFor at h
  split at h
  · rename_i ident hget
    rcases h with ⟨rfl, rfl⟩
    rcases hleaf role ident hget with ⟨hident, hfolders⟩
    exact ⟨hident, hleaf, fun f => ⟨Or.inl, fun hf => hf.elim id (hfolders f)⟩⟩
  · rcases runs_bind.mp h with ⟨ident, s₁, hchain, ⟨rfl, rfl⟩⟩
    rcases runs_ensureFolderChain hchain with ⟨hident, hfolders⟩
    refine ⟨hident, fun role' ident' hget => ?_, hfolders⟩
    rw [Dict.get_set] at hget
    split at hget
    · rename_i hrole
      subst hrole
      cases hget
      exact ⟨hident, fun f hf => (hfolders f).mpr (Or.inr hf)⟩
    · exact hleaf.mono (fun f hf => (hfolders f).mpr (Or.inl hf)) role' ident' hget

/-- Attributes after the managed ones among them are reconciled. -/
def reconciled (attributes current : Attributes) : Attributes := fun attr =>
  if attr ∈ managed ∧ attributes attr ≠ none then attributes attr else current attr

theorem updated_fixes (attributes current : Attributes) :
    updated current (fixes attributes current) = reconciled attributes current := by
  funext attr
  simp only [updated, fixes, reconciled]
  by_cases hmanaged : attr ∈ managed ∧ attributes attr ≠ none
  · rw [if_pos hmanaged]
    by_cases hdiffers : current attr = attributes attr
    · rw [if_neg fun hall => hall.2.2 hdiffers]
      exact hdiffers
    · rw [if_pos ⟨hmanaged.1, hmanaged.2, hdiffers⟩]
      rcases Option.ne_none_iff_exists'.mp hmanaged.2 with ⟨value, hvalue⟩
      rw [hvalue]
      rfl
  · rw [if_neg hmanaged, if_neg fun hall => hmanaged ⟨hall.1, hall.2.1⟩]
    rfl

theorem reconciled_of_no_fix {attributes current : Attributes}
    (h : (managed.any fun attr => (fixes attributes current attr).isSome) = false) :
    reconciled attributes current = current := by
  funext attr
  rw [← updated_fixes]
  have hnone : fixes attributes current attr = none := by
    by_cases hmanaged : attr ∈ managed
    · have hfix := List.any_eq_false.mp h attr hmanaged
      simpa using hfix
    · simp [fixes, hmanaged]
  simp [updated, hnone]

/-- A host after it is ensured. -/
def ensured (folder : Ident) (attributes : Attributes) : Option HostConfig → HostConfig
  | none => ⟨folder, attributes, Dict.empty⟩
  | some config => { config with attributes := reconciled attributes config.attributes }

theorem get_setHost (s : Site) (name : Text) (config : HostConfig) :
    (s.setHost name config).hosts.get = Function.update s.hosts.get name (some config) := by
  funext m
  simp only [Site.setHost, Dict.get_set, Function.update_apply, eq_comm]

theorem runs_ensureHost {name : Text} {folder : Ident} {attributes : Attributes}
    (h : (ensureHost name folder attributes).Runs (Serves panels) s u t) :
    t.hosts.get = Function.update s.hosts.get name
        (some (ensured folder attributes (s.hosts.get name))) ∧
      (s.hosts.get name = none → s.HasFolder folder) := by
  replace h := runs_call.mp h
  rcases h with ⟨existing, s₁, ⟨rfl, rfl⟩, h⟩
  split at h
  · rename_i hnone
    rcases h with ⟨status, s₂, hpost, h⟩
    rcases runs_expect.mp h with ⟨rfl, rfl⟩
    rcases hpost with ⟨-, -, hfolder, rfl⟩ | ⟨hno, -⟩
    · exact ⟨by rw [get_setHost, hnone]; rfl, fun _ => hfolder⟩
    · exact absurd rfl hno
  · rename_i config hsome
    refine ⟨?_, fun hnone => absurd (hsome.symm.trans hnone) (by simp)⟩
    split at h
    · rcases h with ⟨status, s₂, hput, h⟩
      rcases runs_expect.mp h with ⟨rfl, rfl⟩
      rcases hput with ⟨config', -, hconfig', rfl⟩ | ⟨hno, -⟩
      · obtain rfl : config = config' := Option.some.inj (hsome.symm.trans hconfig')
        rw [get_setHost, hsome, updated_fixes]
        rfl
      · exact absurd rfl hno
    · rename_i hfix
      rcases h with ⟨-, rfl⟩
      rw [hsome]
      simp only [ensured, reconciled_of_no_fix (Bool.eq_false_iff.mpr hfix)]
      rw [← hsome, Function.update_eq_self]

/-- The hosts after a row is ensured. -/
def ensureRow (root : Ident) (hosts : Text → Option HostConfig) (row : Row) :
    Text → Option HostConfig :=
  Function.update hosts row.name
    (some (ensured (row.role.leaf root) row.attributes (hosts row.name)))

/-- After rows are created, their hosts are ensured one after the other and the folders of
their roles exist. -/
theorem runs_createRows {root : Ident} {leaf leaf' : Dict Role Ident} {rows : List Row}
    (hleaf : LeafOk root leaf s)
    (h : (createRows root leaf rows).Runs (Serves panels) s leaf' t) :
    t.hosts.get = rows.foldl (ensureRow root) s.hosts.get ∧ LeafOk root leaf' t ∧
      ∀ f, f ∈ t.folders ↔ f ∈ s.folders ∨ ∃ row ∈ rows, f ∈ row.role.folders root := by
  induction rows generalizing leaf s with
  | nil =>
      rcases h with ⟨rfl, rfl⟩
      exact ⟨rfl, hleaf, by simp⟩
  | cons row rows ih =>
      rcases runs_bind.mp h with ⟨⟨folder, leaf₁⟩, s₁, hfolder, h⟩
      rcases runs_bind.mp h with ⟨_, s₂, hhost, hrest⟩
      rcases runs_leafFor hleaf hfolder with ⟨rfl, hleaf₁, hfolders₁⟩
      have hhosts₁ : s₁.hosts = s.hosts :=
        hosts_of_asks (asks_leafFor _ _ _) (by decide) (by decide) hfolder
      have hfolders₂ : s₂.folders = s₁.folders :=
        folders_of_asks (asks_ensureHost _ _ _) (by decide) hhost
      rcases runs_ensureHost hhost with ⟨hhosts₂, -⟩
      rcases ih (hleaf₁.mono fun f hf => hfolders₂ ▸ hf) hrest with ⟨hhosts, hleaf', hfolders⟩
      refine ⟨?_, hleaf', fun f => ?_⟩
      · rw [hhosts, hhosts₂, hhosts₁]
        rfl
      · rw [hfolders, hfolders₂, hfolders₁]
        simp [or_assoc]

theorem runs_deleteHosts {names : List Text}
    (h : (deleteHosts names).Runs (Serves panels) s u t) (m : Text) :
    t.hosts.get m = if m ∈ names then none else s.hosts.get m := by
  induction names generalizing s with
  | nil =>
      rcases h with ⟨-, rfl⟩
      simp
  | cons name names ih =>
      rcases h with ⟨status, s₁, rfl, h⟩
      rw [ih h]
      simp only [Site.dropHost, Dict.get_erase, List.mem_cons]
      grind

theorem mem_underRoot {root : Ident} {m : Text} :
    m ∈ underRoot root s.hosts.entries ↔
      ∃ config, s.hosts.get m = some config ∧ inSubtree config.folder root = true := by
  simp only [underRoot, List.mem_map, List.mem_filter, Dict.get_eq_some_iff]
  constructor
  · rintro ⟨⟨m', config⟩, ⟨hmem, hin⟩, rfl⟩
    exact ⟨config, hmem, hin⟩
  · rintro ⟨config, hmem, hin⟩
    exact ⟨(m, config), ⟨hmem, hin⟩, rfl⟩

/-- Pruning removes the hosts under the root that are not to be kept. -/
theorem runs_pruneSubtree {root : Ident} {keep : List Text}
    (h : (pruneSubtree root keep).Runs (Serves panels) s u t) (m : Text) :
    t.hosts.get m =
      if m ∉ keep ∧ m ∈ underRoot root s.hosts.entries then none else s.hosts.get m := by
  unfold pruneSubtree at h
  split at h
  · rename_i hroot
    rcases h with ⟨-, rfl⟩
    rw [if_neg]
    rintro ⟨-, hmem⟩
    rcases mem_underRoot.mp hmem with ⟨config, -, hin⟩
    simp [inSubtree, hroot] at hin
  · rcases h with ⟨hosts, s₁, ⟨rfl, rfl⟩, h⟩
    rw [runs_deleteHosts h]
    simp only [List.mem_filter, decide_not, Bool.not_eq_eq_eq_not, Bool.not_true,
      decide_eq_false_iff_not, and_comm]

end Runs

/-! ## Rules -/

/-- The site has a rule, under some identifier. -/
def Site.HasRule (s : Site) (rule : Rule) : Prop :=
  ∃ ident, s.rules.get ident = some rule

/-- The rules of a ruleset with its marker description, in the order of the listing. -/
def Site.marked (s : Site) (ruleset : Ruleset) : List (Nat × Rule) :=
  (s.rules.entries.filter fun r => r.2.ruleset = ruleset).filter
    fun r => r.2.description = description ruleset

/-- The rules that are deleted in favour of a new one. -/
def stale (own keep : Rule → Bool) : List (Nat × Rule) → List Nat
  | [] => []
  | (ident, rule) :: rules =>
      if own rule then if keep rule then [] else ident :: stale own keep rules
      else stale own keep rules

section Rules

variable {panels : Panels} {s t : Site} {u : Unit} {own keep : Rule → Bool} {rule : Rule}
  {ruleset : Ruleset} {marked : List (Nat × Rule)} {ident : Nat}

theorem mem_marked :
    (ident, rule) ∈ s.marked ruleset ↔
      s.rules.get ident = some rule ∧ rule.ruleset = ruleset ∧
        rule.description = description ruleset := by
  simp only [Site.marked, List.mem_filter, decide_eq_true_eq, Dict.get_eq_some_iff, and_assoc]

theorem marked_eq_nil_iff :
    s.marked ruleset = [] ↔
      ∀ r, s.HasRule r → r.ruleset = ruleset → r.description ≠ description ruleset := by
  rw [List.eq_nil_iff_forall_not_mem]
  constructor
  · rintro h r ⟨ident, hget⟩ hruleset hdescription
    exact h (ident, r) (mem_marked.mpr ⟨hget, hruleset, hdescription⟩)
  · rintro h ⟨ident, r⟩ hmem
    rcases mem_marked.mp hmem with ⟨hget, hruleset, hdescription⟩
    exact h r ⟨ident, hget⟩ hruleset hdescription

theorem runs_markedRules
    (h : (markedRules ruleset).Runs (Serves panels) s marked t) :
    marked = s.marked ruleset ∧ t = s := by
  rcases h with ⟨rules, s₁, ⟨rfl, rfl⟩, h⟩
  exact ⟨h.1, h.2⟩

theorem own_of_mem_stale (h : ident ∈ stale own keep marked) :
    ∃ r, (ident, r) ∈ marked ∧ own r = true ∧ keep r = false := by
  induction marked with
  | nil => exact absurd h List.not_mem_nil
  | cons head marked ih =>
      rcases head with ⟨ident', r'⟩
      unfold stale at h
      split at h
      · rename_i hown
        split at h
        · exact absurd h List.not_mem_nil
        · rename_i hkeep
          rcases List.mem_cons.mp h with rfl | h
          · exact ⟨r', List.mem_cons_self, hown, Bool.eq_false_iff.mpr hkeep⟩
          · rcases ih h with ⟨r, hmem, hr⟩
            exact ⟨r, List.mem_cons_of_mem _ hmem, hr⟩
      · rcases ih h with ⟨r, hmem, hr⟩
        exact ⟨r, List.mem_cons_of_mem _ hmem, hr⟩

theorem runs_replaceStale {found : Bool}
    (h : (replaceStale own keep marked).Runs (Serves panels) s found t) :
    (found = true ↔ ∃ r ∈ marked, own r.2 = true ∧ keep r.2 = true) ∧
      ∀ k, t.rules.get k = if k ∈ stale own keep marked then none else s.rules.get k := by
  induction marked generalizing s with
  | nil =>
      rcases h with ⟨rfl, rfl⟩
      simp [stale]
  | cons head marked ih =>
      rcases head with ⟨ident, rule⟩
      unfold replaceStale at h
      unfold stale
      split at h
      · rename_i hown
        split at h
        · rename_i hkeep
          rcases h with ⟨rfl, rfl⟩
          simp [hown, hkeep]
        · rename_i hkeep
          rcases h with ⟨status, s₁, rfl, h⟩
          rcases ih h with ⟨hfound, hrules⟩
          refine ⟨by simp [hfound, hown, hkeep], fun k => ?_⟩
          rw [hrules, if_pos hown, if_neg hkeep]
          simp only [Site.dropRule, Dict.get_erase, List.mem_cons]
          grind
      · rename_i hown
        rcases ih h with ⟨hfound, hrules⟩
        refine ⟨by simp [hfound, hown], fun k => ?_⟩
        rw [hrules, if_neg hown]

theorem runs_createRule (h : (createRule rule).Runs (Serves panels) s u t) :
    s.HasFolder rule.folder ∧
      ∃ ident, s.rules.get ident = none ∧
        ∀ k, t.rules.get k = if k = ident then some rule else s.rules.get k := by
  rcases h with ⟨status, s₁, hpost, h⟩
  rcases runs_expect.mp h with ⟨rfl, rfl⟩
  rcases hpost with ⟨ident, -, hfolder, hfresh, rfl⟩ | ⟨hno, -⟩
  · refine ⟨hfolder, ident, Dict.get_eq_none_iff.mpr hfresh, fun k => ?_⟩
    simp only [Site.setRule, Dict.get_set, eq_comm]
  · exact absurd rfl hno

/-- The rules after a rule is made to exist: some are gone, and the rule is there, under a new
identifier unless one was kept. -/
structure Replaced (gone : List Nat) (kept : Prop) (rule : Rule) (s t : Site) : Prop where
  rules : kept ∧ (∀ k, t.rules.get k = if k ∈ gone then none else s.rules.get k) ∨
    ¬ kept ∧ ∃ ident, (ident ∈ gone ∨ s.rules.get ident = none) ∧
      ∀ k, t.rules.get k =
        if k = ident then some rule else if k ∈ gone then none else s.rules.get k

theorem runs_ensureRule (h : (ensureRule own keep rule).Runs (Serves panels) s u t) :
    Replaced (stale own keep (s.marked rule.ruleset))
      (∃ r ∈ s.marked rule.ruleset, own r.2 = true ∧ keep r.2 = true) rule s t := by
  rcases runs_bind.mp h with ⟨marked, s₁, hmarked, h⟩
  rcases runs_markedRules hmarked with ⟨rfl, rfl⟩
  rcases runs_bind.mp h with ⟨found, s₂, hstale, h⟩
  rcases runs_replaceStale hstale with ⟨hfound, hrules⟩
  constructor
  split at h
  · rename_i htrue
    rcases h with ⟨-, rfl⟩
    exact Or.inl ⟨hfound.mp htrue, hrules⟩
  · rename_i hfalse
    rcases runs_createRule h with ⟨-, ident, hfresh, hnew⟩
    refine Or.inr ⟨fun hkept => hfalse (hfound.mpr hkept), ident, ?_, fun k => ?_⟩
    · rw [hrules] at hfresh
      grind
    · rw [hnew, hrules]

/-- The rules of the root folder that are deleted for a new port. -/
def staleSnmpPort (root : Ident) (port : ℤ) (marked : List (Nat × Rule)) : List Nat :=
  match marked.find? fun r => r.2.folder = root with
  | none => []
  | some r => if r.2.value = .number port then [] else [r.1]

theorem own_of_mem_staleSnmpPort {root : Ident} {port : ℤ}
    (h : ident ∈ staleSnmpPort root port marked) :
    ∃ r, (ident, r) ∈ marked ∧ r.folder = root := by
  unfold staleSnmpPort at h
  split at h
  · exact absurd h List.not_mem_nil
  · rename_i r hfind
    split at h
    · exact absurd h List.not_mem_nil
    · rcases List.mem_singleton.mp h with rfl
      exact ⟨r.2, List.mem_of_find?_eq_some hfind, by simpa using List.find?_some hfind⟩

theorem runs_ensureSnmpPortRule {root : Ident} {port : ℤ}
    (h : (ensureSnmpPortRule root port).Runs (Serves panels) s u t) :
    Replaced (staleSnmpPort root port (s.marked .snmpPorts))
      (∃ r, (s.marked .snmpPorts).find? (fun r => r.2.folder = root) = some r ∧
        r.2.value = .number port) (snmpPortRule root port) s t := by
  rcases runs_bind.mp h with ⟨marked, s₁, hmarked, h⟩
  rcases runs_markedRules hmarked with ⟨rfl, rfl⟩
  constructor
  unfold staleSnmpPort
  split at h
  · rename_i hfind
    rcases runs_createRule h with ⟨-, ident, hfresh, hnew⟩
    rw [hfind]
    exact Or.inr ⟨by simp, ident, Or.inr hfresh, by simpa using hnew⟩
  · rename_i ident rule hfind
    rw [hfind]
    split at h
    · rename_i hvalue
      rcases h with ⟨-, rfl⟩
      exact Or.inl ⟨⟨_, rfl, hvalue⟩, by simp [hvalue]⟩
    · rename_i hvalue
      rcases h with ⟨status, s₂, rfl, h⟩
      rcases runs_createRule h with ⟨-, ident', hfresh, hnew⟩
      refine Or.inr ⟨?_, ident', ?_, fun k => ?_⟩
      · rintro ⟨r, heq, hr⟩
        cases heq
        exact hvalue hr
      · simp only [Site.dropRule, Dict.get_erase] at hfresh
        simp only [hvalue, if_false, List.mem_singleton]
        grind
      · rw [hnew]
        simp only [hvalue, if_false, List.mem_singleton, Site.dropRule, Dict.get_erase]
        grind

section Replaced

variable {gone : List Nat} {kept : Prop}

/-- A rule that is not in the way stays. -/
theorem Replaced.survives (h : Replaced gone kept rule s t) {r : Rule}
    (hget : s.rules.get ident = some r) (hgone : ident ∉ gone) :
    t.rules.get ident = some r := by
  rcases h.rules with ⟨-, hrules⟩ | ⟨-, ident', hfresh, hrules⟩
  · rw [hrules, if_neg hgone, hget]
  · rw [hrules, if_neg, if_neg hgone, hget]
    rintro rfl
    rcases hfresh with hmem | hnone
    · exact hgone hmem
    · simp [hget] at hnone

/-- A rule that is gone is there again only if it is the new one. -/
theorem Replaced.not_kept (h : Replaced gone kept rule s t) (hgone : ident ∈ gone) {r : Rule}
    (hne : r ≠ rule) : t.rules.get ident ≠ some r := by
  rcases h.rules with ⟨-, hrules⟩ | ⟨-, ident', -, hrules⟩
  · simp [hrules, hgone]
  · rw [hrules]
    split
    · exact fun heq => hne (Option.some.inj heq).symm
    · simp

/-- No other rule is added. -/
theorem Replaced.hasRule (h : Replaced gone kept rule s t) {r : Rule} (hr : t.HasRule r) :
    s.HasRule r ∨ r = rule := by
  rcases hr with ⟨ident, hget⟩
  rcases h.rules with ⟨-, hrules⟩ | ⟨-, ident', -, hrules⟩
  · rw [hrules] at hget
    exact Or.inl ⟨ident, by grind⟩
  · rw [hrules] at hget
    by_cases hident : ident = ident'
    · simp only [hident, if_true, Option.some.injEq] at hget
      exact Or.inr hget.symm
    · exact Or.inl ⟨ident, by grind⟩

/-- Where no rule is in the way, exactly the new one is added. -/
theorem Replaced.hasRule_iff (h : Replaced gone kept rule s t) (hgone : gone = [])
    (hkept : ¬ kept) (r : Rule) : t.HasRule r ↔ s.HasRule r ∨ r = rule := by
  refine ⟨h.hasRule, ?_⟩
  rintro (⟨ident, hget⟩ | rfl)
  · exact ⟨ident, h.survives hget (by simp [hgone])⟩
  · rcases h.rules with ⟨hyes, -⟩ | ⟨-, ident, -, hrules⟩
    · exact absurd hyes hkept
    · exact ⟨ident, by simp [hrules]⟩

end Replaced

theorem runs_deleteRules (h : (deleteRules own marked).Runs (Serves panels) s u t) (k : Nat)
    (r : Rule) :
    t.rules.get k = some r ↔
      s.rules.get k = some r ∧ ∀ r' ∈ marked, r'.1 = k → own r'.2 = false := by
  induction marked generalizing s with
  | nil =>
      rcases h with ⟨-, rfl⟩
      simp
  | cons head marked ih =>
      rcases head with ⟨ident, rule⟩
      unfold deleteRules at h
      rw [List.forall_mem_cons]
      split at h
      · rename_i hown
        rcases h with ⟨status, s₁, rfl, h⟩
        rw [ih h, Site.dropRule, Dict.get_erase]
        by_cases hk : ident = k
        · simp [hk, hown]
        · simp [hk]
      · rename_i hown
        rw [ih h]
        simp [hown]

/-- The marked rules that meet the condition are deleted, and no others. -/
theorem runs_deleteOwn (h : (deleteOwn ruleset own).Runs (Serves panels) s u t) (k : Nat)
    (r : Rule) :
    t.rules.get k = some r ↔
      s.rules.get k = some r ∧
        ¬ (r.ruleset = ruleset ∧ r.description = description ruleset ∧ own r = true) := by
  rcases runs_bind.mp h with ⟨marked, s₁, hmarked, h⟩
  rcases runs_markedRules hmarked with ⟨rfl, rfl⟩
  rw [runs_deleteRules h]
  refine and_congr_right fun hget => ?_
  constructor
  · rintro hall ⟨hruleset, hdescription, hown⟩
    have hno := hall (k, r) (mem_marked.mpr ⟨hget, hruleset, hdescription⟩) rfl
    exact absurd hown (by simp [hno])
  · rintro hno ⟨k', r'⟩ hmem rfl
    rcases mem_marked.mp hmem with ⟨hget', hruleset, hdescription⟩
    obtain rfl : r = r' := Option.some.inj (hget.symm.trans hget')
    exact Bool.eq_false_iff.mpr fun hown => hno ⟨hruleset, hdescription, hown⟩

end Rules

/-! ## Business objects -/

/-- The tiers with at least one leaf on a host of the estate. -/
def presentTiers (fqdns : Dict Text Text) (ts : List Tier) : List Tier :=
  ts.filter fun tier => tier.nodes fqdns ≠ []

/-- The calls of the tiers that are present. -/
def tierCalls (fqdns : Dict Text Text) (ts : List Tier) : List BiNode :=
  (presentTiers fqdns ts).map fun tier => .call tier.ident

/-- The business objects of an estate. -/
def biPlan (fqdns : Dict Text Text) : List (BiId × BiBody) :=
  ((.pack, biPackId), .pack biPackTitle) ::
    ((presentTiers fqdns tiers).map fun tier => ((.rule, tier.ident), tier.body fqdns)) ++
    if tierCalls fqdns tiers = [] then []
    else [((.rule, biTopRuleId), topRule (tierCalls fqdns tiers)),
      ((.aggregation, biAggrId), aggregation)]

section Bi

variable {panels : Panels} {s t : Site} {u : Unit} {fqdns : Dict Text Text}

theorem runs_ensureBiObject {ident : BiId} {body : BiBody} {name : Text}
    (h : (ensureBiObject ident body name).Runs (Serves panels) s u t) (k : BiId) :
    t.bi.get k = (s.bi.get k).or (Dict.find [(ident, body)] k) := by
  rcases h with ⟨status, s₁, ⟨hget, rfl⟩, h⟩
  replace h : (if status = 200 then pure () else do
    let status ← call (Request.postBi ident body)
    expect ("creating ".toList ++ name) status :
      Setup Unit).Runs (Serves panels) s₁ u t := h
  split at h
  · rename_i hstatus
    rcases h with ⟨-, rfl⟩
    by_cases hk : ident = k
    · subst hk
      rcases Option.ne_none_iff_exists'.mp (hget.mp hstatus) with ⟨body', hbody'⟩
      simp [hbody']
    · simp [Dict.find, hk]
  · rename_i hstatus
    have hnone : s₁.bi.get ident = none := not_not.mp fun hne => hstatus (hget.mpr hne)
    rcases h with ⟨status', s₂, hpost, h⟩
    rcases runs_expect.mp h with ⟨rfl, rfl⟩
    simp only [Serves, if_pos hnone] at hpost
    rw [hpost.2]
    simp only [Site.setBi, Dict.get_set, Dict.find]
    by_cases hk : ident = k
    · subst hk
      simp [hnone]
    · simp [hk]

theorem runs_ensureTiers {ts : List Tier} {calls : List BiNode}
    (h : (ensureTiers fqdns ts).Runs (Serves panels) s calls t) :
    calls = tierCalls fqdns ts ∧
      ∀ k, t.bi.get k = (s.bi.get k).or
        (Dict.find ((presentTiers fqdns ts).map fun tier =>
          ((.rule, tier.ident), tier.body fqdns)) k) := by
  induction ts generalizing s calls with
  | nil =>
      rcases h with ⟨rfl, rfl⟩
      simp [tierCalls, presentTiers, Dict.find]
  | cons tier ts ih =>
      unfold ensureTiers at h
      split at h
      · rename_i hnodes
        rcases ih h with ⟨rfl, hbi⟩
        have hsame : presentTiers fqdns (tier :: ts) = presentTiers fqdns ts := by
          simp [presentTiers, hnodes]
        exact ⟨by simp only [tierCalls, hsame], by simpa only [hsame] using hbi⟩
      · rename_i hnodes
        rcases runs_bind.mp h with ⟨_, s₁, hfirst, h⟩
        rcases runs_bind.mp h with ⟨rest, s₂, hrest, ⟨rfl, rfl⟩⟩
        rcases ih hrest with ⟨rfl, hbi⟩
        have hsame : presentTiers fqdns (tier :: ts) = tier :: presentTiers fqdns ts := by
          simp [presentTiers, hnodes]
        refine ⟨by simp only [tierCalls, hsame, List.map_cons], fun k => ?_⟩
        rw [hbi, runs_ensureBiObject hfirst, hsame, List.map_cons, Option.or_assoc,
          ← Dict.find_append]
        rfl

/-- After the pack is ensured, every planned object exists that was missing, and no object
has changed. -/
theorem runs_ensureBiPack (h : (ensureBiPack fqdns).Runs (Serves panels) s u t) (k : BiId) :
    t.bi.get k = (s.bi.get k).or (Dict.find (biPlan fqdns) k) := by
  rcases runs_bind.mp h with ⟨_, s₁, hpack, h⟩
  rcases runs_bind.mp h with ⟨calls, s₂, htiers, h⟩
  rcases runs_ensureTiers htiers with ⟨rfl, hbi⟩
  split at h
  · rename_i hcalls
    rcases h with ⟨-, rfl⟩
    rw [hbi, runs_ensureBiObject hpack, Option.or_assoc, ← Dict.find_append, biPlan, if_pos hcalls,
      List.append_nil]
    rfl
  · rename_i hcalls
    rcases runs_bind.mp h with ⟨_, s₃, htop, haggr⟩
    rw [runs_ensureBiObject haggr, runs_ensureBiObject htop, hbi, runs_ensureBiObject hpack]
    simp only [Option.or_assoc, ← Dict.find_append, biPlan, if_neg hcalls, List.append_assoc,
      List.cons_append, List.nil_append]

theorem runs_deleteBi {idents : List BiId} (h : (deleteBi idents).Runs (Serves panels) s u t)
    (k : BiId) : t.bi.get k = if k ∈ idents then none else s.bi.get k := by
  induction idents generalizing s with
  | nil =>
      rcases h with ⟨-, rfl⟩
      simp
  | cons ident idents ih =>
      rcases h with ⟨status, s₁, rfl, h⟩
      rw [ih h]
      simp only [Site.dropBi, Dict.get_erase, List.mem_cons]
      grind

end Bi

end Deploy
end DemoEstate
