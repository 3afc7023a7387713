import DemoEstate.Deploy.Estate

/-!
# The site

The site stores folders, hosts, rules and business objects and serves the REST calls of the
tool as its interface documents them: an object is created where it is missing and its folder
exists, a removal removes, a listing lists.  How long discoveries and activations take, which
services a host has, and whether a host with a missing parent is turned away is left open.

Main definitions:

- Structure {lit}`Site`: the objects of a site.
- Definition {lit}`Serves`: the answers to the calls, with the two panels running.
- Definition {lit}`Answers`: the same, where any call may fail.
- Definition {lit}`serve`: one way to serve the calls, for executions.

Main results:

- Theorem {lit}`runs_of_serve`: an execution under {lit}`serve` is one that {lit}`Serves` allows.
- Theorems {lit}`hosts_eq`, {lit}`folders_eq`, {lit}`rules_eq` and {lit}`bi_eq`: a call that
  does not write to a part of the site leaves it alone.
-/

namespace DemoEstate
namespace Deploy

open Interaction
open Interaction.Program

/-- The objects of a site; the site root is a folder of every site. -/
structure Site where
  folders : List Ident
  hosts : Dict Text HostConfig
  rules : Dict Nat Rule
  bi : Dict BiId BiBody

/-- The hosts that a set of attributes names as parents. -/
def parentNames (attributes : Attributes) : List Text :=
  match attributes .parents with
  | some (.names parents) => parents
  | _ => []

namespace Site

/-- A site without objects. -/
def empty : Site where
  folders := []
  hosts := Dict.empty
  rules := Dict.empty
  bi := Dict.empty

/-- The folder exists. -/
def HasFolder (s : Site) (ident : Ident) : Prop :=
  ident = [] ∨ ident ∈ s.folders

instance (s : Site) (ident : Ident) : Decidable (s.HasFolder ident) :=
  inferInstanceAs (Decidable (_ ∨ _))

/-- The hosts that a set of attributes names as parents exist. -/
def HasParents (s : Site) (attributes : Attributes) : Prop :=
  ∀ p ∈ parentNames attributes, p ∈ s.hosts.keys

instance (s : Site) (attributes : Attributes) : Decidable (s.HasParents attributes) :=
  inferInstanceAs (Decidable (∀ _ ∈ _, _))

/-- Add a folder. -/
def addFolder (s : Site) (ident : Ident) : Site :=
  { s with folders := s.folders ++ [ident] }

/-- Store a host. -/
def setHost (s : Site) (name : Text) (config : HostConfig) : Site :=
  { s with hosts := s.hosts.set name config }

/-- Remove a host. -/
def dropHost (s : Site) (name : Text) : Site :=
  { s with hosts := s.hosts.erase name }

/-- Store a rule. -/
def setRule (s : Site) (ident : Nat) (rule : Rule) : Site :=
  { s with rules := s.rules.set ident rule }

/-- Remove a rule. -/
def dropRule (s : Site) (ident : Nat) : Site :=
  { s with rules := s.rules.erase ident }

/-- Store a business object. -/
def setBi (s : Site) (ident : BiId) (body : BiBody) : Site :=
  { s with bi := s.bi.set ident body }

/-- Remove a business object. -/
def dropBi (s : Site) (ident : BiId) : Site :=
  { s with bi := s.bi.erase ident }

/-- Remove a folder with all that is in it. -/
def dropFolder (s : Site) (root : Ident) : Site :=
  { s with
    folders := s.folders.filter fun f => !root.isPrefixOf f
    hosts := s.hosts.filter fun _ h => !root.isPrefixOf h.folder
    rules := s.rules.filter fun _ r => !root.isPrefixOf r.folder }

/-- A rule identifier that is not in use. -/
def freshRule (s : Site) : Nat :=
  s.rules.keys.foldr (fun ident n => max (ident + 1) n) 0

end Site

/-- Attributes after an update: what the update gives, else what there was. -/
def updated (attributes update : Attributes) : Attributes := fun attr =>
  (update attr).orElse fun _ => attributes attr

/-! ## How calls are answered -/

/-- The answer a site may give to a call, and the site after it, while both panels answer. -/
def Serves (panels : Panels) (s : Site) : (op : Request) → Ans op → Site → Prop
  | .deliveryPanel, ans, t => ans = some panels.delivery ∧ t = s
  | .netsimPanel, ans, t => ans = panels.netsim ∧ t = s
  | .getFolder ident, ans, t => (ans = 200 ↔ s.HasFolder ident) ∧ t = s
  | .postFolder name _ parent, ans, t =>
      if s.HasFolder parent ∧ parent ++ [name] ∉ s.folders then
        ans = 200 ∧ t = s.addFolder (parent ++ [name])
      else ans ≠ 200 ∧ t = s
  | .deleteFolder ident, _, t => t = s.dropFolder ident
  | .getHost name, ans, t => ans = s.hosts.get name ∧ t = s
  | .postHost name folder attributes, ans, t =>
      (ans = 200 ∧ s.hosts.get name = none ∧ s.HasFolder folder ∧
        t = s.setHost name ⟨folder, attributes, Dict.empty⟩) ∨
      (ans ≠ 200 ∧ t = s ∧
        (s.hosts.get name = none → s.HasFolder folder → ¬ s.HasParents attributes))
  | .putHost name update, ans, t =>
      (∃ config, ans = 200 ∧ s.hosts.get name = some config ∧
        t = s.setHost name { config with attributes := updated config.attributes update }) ∨
      (ans ≠ 200 ∧ t = s ∧ (s.hosts.get name ≠ none → ¬ s.HasParents update))
  | .putLabels name labels, ans, t =>
      (∃ config, ans = 200 ∧ s.hosts.get name = some config ∧
        t = s.setHost name { config with labels := labels }) ∨
      (ans ≠ 200 ∧ t = s ∧ s.hosts.get name = none)
  | .listHosts, ans, t => ans = some s.hosts.entries ∧ t = s
  | .deleteHost name, _, t => t = s.dropHost name
  | .listRules ruleset, ans, t =>
      ans = .ok (s.rules.entries.filter fun r => r.2.ruleset = ruleset) ∧ t = s
  | .postRule rule, ans, t =>
      (∃ ident, ans = 200 ∧ s.HasFolder rule.folder ∧ ident ∉ s.rules.keys ∧
        t = s.setRule ident rule) ∨
      (ans ≠ 200 ∧ t = s ∧ ¬ s.HasFolder rule.folder)
  | .deleteRule ident, _, t => t = s.dropRule ident
  | .getBi ident, ans, t => (ans = 200 ↔ s.bi.get ident ≠ none) ∧ t = s
  | .postBi ident body, ans, t =>
      if s.bi.get ident = none then ans = 200 ∧ t = s.setBi ident body else ans ≠ 200 ∧ t = s
  | .deleteBi ident, _, t => t = s.dropBi ident
  | .exit _, _, _ => False
  | _, _, t => t = s

/-- The answers by which a call fails; the panels do not answer, or the status is not the one
of a success. -/
def Fails : (op : Request) → Ans op → Prop
  | .deliveryPanel, ans => ans = none
  | .netsimPanel, ans => ans = none
  | .getHost _, ans => ans = none
  | .listHosts, ans => ans = none
  | .listRules _, ans => ∃ status, ans = .error status
  | .getFolder _, ans | .postFolder _ _ _, ans | .postHost _ _ _, ans | .putHost _ _, ans
  | .putLabels _ _, ans | .postRule _, ans | .getBi _, ans | .postBi _ _, ans => ans ≠ 200
  | .deleteFolder _, ans | .deleteHost _, ans | .deleteRule _, ans | .deleteBi _, ans =>
      ans ≠ 200 ∧ ans ≠ 204
  | _, _ => True

/-- The answer to a call that is served, or that fails and leaves the site as it was. -/
def Answers (panels : Panels) (s : Site) (op : Request) (ans : Ans op) (t : Site) : Prop :=
  Serves panels s op ans t ∨ (Fails op ans ∧ t = s)

/-- A shell without carried hosts, and no netsim panel. -/
def bareShell : Panels where
  delivery :=
    { host := "gateway.demo".toList, domain := "demo".toList, carried := []
      names_nodup := List.nodup_nil, named := fun _ h => absurd h List.not_mem_nil }
  netsim := none
  shell_notMem := List.not_mem_nil
  shell_ne_device := fun _ h => nomatch h
  disjoint := fun _ h => nomatch h

/-- The same shell beside a netsim panel. -/
def bareShellWith (info : Netsim) (h : bareShell.delivery.host ∉ info.fqdns) : Panels where
  delivery := bareShell.delivery
  netsim := some info
  shell_notMem := List.not_mem_nil
  shell_ne_device := by simpa using h
  disjoint := fun _ _ _ h => absurd h List.not_mem_nil

/-- A self-hosted estate in the folder `demo`. -/
def demoArgs : Args where
  mode := .selfHosted
  snmp := .auto
  folder := "demo".toList
  agentIp := "127.0.0.1".toList
  agentPort := 6559
  agentOutputDir := "/var/tmp/out".toList
  force := false
  forceForeign := false
  cloud_off := fun h => nomatch h

/-- A site whose asynchronous runs end at once and whose hosts have no services yet; a strict
one turns a host away whose parents do not exist. -/
def serve (panels : Panels) (strict : Bool) : Handler Site Request Ans
  | s, .deliveryPanel => some (some panels.delivery, s)
  | s, .netsimPanel => some (panels.netsim, s)
  | s, .healHost _ | s, .healDevice _ | s, .beforeDeadline => some (true, s)
  | s, .getFolder ident => some (if s.HasFolder ident then 200 else 404, s)
  | s, .postFolder name _ parent =>
      if s.HasFolder parent ∧ parent ++ [name] ∉ s.folders then
        some (200, s.addFolder (parent ++ [name]))
      else some (400, s)
  | s, .deleteFolder ident => some (204, s.dropFolder ident)
  | s, .getHost name => some (s.hosts.get name, s)
  | s, .postHost name folder attributes =>
      if s.hosts.get name = none ∧ s.HasFolder folder ∧
          (strict = true → s.HasParents attributes) then
        some (200, s.setHost name ⟨folder, attributes, Dict.empty⟩)
      else some (400, s)
  | s, .putHost name update =>
      match s.hosts.get name with
      | some config =>
          if strict = true → s.HasParents update then
            some (200, s.setHost name { config with
              attributes := updated config.attributes update })
          else some (400, s)
      | none => some (404, s)
  | s, .putLabels name labels =>
      match s.hosts.get name with
      | some config => some (200, s.setHost name { config with labels := labels })
      | none => some (404, s)
  | s, .listHosts => some (some s.hosts.entries, s)
  | s, .deleteHost name => some (204, s.dropHost name)
  | s, .listRules ruleset =>
      some (.ok (s.rules.entries.filter fun r => r.2.ruleset = ruleset), s)
  | s, .postRule rule =>
      if s.HasFolder rule.folder then some (200, s.setRule s.freshRule rule)
      else some (400, s)
  | s, .deleteRule ident => some (204, s.dropRule ident)
  | s, .getBi ident => some (if s.bi.get ident = none then 404 else 200, s)
  | s, .postBi ident body =>
      if s.bi.get ident = none then some (200, s.setBi ident body) else some (409, s)
  | s, .deleteBi ident => some (204, s.dropBi ident)
  | s, .getDiscovery _ => some (some [], s)
  | s, .startDiscovery _ _ => some (200, s)
  | s, .waitDiscovery _ | s, .waitActivation _ => some (204, s)
  | s, .startBulkDiscovery _ => some ((200, none), s)
  | s, .getJob _ => some (some false, s)
  | s, .activateChanges _ => some ((200, some "1".toList), s)
  | _, .exit _ => none

theorem freshRule_notMem (s : Site) : s.freshRule ∉ s.rules.keys := by
  have hlt : ∀ (ks : List Nat) (k : Nat), k ∈ ks →
      k < ks.foldr (fun ident n => max (ident + 1) n) 0 := by
    intro ks
    induction ks with
    | nil => simp
    | cons k' ks ih =>
        intro k hk
        simp only [List.foldr_cons]
        rcases List.mem_cons.mp hk with rfl | hk
        · omega
        · have hrest := ih k hk
          omega
  intro hmem
  exact absurd (hlt s.rules.keys s.freshRule hmem) (lt_irrefl _)

/-- What the executable site does is one of the answers a site may give. -/
theorem serves_of_serve {panels : Panels} {strict : Bool} {s t : Site} {op : Request} {ans : Ans op}
    (h : serve panels strict s op = some (ans, t)) : Serves panels s op ans t := by
  cases op with
  | postFolder name title parent =>
      simp only [serve] at h
      simp only [Serves]
      split at h
      · rename_i hok
        simp only [Option.some.injEq, Prod.mk.injEq] at h
        rw [if_pos hok]
        exact ⟨h.1.symm, h.2.symm⟩
      · rename_i hno
        simp only [Option.some.injEq, Prod.mk.injEq] at h
        rw [if_neg hno]
        exact ⟨by simp [← h.1], h.2.symm⟩
  | postHost name folder attributes =>
      simp only [serve] at h
      split at h
      · rename_i hok
        simp only [Option.some.injEq, Prod.mk.injEq] at h
        exact Or.inl ⟨h.1.symm, hok.1, hok.2.1, h.2.symm⟩
      · rename_i hno
        simp only [Option.some.injEq, Prod.mk.injEq] at h
        refine Or.inr ⟨?_, h.2.symm, fun h₁ h₂ h₃ => hno ⟨h₁, h₂, fun _ => h₃⟩⟩
        simp [← h.1]
  | putHost name update =>
      simp only [serve] at h
      split at h
      · rename_i config hget
        split at h
        · simp only [Option.some.injEq, Prod.mk.injEq] at h
          exact Or.inl ⟨config, h.1.symm, hget, h.2.symm⟩
        · rename_i hno
          simp only [Option.some.injEq, Prod.mk.injEq] at h
          exact Or.inr ⟨by simp [← h.1], h.2.symm, fun _ hparents => hno fun _ => hparents⟩
      · rename_i hget
        simp only [Option.some.injEq, Prod.mk.injEq] at h
        exact Or.inr ⟨by simp [← h.1], h.2.symm, fun hne => absurd hget hne⟩
  | putLabels name labels =>
      simp only [serve] at h
      split at h
      · rename_i config hget
        simp only [Option.some.injEq, Prod.mk.injEq] at h
        exact Or.inl ⟨config, h.1.symm, hget, h.2.symm⟩
      · rename_i hget
        simp only [Option.some.injEq, Prod.mk.injEq] at h
        exact Or.inr ⟨by simp [← h.1], h.2.symm, hget⟩
  | postRule rule =>
      simp only [serve] at h
      split at h
      · rename_i hfolder
        simp only [Option.some.injEq, Prod.mk.injEq] at h
        exact Or.inl ⟨s.freshRule, h.1.symm, hfolder, freshRule_notMem s, h.2.symm⟩
      · rename_i hfolder
        simp only [Option.some.injEq, Prod.mk.injEq] at h
        exact Or.inr ⟨by simp [← h.1], h.2.symm, hfolder⟩
  | postBi ident body =>
      simp only [serve] at h
      simp only [Serves]
      split at h
      · rename_i hok
        simp only [Option.some.injEq, Prod.mk.injEq] at h
        rw [if_pos hok]
        exact ⟨h.1.symm, h.2.symm⟩
      · rename_i hno
        simp only [Option.some.injEq, Prod.mk.injEq] at h
        rw [if_neg hno]
        exact ⟨by simp [← h.1], h.2.symm⟩
  | getFolder ident =>
      simp only [serve, Option.some.injEq, Prod.mk.injEq] at h
      rcases h with ⟨rfl, rfl⟩
      refine ⟨?_, rfl⟩
      split <;> simp [*]
  | getBi ident =>
      simp only [serve, Option.some.injEq, Prod.mk.injEq] at h
      rcases h with ⟨rfl, rfl⟩
      refine ⟨?_, rfl⟩
      split <;> simp [*]
  | exit error => simp [serve] at h
  | _ =>
      simp only [serve, Option.some.injEq, Prod.mk.injEq] at h
      simp [Serves, ← h.1, ← h.2]

/-- An execution on that site is one that a site may allow. -/
theorem runs_of_serve {α : Type} {panels : Panels} {strict : Bool} {p : Setup α} {s t : Site} {a : α}
    (h : p.run (serve panels strict) s = some (a, t)) : p.Runs (Serves panels) s a t :=
  (runs_of_run h).mono fun _ _ _ _ => serves_of_serve

theorem exists_runs {panels : Panels} (strict : Bool) {p : Setup Unit} {s : Site}
    (h : (p.run (serve panels strict) s).isSome = true) : ∃ t, p.Runs (Serves panels) s () t := by
  rcases Option.isSome_iff_exists.mp h with ⟨⟨_, t⟩, hrun⟩
  exact ⟨t, runs_of_serve hrun⟩

/-! ## Which calls write to which part -/

/-- The parts of a site; the labels of the hosts count apart from the hosts.  What the site has
activated is no object of it. -/
inductive Part where
  | folders
  | hosts
  | labels
  | rules
  | bi
  | running
deriving DecidableEq

/-- The parts a call may write to. -/
def Request.touches : Request → List Part
  | .postFolder _ _ _ => [.folders]
  | .deleteFolder _ => [.folders, .hosts, .rules]
  | .postHost _ _ _ | .putHost _ _ | .deleteHost _ => [.hosts]
  | .putLabels _ _ => [.labels]
  | .postRule _ | .deleteRule _ => [.rules]
  | .postBi _ _ | .deleteBi _ => [.bi]
  | .activateChanges _ => [.running]
  | _ => []

section Parts

variable {panels : Panels} {s t : Site} {op : Request} {ans : Ans op}

theorem folders_eq (h : Serves panels s op ans t) (hop : Part.folders ∉ op.touches) :
    t.folders = s.folders := by
  cases op <;> simp only [Serves, Request.touches] at h hop <;> grind [Site.setHost,
    Site.dropHost, Site.setRule, Site.dropRule, Site.setBi, Site.dropBi]

theorem hosts_eq (h : Serves panels s op ans t) (hop : Part.hosts ∉ op.touches)
    (hlabels : Part.labels ∉ op.touches) : t.hosts = s.hosts := by
  cases op <;> simp only [Serves, Request.touches] at h hop hlabels <;> grind [Site.addFolder,
    Site.setRule, Site.dropRule, Site.setBi, Site.dropBi]

theorem rules_eq (h : Serves panels s op ans t) (hop : Part.rules ∉ op.touches) :
    t.rules = s.rules := by
  cases op <;> simp only [Serves, Request.touches] at h hop <;> grind [Site.addFolder,
    Site.setHost, Site.dropHost, Site.setBi, Site.dropBi]

theorem bi_eq (h : Serves panels s op ans t) (hop : Part.bi ∉ op.touches) : t.bi = s.bi := by
  cases op <;> simp only [Serves, Request.touches] at h hop <;> grind [Site.addFolder,
    Site.setHost, Site.dropHost, Site.setRule, Site.dropRule, Site.dropFolder]

end Parts

end Deploy
end DemoEstate
