import Mathlib.Data.List.DropRight
import DemoEstate.Deploy.Objects
import DemoEstate.Library.Program

/-!
# The calls that create the objects of an estate

Every call of the tool is an operation: a read of a panel, a REST call to the site, a look at
the clock, and the exit with an error.  The functions of this module make the folders, the
hosts, the rules and the business aggregation exist, or remove them.

Main definitions:

- Definition {lit}`Request`: the operations with their arguments.
- Definition {lit}`ensureHost`: create a host, or reconcile its managed attributes.
- Definition {lit}`ensureRule`: the common part of the functions that make a rule exist.
- Definition {lit}`ensureBiPack`: create the business objects that are missing.
-/

namespace DemoEstate
namespace Deploy

open Interaction
open Interaction.Program

/-- An HTTP status. -/
abbrev Status := Nat

/-- The errors that end the tool. -/
inductive Failure where
  | panelUnreachable
  | childrenNotUp (names : List Text)
  | healing (name : Text)
  | netsimRequired
  | api (what : Text) (status : Status)
  | discovery (host : Text) (status : Status)
  | bulkDiscovery
  | activation (status : Status)

/-- What the tool asks of the panels, of the site and of the clock. -/
inductive Request where
  | deliveryPanel
  | healHost (name : Text)
  | netsimPanel
  | healDevice (short : Text)
  | getFolder (ident : Ident)
  | postFolder (name title : Text) (parent : Ident)
  | deleteFolder (ident : Ident)
  | getHost (name : Text)
  | postHost (name : Text) (folder : Ident) (attributes : Attributes)
  | putHost (name : Text) (update : Attributes)
  | putLabels (name : Text) (labels : Dict Text Text)
  | listHosts
  | deleteHost (name : Text)
  | listRules (ruleset : Ruleset)
  | postRule (rule : Rule)
  | deleteRule (ident : Nat)
  | getBi (ident : BiId)
  | postBi (ident : BiId) (body : BiBody)
  | deleteBi (ident : BiId)
  | getDiscovery (host : Text)
  | startDiscovery (host mode : Text)
  | waitDiscovery (host : Text)
  | startBulkDiscovery (hosts : List Text)
  | getJob (ident : Text)
  | activateChanges (forceForeign : Bool)
  | waitActivation (run : Text)
  | beforeDeadline
  | exit (error : Failure)

/-- The answers: a status, and what the tool reads of the payload. -/
abbrev Ans : Request → Type
  | .deliveryPanel => Option Delivery
  | .netsimPanel => Option Netsim
  | .healHost _ | .healDevice _ | .beforeDeadline => Bool
  | .getHost _ => Option HostConfig
  | .listHosts => Option (List (Text × HostConfig))
  | .listRules _ => Except Status (List (Nat × Rule))
  | .getDiscovery _ => Option (List Text)
  | .startBulkDiscovery _ | .activateChanges _ => Status × Option Text
  | .getJob _ => Option Bool
  | .exit _ => Empty
  | _ => Status

/-- A part of the tool. -/
abbrev Setup (α : Type) := Program Request Ans α

/-- End the tool with an error. -/
def die {α : Type} (error : Failure) : Setup α :=
  ask (.exit error) fun never => nomatch never

/-- `api_error`, for a status other than the expected one. -/
def expect (what : Text) (status : Status) : Setup Unit :=
  if status = 200 then pure () else die (.api what status)

/-! ## Folders -/

/-- `ensure_folder`. -/
def ensureFolder (ident : Ident) (title : Text) (parent : Ident) : Setup Unit :=
  match ident.getLast? with
  | none => pure ()
  | some name => do
      let status ← call (.getFolder ident)
      if status = 200 then pure ()
      else do
        let status ← call (.postFolder name title parent)
        expect ("creating folder ".toList ++ ident.text) status

/-- `ensure_folder_chain`, which returns the leaf folder. -/
def ensureFolderChain (parent : Ident) : List (Text × Text) → Setup Ident
  | [] => pure parent
  | (name, title) :: chain => do
      ensureFolder (parent ++ [name]) title parent
      ensureFolderChain (parent ++ [name]) chain

/-- `leaf_for`: the leaf folder of a role, created when the role is first asked for. -/
def leafFor (root : Ident) (leaf : Dict Role Ident) (role : Role) :
    Setup (Ident × Dict Role Ident) :=
  match leaf.get role with
  | some ident => pure (ident, leaf)
  | none => do
      let ident ← ensureFolderChain root role.chain
      pure (ident, leaf.set role ident)

/-! ## Hosts -/

/-- The managed attributes that are given and differ from the current ones. -/
def fixes (attributes current : Attributes) : Attributes := fun attr =>
  if attr ∈ managed ∧ attributes attr ≠ none ∧ current attr ≠ attributes attr then
    attributes attr
  else none

/-- `ensure_host`. -/
def ensureHost (name : Text) (folder : Ident) (attributes : Attributes) : Setup Unit := do
  let existing : Option HostConfig ← call (Request.getHost name)
  match existing with
  | none => do
      let status ← call (.postHost name folder attributes)
      expect ("creating host ".toList ++ name) status
  | some existing =>
      if managed.any fun attr => (fixes attributes existing.attributes attr).isSome then do
        let status ← call (.putHost name (fixes attributes existing.attributes))
        expect ("updating attributes of ".toList ++ name) status
      else pure ()

/-- `_in_subtree`: a folder is the estate root or below it. -/
def inSubtree (folder root : Ident) : Bool :=
  root ≠ [] && root.isPrefixOf folder

/-- Delete hosts one after the other; what the site answers does not matter. -/
def deleteHosts : List Text → Setup Unit
  | [] => pure ()
  | name :: names => do
      let _ ← call (.deleteHost name)
      deleteHosts names

/-- The hosts of a listing under a root folder. -/
def underRoot (root : Ident) (hosts : List (Text × HostConfig)) : List Text :=
  (hosts.filter fun h => inSubtree h.2.folder root).map Prod.fst

/-- `prune_subtree`. -/
def pruneSubtree (root : Ident) (keep : List Text) : Setup Unit :=
  if root = [] then pure ()
  else do
    let hosts : Option (List (Text × HostConfig)) ← call Request.listHosts
    match hosts with
    | none => pure ()
    | some hosts => deleteHosts ((underRoot root hosts).filter (· ∉ keep))

/-! ## Rules -/

/-- `_marked_rules`: the rules of a ruleset that carry its marker description. -/
def markedRules (ruleset : Ruleset) : Setup (List (Nat × Rule)) := do
  let rules : Except Status (List (Nat × Rule)) ← call (Request.listRules ruleset)
  match rules with
  | .error status => die (.api ("listing ".toList ++ ruleset.key ++ " rules".toList) status)
  | .ok rules => pure (rules.filter fun r => r.2.description = description ruleset)

/-- Create a rule with the marker description of its ruleset. -/
def createRule (rule : Rule) : Setup Unit := do
  let status ← call (.postRule rule)
  expect ("creating ".toList ++ rule.ruleset.rule) status

/-- Go through marked rules: skip those of others, stop at one to keep, and delete the rest.
The result says whether there was one to keep. -/
def replaceStale (own keep : Rule → Bool) : List (Nat × Rule) → Setup Bool
  | [] => pure false
  | (ident, rule) :: rules =>
      if own rule then
        if keep rule then pure true
        else do
          let _ ← call (.deleteRule ident)
          replaceStale own keep rules
      else replaceStale own keep rules

/-- Make a rule exist: keep one that serves, replace the own ones that do not. -/
def ensureRule (own keep : Rule → Bool) (rule : Rule) : Setup Unit := do
  let marked ← markedRules rule.ruleset
  let found ← replaceStale own keep marked
  if found then pure () else createRule rule

/-- The rule for the agent port of the shell. -/
def portRule (deliveryHost : Text) (port : ℤ) : Rule where
  ruleset := .agentPorts
  folder := []
  description := description .agentPorts
  value := .number port
  hosts := [deliveryHost]

/-- `ensure_port_rule`. -/
def ensurePortRule (deliveryHost : Text) (port : ℤ) : Setup Unit :=
  ensureRule (fun r => r.hosts = [deliveryHost]) (fun r => r.value = .number port)
    (portRule deliveryHost port)

/-- The rule for the hosts with stored walks. -/
def usewalkRule (fqdns : List Text) : Rule where
  ruleset := .usewalkHosts
  folder := []
  description := description .usewalkHosts
  value := .yes
  hosts := sorted fqdns

/-- `ensure_usewalk_rule`: every marked rule counts as an own one. -/
def ensureUsewalkRule (fqdns : List Text) : Setup Unit :=
  ensureRule (fun _ => true) (fun r => sorted r.hosts = sorted fqdns) (usewalkRule fqdns)

/-- The rule for the shared SNMP port. -/
def snmpPortRule (root : Ident) (port : ℤ) : Rule where
  ruleset := .snmpPorts
  folder := root
  description := description .snmpPorts
  value := .number port
  hosts := []

/-- `ensure_snmp_port_rule`: only the first rule of the root folder is looked at. -/
def ensureSnmpPortRule (root : Ident) (port : ℤ) : Setup Unit := do
  let marked ← markedRules .snmpPorts
  match marked.find? fun r => r.2.folder = root with
  | none => createRule (snmpPortRule root port)
  | some (ident, rule) =>
      if rule.value = .number port then pure ()
      else do
        let _ ← call (.deleteRule ident)
        createRule (snmpPortRule root port)

/-- `_datasource_command`. -/
def datasourceCommand (agentOutputDir : Text) : Text :=
  "cat ".toList ++ agentOutputDir.rdropWhile (· = '/') ++ "/$HOSTNAME$".toList

/-- The rule for the program that reads the agent output. -/
def datasourceRule (root : Ident) (agentOutputDir : Text) : Rule where
  ruleset := .datasourcePrograms
  folder := root
  description := description .datasourcePrograms
  value := .quoted (datasourceCommand agentOutputDir)
  hosts := []

/-- `ensure_datasource_rule`. -/
def ensureDatasourceRule (root : Ident) (agentOutputDir : Text) : Setup Unit :=
  ensureRule (fun r => r.folder = root)
    (fun r => r.value = .quoted (datasourceCommand agentOutputDir))
    (datasourceRule root agentOutputDir)

/-- The rule for the units without residual-current sensors. -/
def residualCurrentRule (root : Ident) : Rule where
  ruleset := .residualCurrent
  folder := root
  description := description .residualCurrent
  value := .residualDefaultsOff
  hosts := []

/-- `ensure_residual_current_rule`. -/
def ensureResidualCurrentRule (root : Ident) : Setup Unit :=
  ensureRule (fun r => r.folder = root) (fun _ => true) (residualCurrentRule root)

/-- The rule for the special agent of the shell. -/
def biServiceRule (deliveryHost : Text) : Rule where
  ruleset := .specialAgentsBi
  folder := []
  description := description .specialAgentsBi
  value := .aggregations [biAggrTitle]
  hosts := [deliveryHost]

/-- `ensure_bi_service_rule`. -/
def ensureBiServiceRule (deliveryHost : Text) : Setup Unit :=
  ensureRule (fun r => r.hosts = [deliveryHost]) (fun _ => true) (biServiceRule deliveryHost)

/-- Delete the rules of a list that meet a condition. -/
def deleteRules (own : Rule → Bool) : List (Nat × Rule) → Setup Unit
  | [] => pure ()
  | (ident, rule) :: rules =>
      if own rule then do
        let _ ← call (.deleteRule ident)
        deleteRules own rules
      else deleteRules own rules

/-- Delete the marked rules of a ruleset that meet a condition. -/
def deleteOwn (ruleset : Ruleset) (own : Rule → Bool) : Setup Unit := do
  let marked ← markedRules ruleset
  deleteRules own marked

/-- `delete_residual_current_rule`. -/
def deleteResidualCurrentRule (root : Ident) : Setup Unit :=
  deleteOwn .residualCurrent fun r => r.folder = root

/-- `delete_snmp_access_rules`. -/
def deleteSnmpAccessRules (root : Ident) : Setup Unit := do
  deleteOwn .snmpCommunities fun r => r.folder = root
  deleteOwn .snmpPorts fun r => r.folder = root

/-- `delete_datasource_rule`. -/
def deleteDatasourceRule (root : Ident) : Setup Unit :=
  deleteOwn .datasourcePrograms fun r => r.folder = root

/-- `_delete_marked_rules`. -/
def deleteMarkedRules (ruleset : Ruleset) (estateHosts : List Text) : Setup Unit :=
  deleteOwn ruleset fun r => r.hosts ≠ [] && r.hosts.all fun h => h ∈ estateHosts

/-! ## Business aggregations -/

/-- `_ensure_bi_object`. -/
def ensureBiObject (ident : BiId) (body : BiBody) (name : Text) : Setup Unit := do
  let status ← call (.getBi ident)
  if status = 200 then pure ()
  else do
    let status ← call (.postBi ident body)
    expect ("creating ".toList ++ name) status

/-- The nodes of a tier: its leaves on hosts of the estate. -/
def Tier.nodes (fqdnByShort : Dict Text Text) (tier : Tier) : List BiNode :=
  tier.leaves.filterMap fun leaf => (fqdnByShort.get leaf.1).map fun fqdn => .leaf fqdn leaf.2

/-- The rule of a tier. -/
def Tier.body (fqdnByShort : Dict Text Text) (tier : Tier) : BiBody :=
  .rule tier.ident biPackId tier.title (tier.nodes fqdnByShort)

/-- The tier rules with at least one node; the result calls them. -/
def ensureTiers (fqdnByShort : Dict Text Text) : List Tier → Setup (List BiNode)
  | [] => pure []
  | tier :: rest =>
      if tier.nodes fqdnByShort = [] then ensureTiers fqdnByShort rest
      else do
        ensureBiObject (.rule, tier.ident) (tier.body fqdnByShort)
          ("BI rule ".toList ++ tier.title)
        let calls ← ensureTiers fqdnByShort rest
        pure (.call tier.ident :: calls)

/-- The top rule over the called tiers. -/
def topRule (calls : List BiNode) : BiBody :=
  .rule biTopRuleId biPackId biAggrTitle calls

/-- The aggregation of the top rule. -/
def aggregation : BiBody :=
  .aggregation biAggrId biPackId [biGroup] (.call biTopRuleId)

/-- `ensure_bi_pack`. -/
def ensureBiPack (fqdnByShort : Dict Text Text) : Setup Unit := do
  ensureBiObject (.pack, biPackId) (.pack biPackTitle) ("BI pack ".toList ++ biPackId)
  let calls ← ensureTiers fqdnByShort tiers
  if calls = [] then pure ()
  else do
    ensureBiObject (.rule, biTopRuleId) (topRule calls) ("BI rule ".toList ++ biAggrTitle)
    ensureBiObject (.aggregation, biAggrId) aggregation
      ("BI aggregation ".toList ++ biAggrTitle)

/-- The business objects of the tool, in the order of their removal. -/
def biObjects : List BiId :=
  [(.aggregation, biAggrId), (.rule, biTopRuleId)] ++
    tiers.map (fun tier => (BiKind.rule, tier.ident)) ++ [(.pack, biPackId)]

/-- Delete business objects one after the other; what the site answers does not matter. -/
def deleteBi : List BiId → Setup Unit
  | [] => pure ()
  | ident :: idents => do
      let _ ← call (.deleteBi ident)
      deleteBi idents

/-- `delete_bi_objects`. -/
def deleteBiObjects : Setup Unit :=
  deleteBi biObjects

end Deploy
end DemoEstate
