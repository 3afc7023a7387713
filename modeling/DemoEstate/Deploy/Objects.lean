import Mathlib.Data.Char
import Mathlib.Data.List.Lex
import Mathlib.Data.List.Sort
import Mathlib.Order.Nat
import DemoEstate.Library.Dict
import DemoEstate.Library.Text

/-!
# The objects of a deployment

What the two control panels report, what the deployment tool is told on its command line,
and the objects it creates in the site: folders, hosts, rules and business aggregations.

Main definitions:

- Definition {lit}`folderSegs`: a folder path in any notation, as its segments.
- Definition {lit}`Role.chain`: the folders of a role below the root folder of the estate.
- Structure {lit}`Panels`: the answers of both panels, with names that tell hosts apart.
- Definition {lit}`tiers`: the tiers of the business aggregation with their leaves.
-/

namespace DemoEstate
namespace Deploy

/-- Sorted in the order of the code points. -/
def sorted (names : List Text) : List Text :=
  names.insertionSort (· ≤ ·)

/-- The part of a host name before the first dot. -/
def label (fqdn : Text) : Text :=
  (Text.cut '.' fqdn).1

/-- An optional text that counts as given: an empty one does not. -/
def given (t : Option Text) : Option Text :=
  t.filter (· ≠ [])

/-! ## Folders -/

/-- A folder by its segments below the site root, which is the empty list. -/
abbrev Ident := List Text

/-- A folder path in any notation. -/
def folderSegs (folder : Text) : Ident :=
  (folder.splitOnP fun c => c = '~' ∨ c = '/').filter (· ≠ [])

/-- The notation of the REST API, with `~` for the root and between segments. -/
def Ident.text (ident : Ident) : Text :=
  if ident = [] then ['~'] else ident.flatMap fun seg => '~' :: seg

/-- The folder roles. -/
inductive Role where
  | applications
  | databases
  | storage
  | infrastructure
  | virtualization
  | windows
  | printers
  | mgmt
  | netSwitches
  | netRouters
  | netFirewalls
  | netLoadbalancers
  | netWifi
  | netUps
  | network
deriving DecidableEq

/-- The taxonomy key of a role. -/
def Role.key : Role → Text
  | .applications => "applications".toList
  | .databases => "databases".toList
  | .storage => "storage".toList
  | .infrastructure => "infrastructure".toList
  | .virtualization => "virtualization".toList
  | .windows => "windows".toList
  | .printers => "printers".toList
  | .mgmt => "mgmt".toList
  | .netSwitches => "net_switches".toList
  | .netRouters => "net_routers".toList
  | .netFirewalls => "net_firewalls".toList
  | .netLoadbalancers => "net_loadbalancers".toList
  | .netWifi => "net_wifi".toList
  | .netUps => "net_ups".toList
  | .network => "network".toList

/-- All roles, in the order of the taxonomy. -/
def Role.all : List Role :=
  [.applications, .databases, .storage, .infrastructure, .virtualization, .windows, .printers,
    .mgmt, .netSwitches, .netRouters, .netFirewalls, .netLoadbalancers, .netWifi, .netUps,
    .network]

/-- The role a panel names, if the taxonomy has it. -/
def Role.find (role : Option Text) : Option Role :=
  role.bind fun key => Role.all.find? fun r => r.key = key

/-- The folder of the network gear. -/
def networkFolder : Text × Text :=
  ("network".toList, "Network".toList)

/-- `FOLDER_TAXONOMY`: the names and titles of the folders of a role, outermost first. -/
def Role.chain : Role → List (Text × Text)
  | .applications => [("applications".toList, "Applications".toList)]
  | .databases => [("databases".toList, "Databases".toList)]
  | .storage => [("storage".toList, "Storage".toList)]
  | .infrastructure => [("infrastructure".toList, "Infrastructure".toList)]
  | .virtualization => [("virtualization".toList, "Hypervisors".toList)]
  | .windows => [("windows".toList, "Windows servers".toList)]
  | .printers => [("printers".toList, "Printers".toList)]
  | .mgmt => [("oob".toList, "Out-of-band management".toList)]
  | .netSwitches => [networkFolder, ("switches".toList, "Switches".toList)]
  | .netRouters => [networkFolder, ("routers".toList, "Routers & WAN".toList)]
  | .netFirewalls => [networkFolder, ("firewalls".toList, "Firewalls".toList)]
  | .netLoadbalancers => [networkFolder, ("loadbalancers".toList, "Load balancers".toList)]
  | .netWifi => [networkFolder, ("wireless".toList, "Wireless".toList)]
  | .netUps => [networkFolder, ("ups".toList, "UPS & power".toList)]
  | .network => [networkFolder]

/-- The leaf folder of a role under a root folder. -/
def Role.leaf (root : Ident) (role : Role) : Ident :=
  root ++ role.chain.map Prod.fst

/-- The name prefixes of the agent hosts with their roles. -/
def agentRolePrefixes : List (Text × Role) :=
  [("web-frontend".toList, .applications), ("payment-api".toList, .applications),
    ("app-worker".toList, .applications), ("app-redis".toList, .applications),
    ("db-postgres".toList, .databases), ("fileserver".toList, .storage),
    ("backup".toList, .storage), ("mail-relay".toList, .infrastructure),
    ("win-dc".toList, .windows)]

/-- The role of an agent host by its short name. -/
def agentRole (short : Text) : Role :=
  match agentRolePrefixes.find? fun p => p.1.isPrefixOf short with
  | some p => p.2
  | none => .infrastructure

/-- The role of an SNMP device by its short name. -/
def snmpRole (short : Text) : Role :=
  if "sw-".toList.isPrefixOf short then .netSwitches
  else if ["wan".toList, "router".toList, "rtr".toList].any (·.isPrefixOf short) then .netRouters
  else if "ups".toList.isPrefixOf short then .netUps
  else .network

/-! ## What the panels report -/

/-- A host the delivery shell carries. -/
structure Carried where
  name : Text
  fqdn : Text
  parent : Option Text
  role : Option Text
  state : Option Text
  actions : List Text
deriving DecidableEq

/-- The role the panel delivers, or else the one of the short name. -/
def hostRole (h : Carried) : Role :=
  (Role.find h.role).getD (agentRole h.name)

/-- An SNMP device as the netsim panel reports it. -/
structure Device where
  fqdn : Text
  parent : Option Text
  role : Option Text
  community : Option Text
  state : Text
  incident : Bool
deriving DecidableEq

/-- The answer of the delivery panel.  A carried host is known to the site by its name in the
domain of the estate. -/
structure Delivery where
  host : Text
  domain : Text
  carried : List Carried
  names_nodup : (carried.map Carried.name).Nodup
  named : ∀ h ∈ carried, '.' ∉ h.name ∧ h.fqdn = h.name ++ '.' :: domain

/-- The answer of the netsim panel.  A device is known to the site by its short name in the
domain of the devices, which the panel does not report. -/
structure Netsim where
  domain : Text
  devices : Dict Text Device
  live : Bool
  snmpPort : Option ℤ
  named : ∀ e ∈ devices.entries, e.1 ≠ [] ∧ '.' ∉ e.1 ∧ e.2.fqdn = e.1 ++ '.' :: domain

/-- The fully qualified names of the carried hosts. -/
def Delivery.fqdns (info : Delivery) : List Text :=
  info.carried.map Carried.fqdn

theorem nodup_fqdns (info : Delivery) : info.fqdns.Nodup := by
  apply List.Nodup.map_on _ (List.Nodup.of_map _ info.names_nodup)
  intro h hh h' hh' heq
  have hname : h.name = h'.name := by
    rw [(info.named h hh).2, (info.named h' hh').2] at heq
    exact List.append_cancel_right heq
  exact List.inj_on_of_nodup_map info.names_nodup hh hh' hname

/-- The fully qualified names of the devices. -/
def Netsim.fqdns (info : Netsim) : List Text :=
  info.devices.entries.map fun e => e.2.fqdn

/-- The answers of both panels; the netsim panel may not be running.  The shell, the carried
hosts and the devices are different hosts. -/
structure Panels where
  delivery : Delivery
  netsim : Option Netsim
  shell_notMem : delivery.host ∉ delivery.fqdns
  shell_ne_device : ∀ info ∈ netsim, delivery.host ∉ info.fqdns
  disjoint : ∀ info ∈ netsim, ∀ f ∈ delivery.fqdns, f ∉ info.fqdns

/-! ## What the tool is told -/

/-- The deployment modes. -/
inductive Mode where
  | selfHosted
  | cloud
deriving DecidableEq

/-- Whether the SNMP devices are deployed. -/
inductive SnmpChoice where
  | auto
  | on
  | off
deriving DecidableEq

/-- The arguments as `main` passes them on: a cloud site has no SNMP layer. -/
structure Args where
  mode : Mode
  snmp : SnmpChoice
  folder : Text
  agentIp : Text
  agentPort : ℤ
  agentOutputDir : Text
  force : Bool
  forceForeign : Bool
  cloud_off : mode = .cloud → snmp = .off

/-- The root folder of the estate. -/
def Args.root (args : Args) : Ident :=
  folderSegs args.folder

/-! ## Hosts -/

/-- The host attributes the tool writes. -/
inductive Attr where
  | parents
  | tagAgent
  | tagPiggyback
  | tagAddressFamily
  | ipaddress
  | snmpCommunity
  | tagSnmpDs
deriving DecidableEq

/-- The value of an attribute. -/
inductive Value where
  | text (value : Text)
  | names (value : List Text)
  | community (value : Text)
deriving DecidableEq

/-- The attributes of a host; an attribute without a value is absent. -/
abbrev Attributes := Attr → Option Value

/-- The attributes that the tool reconciles on a host that exists. -/
def managed : List Attr :=
  [.parents, .tagAgent, .tagPiggyback, .tagAddressFamily, .ipaddress, .snmpCommunity]

/-- A host of the site: its folder, its attributes and its labels. -/
structure HostConfig where
  folder : Ident
  attributes : Attributes
  labels : Dict Text Text

/-! ## Rules -/

/-- The rulesets of the tool, and any other. -/
inductive Ruleset where
  | agentPorts
  | usewalkHosts
  | snmpPorts
  | snmpCommunities
  | datasourcePrograms
  | residualCurrent
  | specialAgentsBi
  | other (name : Text)
deriving DecidableEq

/-- The name of a ruleset. -/
def Ruleset.key : Ruleset → Text
  | .agentPorts => "agent_ports".toList
  | .usewalkHosts => "usewalk_hosts".toList
  | .snmpPorts => "snmp_ports".toList
  | .snmpCommunities => "snmp_communities".toList
  | .datasourcePrograms => "datasource_programs".toList
  | .residualCurrent => "checkgroup_parameters:residual_current".toList
  | .specialAgentsBi => "special_agents:bi".toList
  | .other name => name

/-- What an error calls the rule of the tool in a ruleset. -/
def Ruleset.rule : Ruleset → Text
  | .agentPorts => "the agent port rule".toList
  | .usewalkHosts => "the usewalk_hosts rule".toList
  | .snmpPorts => "the snmp_ports rule".toList
  | .datasourcePrograms => "the datasource program rule".toList
  | .residualCurrent => "the residual-current rule".toList
  | .specialAgentsBi => "the BI service rule".toList
  | .snmpCommunities | .other _ => []

/-- The value of a rule, by what its representation says. -/
inductive RuleValue where
  | number (value : ℤ)
  | yes
  | quoted (value : Text)
  | residualDefaultsOff
  | aggregations (names : List Text)
  | other (raw : Text)
deriving DecidableEq

/-- A rule; no host names means that the rule has no condition on the host. -/
structure Rule where
  ruleset : Ruleset
  folder : Ident
  description : Text
  value : RuleValue
  hosts : List Text
deriving DecidableEq

/-- The marker description of each ruleset of the tool. -/
def description : Ruleset → Text
  | .agentPorts => "Meridian Retail demo: agent port of the piggyback delivery shell".toList
  | .usewalkHosts => "Meridian Retail demo: stored SNMP walks (snmp/netsim.py)".toList
  | .snmpPorts => "Meridian Retail demo: SNMP port (netsim responder)".toList
  | .snmpCommunities => "Meridian Retail demo: SNMP community (netsim responder)".toList
  | .datasourcePrograms =>
      "Meridian Retail demo: agent output via datasource program (cat $HOSTNAME$)".toList
  | .residualCurrent =>
      "Meridian Retail demo: PDUs without residual-current sensors stay OK".toList
  | .specialAgentsBi => "Meridian Retail demo: payments platform business service".toList
  | .other _ => []

/-! ## Business aggregations -/

/-- The kinds of business objects. -/
inductive BiKind where
  | pack
  | rule
  | aggregation
deriving DecidableEq

/-- A business object by its kind and its identifier. -/
abbrev BiId := BiKind × Text

/-- A node: the state of a service, or a call of a rule. -/
inductive BiNode where
  | leaf (host service : Text)
  | call (rule : Text)
deriving DecidableEq

/-- The body of a business object, by what varies in it. -/
inductive BiBody where
  | pack (title : Text)
  | rule (ident pack title : Text) (nodes : List BiNode)
  | aggregation (ident pack : Text) (groups : List Text) (node : BiNode)
deriving DecidableEq

/-- `BI_PACK_ID`. -/
def biPackId : Text := "meridian_demo".toList

/-- `BI_PACK_TITLE`. -/
def biPackTitle : Text := "Meridian Retail demo".toList

/-- `BI_TOP_RULE_ID`. -/
def biTopRuleId : Text := "meridian_payments_platform".toList

/-- `BI_AGGR_ID`. -/
def biAggrId : Text := "meridian_payments_platform".toList

/-- `BI_AGGR_TITLE`. -/
def biAggrTitle : Text := "Payments platform".toList

/-- `BI_GROUP`. -/
def biGroup : Text := "Meridian Retail".toList

/-- A tier rule: its identifier, its title and its leaves by short name and service. -/
structure Tier where
  ident : Text
  title : Text
  leaves : List (Text × Text)
deriving DecidableEq

/-- `BI_TIERS`. -/
def tiers : List Tier :=
  [{ ident := "meridian_network_path".toList, title := "Network path".toList,
     leaves := [("sw-core-01".toList, "Interface".toList),
       ("sw-core-01".toList, "CPU utilization".toList)] },
   { ident := "meridian_customer_entry".toList, title := "Customer entry".toList,
     leaves := [("web-frontend-01".toList, "Interface".toList),
       ("web-frontend-01".toList, "CPU utilization".toList),
       ("web-frontend-01".toList, "Memory".toList)] },
   { ident := "meridian_payment_api".toList, title := "Payment API".toList,
     leaves := [("payment-api".toList, "Systemd Service Summary".toList),
       ("payment-api".toList, "CPU load".toList), ("payment-api".toList, "Memory".toList),
       ("payment-api".toList, "TCP Connections".toList)] },
   { ident := "meridian_processing".toList, title := "Processing & cache".toList,
     leaves := [("app-worker-01".toList, "Memory".toList),
       ("app-worker-01".toList, "Systemd Service Summary".toList),
       ("app-worker-01".toList, "CPU load".toList),
       ("app-redis-01".toList, "Redis MERIDIAN_CACHE".toList),
       ("app-redis-01".toList, "Memory".toList)] },
   { ident := "meridian_data_layer".toList, title := "Data layer".toList,
     leaves := [("db-postgres-01".toList, "PostgreSQL".toList),
       ("db-postgres-01".toList, "Disk IO SUMMARY".toList),
       ("db-postgres-01".toList, "CPU load".toList),
       ("db-postgres-02".toList, "PostgreSQL Connections".toList),
       ("db-postgres-02".toList, "PostgreSQL Instance".toList)] },
   { ident := "meridian_storage".toList, title := "Storage".toList,
     leaves := [("fileserver-01".toList, "Filesystem /srv/shares".toList)] }]

end Deploy
end DemoEstate
