import DemoEstate.Deploy.Calls

/-!
# Setting an estate up and tearing it down

The network devices are created parents first, then the shell, then the carried hosts, then
the rules and the business aggregation.  Discovery and two activations follow, with the
fingerprint of the estate stored in between.  The removal goes through the same panels.

Main definitions:

- Definition {lit}`topoOrder`: the devices in the order of their creation.
- Definition {lit}`canon`: the record whose digest is the fingerprint of an estate.
- Definition {lit}`setup`: the deployment of an estate.
- Definition {lit}`teardown`: the removal of an estate.
-/

namespace DemoEstate
namespace Deploy

open Interaction
open Interaction.Program

/-! ## SNMP devices -/

/-- Devices sorted by their short names. -/
def sortedDevices (devices : List (Text × Device)) : List (Text × Device) :=
  devices.insertionSort fun d e => d.1 ≤ e.1

/-- The declared parent of a device is not among the remaining devices. -/
def isReady (remaining : List (Text × Device)) (e : Text × Device) : Bool :=
  match given e.2.parent with
  | none => true
  | some parent => parent ∉ remaining.map Prod.fst

/-- The rounds of `_topo_order`; each one emits the devices that are ready, and a round
without any emits all that remain. -/
def topoRounds : Nat → List (Text × Device) → List (Text × Device)
  | 0, _ => []
  | n + 1, remaining =>
      if remaining.filter (isReady remaining) = [] then sortedDevices remaining
      else
        sortedDevices (remaining.filter (isReady remaining)) ++
          topoRounds n (remaining.filter fun e => !isReady remaining e)

/-- `_topo_order`. -/
def topoOrder (devices : Dict Text Device) : List (Text × Device) :=
  topoRounds devices.entries.length devices.entries

/-- The fully qualified name of the first core switch of the map. -/
def coreFqdn (devices : Dict Text Device) : Option Text :=
  (devices.entries.find? fun e => "sw-core".toList.isPrefixOf e.1).map fun e => e.2.fqdn

/-- The parent written for a device: the declared one if the map has it, else the core. -/
def parentFqdn (devices : Dict Text Device) (dev : Device) : Option Text :=
  match given ((devices.get (dev.parent.getD [])).map Device.fqdn) with
  | some fqdn => some fqdn
  | none => coreFqdn devices

/-- The attributes of a device. -/
def deviceAttributes (info : Netsim) (short : Text) (dev : Device) : Attributes
  | .tagSnmpDs => some (.text "snmp-v2".toList)
  | .tagAgent => some (.text "no-agent".toList)
  | .ipaddress => if info.live then some (.text "127.0.0.1".toList) else none
  | .tagAddressFamily =>
      some (.text (if info.live then "ip-v4-only".toList else "no-ip".toList))
  | .snmpCommunity =>
      if info.live then some (.community ((given dev.community).getD short)) else none
  | .parents =>
      ((given (parentFqdn info.devices dev)).filter (· ≠ dev.fqdn)).map fun p => .names [p]
  | .tagPiggyback => none

/-- The role the panel delivers for a device, or else the one of its short name. -/
def deviceRole (short : Text) (dev : Device) : Role :=
  (Role.find dev.role).getD (snmpRole short)

/-- The shared port of the live transport. -/
def snmpPort (info : Netsim) : ℤ :=
  match info.snmpPort with
  | none => 161
  | some port => if port = 0 then 161 else port

/-- Heal the devices that are in an incident. -/
def healDevices : List (Text × Device) → Setup Unit
  | [] => pure ()
  | (short, dev) :: devices =>
      if dev.incident && dev.state ≠ "healthy".toList then do
        let healed ← call (Request.healDevice short)
        if healed then healDevices devices else die .panelUnreachable
      else healDevices devices

/-- A host to create: its name, its role and its attributes. -/
structure Row where
  name : Text
  role : Role
  attributes : Attributes

/-- Create hosts in the leaf folders of their roles, in the given order. -/
def createRows (root : Ident) : Dict Role Ident → List Row → Setup (Dict Role Ident)
  | leaf, [] => pure leaf
  | leaf, row :: rows => do
      let (folder, leaf) ← leafFor root leaf row.role
      ensureHost row.name folder row.attributes
      createRows root leaf rows

/-- The host of a device. -/
def deviceRow (info : Netsim) (e : Text × Device) : Row where
  name := e.2.fqdn
  role := deviceRole e.1 e.2
  attributes := deviceAttributes info e.1 e.2

/-- The hosts of the devices in the order of their creation. -/
def deviceRows (info : Netsim) : List Row :=
  (topoOrder info.devices).map (deviceRow info)

/-- The fully qualified names of the devices in the order of their creation. -/
def createdFqdns (info : Netsim) : List Text :=
  (topoOrder info.devices).map fun e => e.2.fqdn

/-- The rule by which the site reaches the devices, for the transport of the panel. -/
def ensureSnmpAccess (root : Ident) (info : Netsim) : Setup Unit :=
  if info.live then ensureSnmpPortRule root (snmpPort info)
  else ensureUsewalkRule (createdFqdns info)

/-- `setup_snmp` with the leaf folders known so far; it returns the names of the devices. -/
def setupSnmp (args : Args) (leaf : Dict Role Ident) :
    Setup (List Text × Dict Role Ident) := do
  let info : Option Netsim ← call Request.netsimPanel
  match info with
  | none => if args.snmp = .on then die .netsimRequired else pure ([], leaf)
  | some info => do
      healDevices info.devices.entries
      let leaf ← createRows args.root leaf (deviceRows info)
      ensureSnmpAccess args.root info
      pure (createdFqdns info, leaf)

/-- A planned device: its name, its parent and the role the panel delivers. -/
abbrev Planned := Text × Option Text × Option Text

/-- The devices that `setup_snmp` would create. -/
def snmpPlan (info : Netsim) : List Planned :=
  info.devices.entries.map fun e =>
    (e.2.fqdn, (parentFqdn info.devices e.2).filter (· ≠ e.2.fqdn), e.2.role)

/-- `_planned_snmp`. -/
def plannedSnmp (args : Args) : Setup (List Planned) :=
  if args.snmp = .off then pure []
  else do
    let info : Option Netsim ← call Request.netsimPanel
    match info with
    | none => if args.snmp = .on then die .netsimRequired else pure []
    | some info => pure (snmpPlan info)

/-- `snmp_teardown_names`: the reverse of the order of creation. -/
def snmpTeardownNames : Setup (List Text) := do
  let info : Option Netsim ← call Request.netsimPanel
  match info with
  | none => pure []
  | some info => pure (createdFqdns info).reverse

/-! ## Discovery and activation -/

/-- `_wait_for_discovery`; a second passes between two looks, so that `n` bounds them. -/
def waitForDiscovery (host : Text) : Nat → Status → Setup Unit
  | 0, status => die (.discovery host status)
  | n + 1, last => do
      let before ← call Request.beforeDeadline
      if before then do
        let status ← call (Request.waitDiscovery host)
        if status = 204 then pure ()
        else if status = 302 ∨ status = 303 then waitForDiscovery host n status
        else die (.discovery host status)
      else die (.discovery host last)

/-- `_monitored_service_count`. -/
def monitoredServiceCount (host : Text) : Setup (Option Nat) := do
  let phases : Option (List Text) ← call (Request.getDiscovery host)
  pure (phases.map fun phases => phases.count "monitored".toList)

/-- The first phase of `discover`: scan the host. -/
def refresh (host : Text) : Setup Unit := do
  let status ← call (Request.startDiscovery host "refresh".toList)
  if status = 302 ∨ status = 303 ∨ status = 409 then waitForDiscovery host 180 0
  else expect ("starting discovery on ".toList ++ host) status

/-- The second phase of `discover`: accept the services that the scan found. -/
def fixAll (host : Text) : Setup Unit := do
  let status ← call (Request.startDiscovery host "fix_all".toList)
  expect ("accepting discovered services on ".toList ++ host) status

/-- `discover`, with the host scanned in any case. -/
def discover (host : Text) : Setup Unit := do
  refresh host
  fixAll host

/-- Scan hosts one after the other. -/
def discoverAll : List Text → Setup Unit
  | [] => pure ()
  | host :: hosts => do
      discover host
      discoverAll hosts

/-- The wait of `bulk_discover`; five seconds pass between two looks. -/
def waitForJob (job : Text) : Nat → Setup Unit
  | 0 => die .bulkDiscovery
  | n + 1 => do
      let before ← call Request.beforeDeadline
      if before then do
        let active : Option Bool ← call (Request.getJob job)
        if active = some false then pure () else waitForJob job n
      else die .bulkDiscovery

/-- `bulk_discover`. -/
def bulkDiscover (hosts : List Text) : Setup Unit := do
  let started : Status × Option Text ← call (Request.startBulkDiscovery hosts)
  if started.1 = 200 ∨ started.1 = 303 then
    waitForJob (started.2.getD "bulk_discovery".toList) 720
  else die (.api "starting bulk discovery".toList started.1)

/-- The hosts without monitored services, or all of them. -/
def pendingHosts (skip : Bool) : List Text → Setup (List Text)
  | [] => pure []
  | host :: hosts =>
      if skip then do
        let count ← monitoredServiceCount host
        let pending ← pendingHosts skip hosts
        pure (if count.getD 0 = 0 then host :: pending else pending)
      else do
        let pending ← pendingHosts skip hosts
        pure (host :: pending)

/-- The wait of `activate`; when the time is up the tool goes on. -/
def waitForActivation (run : Text) : Nat → Setup Unit
  | 0 => pure ()
  | n + 1 => do
      let before ← call Request.beforeDeadline
      if before then do
        let status ← call (Request.waitActivation run)
        if status = 204 then pure ()
        else if status = 302 ∨ status = 303 then waitForActivation run n
        else die (.activation status)
      else pure ()

/-- `activate`. -/
def activate (forceForeign : Bool) : Setup Unit := do
  let started : Status × Option Text ← call (Request.activateChanges forceForeign)
  if started.1 = 422 then pure ()
  else if started.1 = 200 then
    match given started.2 with
    | none => pure ()
    | some run => waitForActivation run 120
  else if started.1 = 401 then
    die (.api ("activating changes".toList ++
      " (foreign changes pending? re-run with --force-foreign)".toList) started.1)
  else die (.api "activating changes".toList started.1)

/-! ## The fingerprint -/

/-- `SCHEMA_VERSION`. -/
def schemaVersion : Nat := 12

/-- `FINGERPRINT_LABEL`. -/
def fingerprintLabel : Text := "meridian_demo/fingerprint".toList

/-- The record whose digest is the fingerprint. -/
structure Canon where
  schema : Nat
  mode : Mode
  folder : Ident
  delivery : Text × Text × ℤ
  hosts : List (Text × Option Text × Role)
  snmp : List (Text × Option Text × Role)
  biTiers : List Text
  datasource : Option Text
deriving DecidableEq

/-- Rows in the order of their names. -/
def sortedRows (rows : List (Text × Option Text × Role)) : List (Text × Option Text × Role) :=
  rows.insertionSort fun r r' => r.1 ≤ r'.1

/-- The parent of a carried host, where it is a host of the estate. -/
def effectiveParent (parentOk : List Text) (h : Carried) : Option Text :=
  h.parent.filter (· ∈ parentOk)

/-- The hosts by their short names; a device takes precedence. -/
def fqdnByShort (hosts : List Carried) (snmpFqdns : List Text) : Dict Text Text :=
  (Dict.ofRows (hosts.map fun h => (h.name, h.fqdn))).update
    (snmpFqdns.map fun f => (label f, f))

/-- The canonical record of `_estate_fingerprint`. -/
def canon (args : Args) (info : Delivery) (plan : List Planned) : Canon where
  schema := schemaVersion
  mode := args.mode
  folder := args.root
  delivery := (info.host, args.agentIp, args.agentPort)
  hosts := sortedRows <| info.carried.map fun h =>
    (h.fqdn, effectiveParent (info.fqdns ++ plan.map Prod.fst) h, hostRole h)
  snmp := sortedRows <| plan.map fun p =>
    (p.1, p.2.1, (Role.find p.2.2).getD (snmpRole (label p.1)))
  biTiers := sorted <| (tiers.filter fun tier =>
    tier.leaves.any fun leaf =>
      ((fqdnByShort info.carried (plan.map Prod.fst)).get leaf.1).isSome).map Tier.ident
  datasource :=
    if args.mode = .selfHosted then some (datasourceCommand args.agentOutputDir) else none

/-- The fingerprint, by the digest of the canonical record. -/
def estateFingerprint (digest : Canon → Text) (args : Args) (info : Delivery)
    (plan : List Planned) : Text :=
  "v12-".toList ++ digest (canon args info plan)

/-- `_read_fingerprint`. -/
def readFingerprint (delivery : Text) : Setup (Option Text) := do
  let host : Option HostConfig ← call (Request.getHost delivery)
  pure (host.bind fun host => host.labels.get fingerprintLabel)

/-- `_write_fingerprint`. -/
def writeFingerprint (delivery fp : Text) : Setup Unit := do
  let host : Option HostConfig ← call (Request.getHost delivery)
  let labels := (host.map HostConfig.labels).getD Dict.empty
  if labels.get fingerprintLabel = some fp then pure ()
  else do
    let status ← call (Request.putLabels delivery (labels.set fingerprintLabel fp))
    expect ("storing the estate fingerprint on ".toList ++ delivery) status

/-! ## Setting up -/

/-- `heal_estate`. -/
def healEstate : List Carried → Setup Unit
  | [] => pure ()
  | h :: hosts =>
      if h.state ≠ some "healthy".toList ∧ "heal".toList ∈ h.actions then do
        let healed ← call (Request.healHost h.name)
        if healed then healEstate hosts else die (.healing h.name)
      else healEstate hosts

/-- The parent of the shell: the first access switch, else the first core switch. -/
def shellParent (snmpFqdns : List Text) : Option Text :=
  match given (snmpFqdns.find? fun f => "sw-access".toList.isPrefixOf (label f)) with
  | some access => some access
  | none => snmpFqdns.find? fun f => "sw-core".toList.isPrefixOf (label f)

/-- The attributes of the shell. -/
def shellAttributes (args : Args) (delivery : Text) (snmpFqdns : List Text) : Attributes
  | .tagAgent => some (.text "all-agents".toList)
  | .tagAddressFamily =>
      if args.mode = .selfHosted then some (.text "no-ip".toList) else none
  | .tagPiggyback =>
      if args.mode = .selfHosted then some (.text "no-piggyback".toList) else none
  | .ipaddress => if args.mode = .selfHosted then none else some (.text args.agentIp)
  | .parents =>
      ((given (shellParent snmpFqdns)).filter (· ≠ delivery)).map fun p => .names [p]
  | .snmpCommunity | .tagSnmpDs => none

/-- The attributes of a carried host. -/
def hostAttributes (args : Args) (parentOk : List Text) (h : Carried) : Attributes
  | .tagAgent =>
      some (.text (if args.mode = .selfHosted then "cmk-agent".toList else "no-agent".toList))
  | .tagPiggyback =>
      some (.text
        (if args.mode = .selfHosted then "no-piggyback".toList else "piggyback".toList))
  | .tagAddressFamily => some (.text "no-ip".toList)
  | .parents => (effectiveParent parentOk h).map fun p => .names [p]
  | .ipaddress | .snmpCommunity | .tagSnmpDs => none

/-- The host of a carried host. -/
def hostRow (args : Args) (parentOk : List Text) (h : Carried) : Row where
  name := h.fqdn
  role := hostRole h
  attributes := hostAttributes args parentOk h

/-- The order of creation: hosts whose parent is a carried host come last. -/
def creationOrder (info : Delivery) : List Carried :=
  info.carried.filter (fun h => !(h.parent.any (· ∈ info.fqdns))) ++
    info.carried.filter fun h => h.parent.any (· ∈ info.fqdns)

/-- The carried hosts in the order of their creation. -/
def hostRows (args : Args) (info : Delivery) (snmpFqdns : List Text) : List Row :=
  (creationOrder info).map (hostRow args (info.fqdns ++ snmpFqdns))

/-- The SNMP layer; without it there are no devices. -/
def snmpLayer (args : Args) : Setup (List Text × Dict Role Ident) :=
  if args.snmp = .off then pure ([], Dict.empty)
  else do
    let (snmpFqdns, leaf) ← setupSnmp args Dict.empty
    ensureResidualCurrentRule args.root
    pure (snmpFqdns, leaf)

/-- The rule by which the site reaches the shell of a cloud estate. -/
def ensureAgentAccess (args : Args) (delivery : Text) : Setup Unit :=
  if args.mode = .cloud then ensurePortRule delivery args.agentPort else pure ()

/-- The rule by which a self-hosted site reads the agent output. -/
def ensureAgentSource (args : Args) : Setup Unit :=
  if args.mode = .selfHosted then ensureDatasourceRule args.root args.agentOutputDir
  else pure ()

/-- Create the objects of the estate; the result names the devices. -/
def createObjects (args : Args) (info : Delivery) : Setup (List Text) := do
  ensureFolder args.root "Meridian Retail demo".toList []
  let (snmpFqdns, leaf) ← snmpLayer args
  ensureHost info.host args.root (shellAttributes args info.host snmpFqdns)
  ensureAgentAccess args info.host
  let _ ← createRows args.root leaf (hostRows args info snmpFqdns)
  pruneSubtree args.root (info.host :: info.fqdns ++ snmpFqdns)
  ensureAgentSource args
  ensureBiPack (fqdnByShort info.carried snmpFqdns)
  ensureBiServiceRule info.host
  pure snmpFqdns

/-- Discover the services of the estate, the shell first. -/
def discoverEstate (args : Args) (info : Delivery) (snmpFqdns : List Text) : Setup Unit := do
  discover info.host
  let pending ← pendingHosts (!args.force) (info.fqdns ++ snmpFqdns)
  if 10 ≤ pending.length then bulkDiscover pending else discoverAll pending

/-- Bring the site to a configuration with a new fingerprint. -/
def reconfigure (args : Args) (info : Delivery) (fp : Text) : Setup Unit := do
  healEstate info.carried
  let snmpFqdns ← createObjects args info
  discoverEstate args info snmpFqdns
  activate args.forceForeign
  discover info.host
  writeFingerprint info.host fp
  activate args.forceForeign

/-- `setup`. -/
def setup (digest : Canon → Text) (args : Args) : Setup Unit := do
  let info : Option Delivery ← call Request.deliveryPanel
  match info with
  | none => die .panelUnreachable
  | some info =>
      let missing := (info.carried.filter fun h => h.state = none).map Carried.name
      if missing ≠ [] then die (.childrenNotUp missing)
      else do
        let plan ← plannedSnmp args
        let fp := estateFingerprint digest args info plan
        if args.force then reconfigure args info fp
        else do
          let stored ← readFingerprint info.host
          if stored = some fp then pure () else reconfigure args info fp

/-! ## Tearing down -/

/-- The hosts to remove: by the panels, or else all hosts under the root folder. -/
def teardownNames (args : Args) : Setup (List Text) := do
  let info : Option Delivery ← call Request.deliveryPanel
  match info with
  | some info => do
      let snmpNames ← snmpTeardownNames
      pure (info.fqdns.reverse ++ snmpNames ++ [info.host])
  | none => do
      let hosts : Option (List (Text × HostConfig)) ← call Request.listHosts
      match hosts with
      | none => pure []
      | some hosts => pure (underRoot args.root hosts)

/-- Delete the root folder with all that is in it, unless it is the site root. -/
def deleteRoot (root : Ident) : Setup Unit :=
  if root = [] then pure ()
  else do
    let _ ← call (Request.deleteFolder root)
    pure ()

/-- `teardown`. -/
def teardown (args : Args) : Setup Unit := do
  let names ← teardownNames args
  deleteBiObjects
  deleteMarkedRules .usewalkHosts names
  deleteMarkedRules .specialAgentsBi names
  deleteDatasourceRule args.root
  deleteResidualCurrentRule args.root
  deleteSnmpAccessRules args.root
  deleteHosts names
  deleteMarkedRules .agentPorts names
  deleteRoot args.root
  activate args.forceForeign

end Deploy
end DemoEstate
