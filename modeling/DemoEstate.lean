import DemoEstate.Library.Transition
import DemoEstate.Library.Program
import DemoEstate.Library.Text
import DemoEstate.Library.Dict
import DemoEstate.Library.Related
import DemoEstate.Library.Precedence
import DemoEstate.Library.Json
import DemoEstate.Library.Round
import DemoEstate.Library.Files
import DemoEstate.Library.Grid
import DemoEstate.Library.Groups
import DemoEstate.Library.Tokens
import DemoEstate.Library.Edits
import DemoEstate.Library.Numeral
import DemoEstate.Library.Framing
import DemoEstate.Library.Ramp
import DemoEstate.Snmp.Ber
import DemoEstate.Snmp.Table
import DemoEstate.Snmp.Message
import DemoEstate.Snmp.Walk
import DemoEstate.Snmp.Bulk
import DemoEstate.Snmp.Exchange
import DemoEstate.Snmp.Datagram
import DemoEstate.Snmp.Canonical
import DemoEstate.Snmp.ReplySize
import DemoEstate.Snmp.Subtree
import DemoEstate.Delivery.Cascade
import DemoEstate.Delivery.CascadeRuns
import DemoEstate.Delivery.Serial
import DemoEstate.Delivery.Status
import DemoEstate.Delivery.Piggyback
import DemoEstate.Delivery.Ports
import DemoEstate.Delivery.AgentFiles
import DemoEstate.Hosts.StateFile
import DemoEstate.Fleet.Roster
import DemoEstate.Fleet.Assignment
import DemoEstate.Fleet.Parents
import DemoEstate.Netsim.Counter
import DemoEstate.Netsim.Incidents
import DemoEstate.Netsim.LoadState
import DemoEstate.Netsim.Watchdog
import DemoEstate.Netsim.WriteFailures
import DemoEstate.Fleet.CpuTicks
import DemoEstate.Fleet.MemInfo
import DemoEstate.Netsim.Polls
import DemoEstate.Hosts.TickBudget
import DemoEstate.Hosts.Schedule
import DemoEstate.Hosts.DiskFill
import DemoEstate.Hosts.FillRate
import DemoEstate.Hosts.Fileserver
import DemoEstate.Hosts.MailRelay
import DemoEstate.Hosts.DyingDisk
import DemoEstate.Hosts.Worker
import DemoEstate.Netsim.Persistence
import DemoEstate.Netsim.Render
import DemoEstate.Netsim.Devices
import DemoEstate.Netsim.ReplayModel
import DemoEstate.Netsim.LineRate
import DemoEstate.Netsim.Replay
import DemoEstate.Netsim.TableFor
import DemoEstate.Netsim.WalkText
import DemoEstate.Netsim.Refresh
import DemoEstate.Netsim.Columns
import DemoEstate.Netsim.SharedSamples
import DemoEstate.Netsim.ReplayRoster
import DemoEstate.Netsim.Identities
import DemoEstate.Netsim.HardwareAddresses
import DemoEstate.Netsim.ServiceTags
import DemoEstate.Netsim.Responder
import DemoEstate.Netsim.Growth
import DemoEstate.Netsim.ResponderRuns
import DemoEstate.Netsim.EagerCounters
import DemoEstate.Netsim.Toggle
import DemoEstate.Netsim.LiveWalk
import DemoEstate.Walklib.Curate
import DemoEstate.Walklib.Nameless
import DemoEstate.Walklib.Addresses
import DemoEstate.Launch.Reuse
import DemoEstate.Deploy.Objects
import DemoEstate.Deploy.Calls
import DemoEstate.Deploy.Prune
import DemoEstate.Deploy.Estate
import DemoEstate.Deploy.Site
import DemoEstate.Deploy.Effects
import DemoEstate.Deploy.BiPack
import DemoEstate.Deploy.TopoOrder
import DemoEstate.Deploy.Activation
import DemoEstate.Deploy.CreationOrder
import DemoEstate.Deploy.SetupRuns
import DemoEstate.Deploy.Reconcile
import DemoEstate.Deploy.Removal
import DemoEstate.Deploy.Undo
import DemoEstate.Deploy.Offline
import DemoEstate.Deploy.OneRule
import DemoEstate.Deploy.FastPath
import DemoEstate.Deploy.Fingerprint
import DemoEstate.Deploy.Isolation
import DemoEstate.Deploy.Rerun
import DemoEstate.Deploy.Discovery
import DemoEstate.Deploy.Progress
import DemoEstate.Netsim.RowOrder
import DemoEstate.Walklib.Replayed
