import DemoEstate.Netsim.Render

/-!
# The synthetic devices

The interfaces, switches, router and power supply that render every row anew, as
programs over the operations of a rendering.

Main results:

- Theorem {lit}`Iface.sampleAll_ensures`: what holds of every sample holds of the
  values an interface renders.
- Theorem {lit}`Synthetic.rows_ensures`: the rows of a synthetic device have fixed
  OIDs, and all but its fixed ones are rows of its interfaces.
-/

namespace DemoEstate
namespace Netsim

open Interaction
open Snmp (Row Oid parseOid)

/-! ## Interfaces -/

/-- An interface, as it is constructed. -/
structure Iface where
  dev : Text
  index : Nat
  name : Text
  descr : Text
  label : Text
  mbit : Nat
  inBps : ℚ≥0
  outBps : ℚ≥0
  seed : Nat

/-- The registered name of one of an interface's counters. -/
def ifaceKey (dev : Text) (index : Nat) (counter : String) : Text :=
  dev ++ ".if".toList ++ Text.decimal index ++ '.' :: counter.toList

/-- The pretended age of the counters in seconds. -/
def aged : ℚ≥0 := 87 * 86400

/-- The counters an interface registers. -/
def Iface.counters (it : Iface) : List CounterSpec :=
  let spec (counter : String) (start : ℚ≥0) : CounterSpec :=
    ⟨ifaceKey it.dev it.index counter, start, 3 / 10, three_tenths_nonneg, three_tenths_le_one⟩
  [spec "in_oct" (it.inBps * aged), spec "out_oct" (it.outBps * aged),
   spec "in_ucast" (it.inBps / 700 * aged), spec "out_ucast" (it.outBps / 700 * aged),
   spec "in_mcast" (2 * aged), spec "in_bcast" (1 / 2 * aged),
   spec "out_mcast" (1 * aged), spec "out_bcast" (1 / 5 * aged),
   spec "in_disc" 0,
   ⟨ifaceKey it.dev it.index "in_err", 0, 15 / 100, by norm_num, by norm_num⟩,
   spec "out_disc" 0, spec "out_err" 0]

/-- The values sampled in one rendering of an interface. -/
structure IfaceVals where
  inOct : ℤ
  outOct : ℤ
  inUcast : ℤ
  outUcast : ℤ
  inMcast : ℤ
  inBcast : ℤ
  outMcast : ℤ
  outBcast : ℤ
  inDisc : ℤ
  inErr : ℤ
  outDisc : ℤ
  outErr : ℤ
deriving Inhabited

/-- An attribute of an interface that is up, else zero. -/
def loadIf (up : Bool) (attr : Attr) (index : Nat) : Render ℚ≥0 :=
  if up then Render.load attr index else pure 0

/-- Sample all counters of an interface; octets are capped at 85 % of the line. -/
def Iface.sampleAll (it : Iface) : Render IfaceVals := do
  let key := ifaceKey it.dev it.index
  let oper ← Render.loadOper it.index
  let up := oper == 1
  let f ← loadIf up .rateFactor it.index
  let inBps := it.inBps * f
  let outBps := it.outBps * f
  let lineCap : ℚ≥0 := 85 / 100 * it.mbit * 1000000 / 8
  let inOct ← Render.sample (key "in_oct") inBps (some lineCap)
  let outOct ← Render.sample (key "out_oct") outBps (some lineCap)
  let inUcast ← Render.sample (key "in_ucast") (inBps / 700) none
  let outUcast ← Render.sample (key "out_ucast") (outBps / 700) none
  let inMcast ← Render.sample (key "in_mcast") (2 * f) none
  let inBcast ← Render.sample (key "in_bcast") (1 / 2 * f) none
  let outMcast ← Render.sample (key "out_mcast") (1 * f) none
  let outBcast ← Render.sample (key "out_bcast") (1 / 5 * f) none
  let inDisc ← Render.sample (key "in_disc") 0 none
  let errRate ← loadIf up .errRate it.index
  let inErr ← Render.sample (key "in_err") errRate none
  let discRate ← loadIf up .discRate it.index
  let outDisc ← Render.sample (key "out_disc") discRate none
  let outErr ← Render.sample (key "out_err") 0 none
  pure ⟨inOct, outOct, inUcast, outUcast, inMcast, inBcast, outMcast, outBcast, inDisc, inErr,
    outDisc, outErr⟩

/-- The OID of a column of the interface table. -/
def ifEntry (column index : Nat) : Text :=
  oidText [1, 3, 6, 1, 2, 1, 2, 2, 1, column, index]

/-- The OID of a column of the extended interface table. -/
def ifXEntry (column index : Nat) : Text :=
  oidText [1, 3, 6, 1, 2, 1, 31, 1, 1, 1, column, index]

/-- The rows of an interface for its sampled values and operational status. -/
def Iface.rowsOf (it : Iface) (vals : IfaceVals) (oper : Nat) : List Row :=
  let i := it.index
  let ifSpeed := min (it.mbit * 1000000) (2 ^ 32 - 1)
  [(ifEntry 1 i, Text.decimal i),
   (ifEntry 2 i, it.descr),
   (ifEntry 3 i, "6".toList),
   (ifEntry 5 i, Text.decimal ifSpeed),
   (ifEntry 6 i, mac it.seed i),
   (ifEntry 8 i, Text.decimal oper),
   (ifEntry 13 i, Text.str (vals.inDisc % u32)),
   (ifEntry 14 i, Text.str (vals.inErr % u32)),
   (ifEntry 19 i, Text.str (vals.outDisc % u32)),
   (ifEntry 20 i, Text.str (vals.outErr % u32)),
   (ifEntry 21 i, "0".toList),
   (ifXEntry 1 i, it.name),
   (ifXEntry 6 i, Text.str vals.inOct),
   (ifXEntry 7 i, Text.str vals.inUcast),
   (ifXEntry 8 i, Text.str vals.inMcast),
   (ifXEntry 9 i, Text.str vals.inBcast),
   (ifXEntry 10 i, Text.str vals.outOct),
   (ifXEntry 11 i, Text.str vals.outUcast),
   (ifXEntry 12 i, Text.str vals.outMcast),
   (ifXEntry 13 i, Text.str vals.outBcast),
   (ifXEntry 15 i, Text.decimal it.mbit),
   (ifXEntry 18 i, it.label)]

def Iface.rows (it : Iface) : Render (List Row) := do
  let vals ← it.sampleAll
  let oper ← Render.loadOper it.index
  pure (it.rowsOf vals oper)

/-! ## Row groups -/

/-- A gauge reading rounded to an integer. -/
def gaugeInt (name : String) (base amp : ℚ) : Render ℤ := do
  let v ← Render.gauge name.toList base amp
  pure (round v)

/-- The system group. -/
def systemRows (pf : Platform) (short sysDescr sysObjectid location : Text) (uptimeOffset now : ℚ) :
    List Row :=
  let ticks := int ((now - pf.start + uptimeOffset) * 100) % u32
  [(oidText [1, 3, 6, 1, 2, 1, 1, 1, 0], sysDescr),
   (oidText [1, 3, 6, 1, 2, 1, 1, 2, 0], sysObjectid),
   (oidText [1, 3, 6, 1, 2, 1, 1, 3, 0], Text.str ticks),
   (oidText [1, 3, 6, 1, 2, 1, 1, 4, 0], "netops@meridian-retail.com".toList),
   (oidText [1, 3, 6, 1, 2, 1, 1, 5, 0], short ++ '.' :: pf.domain),
   (oidText [1, 3, 6, 1, 2, 1, 1, 6, 0], location)]

def envmonTempRows (descr : String) (celsius : ℚ) (threshold : Nat) : List Row :=
  [(oidText [1, 3, 6, 1, 4, 1, 9, 9, 13, 1, 3, 1, 2, 1], descr.toList),
   (oidText [1, 3, 6, 1, 4, 1, 9, 9, 13, 1, 3, 1, 3, 1], Text.str (round celsius)),
   (oidText [1, 3, 6, 1, 4, 1, 9, 9, 13, 1, 3, 1, 4, 1], Text.decimal threshold),
   (oidText [1, 3, 6, 1, 4, 1, 9, 9, 13, 1, 3, 1, 6, 1], "1".toList)]

def envmonFanPsuRows (fans psus : List String) : List Row :=
  ((fans.zipIdx 1).flatMap fun p =>
    [(oidText [1, 3, 6, 1, 4, 1, 9, 9, 13, 1, 4, 1, 2, p.2], p.1.toList),
     (oidText [1, 3, 6, 1, 4, 1, 9, 9, 13, 1, 4, 1, 3, p.2], "1".toList)]) ++
  (psus.zipIdx 1).flatMap fun p =>
    [(oidText [1, 3, 6, 1, 4, 1, 9, 9, 13, 1, 5, 1, 2, p.2], p.1.toList),
     (oidText [1, 3, 6, 1, 4, 1, 9, 9, 13, 1, 5, 1, 3, p.2], "1".toList),
     (oidText [1, 3, 6, 1, 4, 1, 9, 9, 13, 1, 5, 1, 4, p.2], "2".toList)]

/-- The platform rows of a Catalyst switch. -/
def catalystPlatformRows (cpuPct tempC : ℚ) (memUsed memFree : Nat) : List Row :=
  [(oidText [1, 3, 6, 1, 2, 1, 47, 1, 1, 1, 1, 4, 1], "0".toList),
   (oidText [1, 3, 6, 1, 2, 1, 47, 1, 1, 1, 1, 4, 1001], "1".toList),
   (oidText [1, 3, 6, 1, 2, 1, 47, 1, 1, 1, 1, 4, 1010], "1".toList),
   (oidText [1, 3, 6, 1, 2, 1, 47, 1, 1, 1, 1, 5, 1], "3".toList),
   (oidText [1, 3, 6, 1, 2, 1, 47, 1, 1, 1, 1, 5, 1001], "12".toList),
   (oidText [1, 3, 6, 1, 2, 1, 47, 1, 1, 1, 1, 5, 1010], "8".toList),
   (oidText [1, 3, 6, 1, 2, 1, 47, 1, 1, 1, 1, 7, 1], "Switch 1 Chassis".toList),
   (oidText [1, 3, 6, 1, 2, 1, 47, 1, 1, 1, 1, 7, 1001], "Switch 1 CPU".toList),
   (oidText [1, 3, 6, 1, 2, 1, 47, 1, 1, 1, 1, 7, 1010], "Switch 1 - Temp Sensor 0".toList),
   (oidText [1, 3, 6, 1, 4, 1, 9, 9, 109, 1, 1, 1, 1, 2, 7], "1001".toList),
   (oidText [1, 3, 6, 1, 4, 1, 9, 9, 109, 1, 1, 1, 1, 8, 7], Text.str (round cpuPct)),
   (oidText [1, 3, 6, 1, 4, 1, 9, 9, 221, 1, 1, 1, 1, 3, 2, 1], "Processor".toList),
   (oidText [1, 3, 6, 1, 4, 1, 9, 9, 221, 1, 1, 1, 1, 18, 2, 1], Text.decimal memUsed),
   (oidText [1, 3, 6, 1, 4, 1, 9, 9, 221, 1, 1, 1, 1, 20, 2, 1], Text.decimal memFree),
   (oidText [1, 3, 6, 1, 4, 1, 9, 9, 91, 1, 1, 1, 1, 1, 1010], "8".toList),
   (oidText [1, 3, 6, 1, 4, 1, 9, 9, 91, 1, 1, 1, 1, 2, 1010], "9".toList),
   (oidText [1, 3, 6, 1, 4, 1, 9, 9, 91, 1, 1, 1, 1, 3, 1010], "0".toList),
   (oidText [1, 3, 6, 1, 4, 1, 9, 9, 91, 1, 1, 1, 1, 4, 1010], Text.str (round tempC)),
   (oidText [1, 3, 6, 1, 4, 1, 9, 9, 91, 1, 1, 1, 1, 5, 1010], "1".toList),
   (oidText [1, 3, 6, 1, 4, 1, 9, 9, 91, 1, 2, 1, 1, 2, 1010, 1], "10".toList),
   (oidText [1, 3, 6, 1, 4, 1, 9, 9, 91, 1, 2, 1, 1, 3, 1010, 1], "4".toList),
   (oidText [1, 3, 6, 1, 4, 1, 9, 9, 91, 1, 2, 1, 1, 4, 1010, 1], "65".toList),
   (oidText [1, 3, 6, 1, 4, 1, 9, 9, 91, 1, 2, 1, 1, 2, 1010, 2], "20".toList),
   (oidText [1, 3, 6, 1, 4, 1, 9, 9, 91, 1, 2, 1, 1, 3, 1010, 2], "4".toList),
   (oidText [1, 3, 6, 1, 4, 1, 9, 9, 91, 1, 2, 1, 1, 4, 1010, 2], "75".toList)] ++
  envmonFanPsuRows ["Switch 1 - FAN 1", "Switch 1 - FAN 2"]
    ["Switch 1 - Power Supply A, Normal", "Switch 1 - Power Supply B, Normal"]

/-- The OID of the number of interfaces. -/
def ifNumberOid : Oid := [1, 3, 6, 1, 2, 1, 2, 1, 0]

def ifNumberRow (ifaces : List Iface) : Row :=
  (oidText ifNumberOid, Text.decimal ifaces.length)

/-- The rows of all interfaces of a device, in order. -/
def ifaceRows : List Iface → Render (List Row)
  | [] => pure []
  | it :: ifaces => do
      let first ← it.rows
      let rest ← ifaceRows ifaces
      pure (first ++ rest)

/-! ## The core switch -/

namespace SwCore

def short : Text := "sw-core-01".toList

def sysDescr : Text :=
  ("Cisco IOS Software [Amsterdam], Catalyst L3 Switch Software " ++
    "(CAT9K_IOSXE), Version 17.3.4, RELEASE SOFTWARE (fc2), " ++
    "Copyright (c) 1986-2021 by Cisco Systems, Inc.").toList

/-- The trunks of the core: the peer each port names, and its base rates. -/
def peers : List (String × ℚ≥0 × ℚ≥0) :=
  [("link sw-dc-dist-01 (DC distribution)", 210000000, 240000000),
   ("link sw-dc-dist-02 (DC distribution)", 205000000, 232000000),
   ("link sw-hq-dist-01 (HQ distribution)", 120000000, 90000000),
   ("link rt-wan-01 Gi0/0 (WAN head-end)", 21000000, 24000000),
   ("link rt-inet-01 (internet edge)", 34000000, 28000000),
   ("link fw-01 (edge firewall HA, active)", 30000000, 26000000),
   ("link fw-02 (edge firewall HA, passive)", 600000, 500000),
   ("link fw-dmz-01 (DMZ)", 6000000, 5000000),
   ("link sw-access-01 Te1/1/1", 17000000, 11000000),
   ("link sw-access-01 Te1/1/2", 16000000, 11000000),
   ("(spare)", 500000, 400000),
   ("(spare)", 400000, 300000)]

def ifaces : List Iface :=
  (peers.zipIdx 1).map fun p =>
    { dev := short
      index := p.2
      name := "Te1/0/".toList ++ Text.decimal p.2
      descr := "TenGigabitEthernet1/0/".toList ++ Text.decimal p.2
      label := p.1.1.toList
      mbit := 10000
      inBps := p.1.2.1
      outBps := p.1.2.2
      seed := 1 }

def rows (pf : Platform) (now : ℚ) : Render (List Row) := do
  let system := systemRows pf short sysDescr ".1.3.6.1.4.1.9.1.2494".toList
    "DC comms room, network row".toList (214 * 86400) now
  let interfaces ← ifaceRows ifaces
  let cpu ← Render.gauge "core.cpu".toList 14 4
  let temp ← Render.gauge "core.temp".toList 39 (3 / 2)
  pure (system ++ ifNumberRow ifaces :: interfaces ++
    catalystPlatformRows cpu temp 1912602624 6275072000)

end SwCore

/-! ## The access switches -/

namespace SwAccess

/-- A number of at least two digits. -/
def twoDigits (n : Nat) : Text :=
  if n < 10 then '0' :: Text.decimal n else Text.decimal n

def short (num : Nat) : Text :=
  "sw-access-".toList ++ twoDigits num

def sysDescr : Text :=
  ("Cisco IOS Software [Amsterdam], Catalyst L3 Switch Software " ++
    "(CAT9K_LITE_IOSXE), Version 17.3.4, RELEASE SOFTWARE (fc2), " ++
    "Copyright (c) 1986-2021 by Cisco Systems, Inc.").toList

/-- The hardware address seed; replicas have their own. -/
def macSeed (num : Nat) : Nat :=
  if num = 1 then 2 else 16 + num

/-- The base rates of an access port: three draws a port, most ports lightly used. -/
def portRates (pf : Platform) (num n : Nat) : ℚ≥0 × ℚ≥0 :=
  let seed := Seed.int (42 + num)
  let draw := 3 * (n - 1)
  let baseIn :=
    if pf.random seed draw < 7 / 10 then pf.uniform seed (draw + 1) 100000 3000000 / 8
    else pf.uniform seed (draw + 1) 5000000 25000000 / 8
  (baseIn, baseIn * pf.uniform seed (draw + 2) (3 / 10) 1)

/-- The 48 access ports. -/
def accessPorts (pf : Platform) (num : Nat) : List Iface :=
  (List.range' 1 48).map fun n =>
    { dev := short num
      index := n
      name := "Gi1/0/".toList ++ Text.decimal n
      descr := "GigabitEthernet1/0/".toList ++ Text.decimal n
      label := []
      mbit := 1000
      inBps := (portRates pf num n).1
      outBps := (portRates pf num n).2
      seed := macSeed num }

/-- An uplink to the core, carrying its share of the access ports' traffic. -/
def uplink (pf : Platform) (num index : Nat) (unit : String) (inShare : ℚ≥0) : Iface :=
  let accIn := ((accessPorts pf num).map Iface.inBps).sum
  let accOut := ((accessPorts pf num).map Iface.outBps).sum
  { dev := short num
    index := index
    name := "Te".toList ++ unit.toList
    descr := "TenGigabitEthernet".toList ++ unit.toList
    label := "uplink sw-core-01".toList
    mbit := 10000
    inBps := accOut * inShare
    outBps := accIn * (1 / 2)
    seed := macSeed num }

def up1 (pf : Platform) (num : Nat) : Iface :=
  uplink pf num 49 "1/1/1" (51 / 100)

def up2 (pf : Platform) (num : Nat) : Iface :=
  uplink pf num 50 "1/1/2" (49 / 100)

def ifaces (pf : Platform) (num : Nat) : List Iface :=
  accessPorts pf num ++ [up1 pf num, up2 pf num]

/-- Set the uplinks' shared attributes for the incident state. -/
def applyState (pf : Platform) (num : Nat) : Render Unit := do
  let ppsIn := (up1 pf num).inBps / 700
  match ← Render.getState with
  | .healthy =>
      Render.storeOper 49 1
      Render.store .errRate 49 0
      Render.store .rateFactor 49 1
      Render.store .rateFactor 50 1
  | .degraded =>
      let minutes ← Render.degradedMinutes
      let m := min 1 (minutes / 2)
      Render.storeOper 49 1
      Render.store .errRate 49 (4 / 10000 * ppsIn * m)
      Render.store .rateFactor 49 1
      Render.store .rateFactor 50 1
  | .broken =>
      Render.storeOper 49 2
      Render.store .errRate 49 0
      let r ← Render.ramp 2
      Render.store .rateFactor 50 (1 + 95 / 100 * r)

def rows (pf : Platform) (num : Nat) (now : ℚ) : Render (List Row) := do
  applyState pf num
  let system := systemRows pf (short num) sysDescr ".1.3.6.1.4.1.9.1.2695".toList
    ("DC row ".toList ++ Text.decimal num ++ ", server access".toList)
    ((87 - 3 * num) * 86400) now
  let interfaces ← ifaceRows (ifaces pf num)
  let cpu ← Render.gauge (short num ++ ".cpu".toList) 9 3
  let temp ← Render.gauge (short num ++ ".temp".toList) 43 (3 / 2)
  pure (system ++ ifNumberRow (ifaces pf num) :: interfaces ++
    catalystPlatformRows cpu temp 1204570112 2890137600)

end SwAccess

/-! ## The WAN router -/

namespace RtWan

def short : Text := "rt-wan-01".toList

def sysDescr : Text :=
  ("Cisco IOS Software, C2900 Software (C2900-UNIVERSALK9-M), " ++
    "Version 15.7(3)M5, RELEASE SOFTWARE (fc1), " ++
    "Copyright (c) 1986-2019 by Cisco Systems, Inc.").toList

def lan : Iface where
  dev := short
  index := 1
  name := "Gi0/0".toList
  descr := "GigabitEthernet0/0".toList
  label := "LAN to sw-core-01 Te1/0/4".toList
  mbit := 1000
  inBps := 24000000
  outBps := 21000000
  seed := 3

def wan : Iface where
  dev := short
  index := 2
  name := "Gi0/1".toList
  descr := "GigabitEthernet0/1".toList
  label := "WAN leased lines to warehouses (rt-wh1/rt-wh2)".toList
  mbit := 1000
  inBps := 22500000
  outBps := 19000000
  seed := 3

def ifaces : List Iface := [lan, wan]

/-- The traffic factor and the processor load of the incident state. -/
def factorCpu : Render (ℚ≥0 × ℚ) := do
  match ← Render.getState with
  | .healthy =>
      let cpu ← Render.gauge "wan.cpu".toList 22 5
      pure (1, cpu)
  | .degraded =>
      let minutes ← Render.degradedMinutes
      let m := min 1 (minutes / 3)
      let cpu ← Render.gauge "wan.cpu".toList (lerp 25 68 m) 4
      pure (lerp 1 (33 / 10) m, cpu)
  | .broken =>
      let r ← Render.ramp 3
      let cpu ← Render.gauge "wan.cpu".toList (lerp 68 93 r) 2
      pure (lerp (33 / 10) (52 / 10) r, cpu)

/-- The processor, memory pools and environment of the router. -/
def platformRows (cpu temp : ℚ) : List Row :=
  [(oidText [1, 3, 6, 1, 4, 1, 9, 9, 109, 1, 1, 1, 1, 8, 1], Text.str (round cpu)),
   (oidText [1, 3, 6, 1, 4, 1, 9, 9, 48, 1, 1, 1, 2, 1], "Processor".toList),
   (oidText [1, 3, 6, 1, 4, 1, 9, 9, 48, 1, 1, 1, 5, 1], "231972864".toList),
   (oidText [1, 3, 6, 1, 4, 1, 9, 9, 48, 1, 1, 1, 6, 1], "289406976".toList),
   (oidText [1, 3, 6, 1, 4, 1, 9, 9, 48, 1, 1, 1, 2, 2], "I/O".toList),
   (oidText [1, 3, 6, 1, 4, 1, 9, 9, 48, 1, 1, 1, 5, 2], "35651584".toList),
   (oidText [1, 3, 6, 1, 4, 1, 9, 9, 48, 1, 1, 1, 6, 2], "31457280".toList)] ++
  envmonTempRows "chassis" temp 65 ++ envmonFanPsuRows ["Fan 1"] ["PS1 Normal"]

def rows (pf : Platform) (now : ℚ) : Render (List Row) := do
  let (factor, cpu) ← factorCpu
  Render.store .rateFactor wan.index factor
  Render.store .rateFactor lan.index (lerp 1 (115 / 100) (min 1 (factor / 5)))
  -- a saturated egress drops packets
  Render.store .discRate wan.index (if factor < 9 / 2 then 0 else (factor - 9 / 2) * 120)
  let system := systemRows pf short sysDescr ".1.3.6.1.4.1.9.1.1639".toList "DC rack A2".toList
    (391 * 86400) now
  let interfaces ← ifaceRows ifaces
  let temp ← Render.gauge "wan.temp".toList (46 + (cpu - 22) * (12 / 100)) (12 / 10)
  pure (system ++ ifNumberRow ifaces :: interfaces ++ platformRows cpu temp)

end RtWan

/-! ## The power supply -/

namespace Ups

def short : Text := "ups-01".toList

def sysDescr : Text :=
  ("APC Web/SNMP Management Card (MB:v4.1.0 PF:v6.9.6 " ++
    "PN:apc_hw05_aos_696.bin AF1:v6.9.6 " ++
    "AN1:apc_hw05_sumx_696.bin MN:AP9631 HR:05) " ++
    "(Embedded PowerNet SNMP Agent SW v2.2 compatible)").toList

/-- The battery, output and diagnostics of the power supply. -/
def powerRows (cap temp runtimeTicks amps voltIn : ℤ) (diag : Text) : List Row :=
  [(oidText [1, 3, 6, 1, 4, 1, 318, 1, 1, 1, 2, 1, 1, 0], "2".toList),
   (oidText [1, 3, 6, 1, 4, 1, 318, 1, 1, 1, 2, 2, 1, 0], Text.str cap),
   (oidText [1, 3, 6, 1, 4, 1, 318, 1, 1, 1, 2, 2, 2, 0], Text.str temp),
   (oidText [1, 3, 6, 1, 4, 1, 318, 1, 1, 1, 2, 2, 3, 0], Text.str runtimeTicks),
   (oidText [1, 3, 6, 1, 4, 1, 318, 1, 1, 1, 2, 2, 4, 0], "1".toList),
   (oidText [1, 3, 6, 1, 4, 1, 318, 1, 1, 1, 2, 2, 6, 0], "1".toList),
   (oidText [1, 3, 6, 1, 4, 1, 318, 1, 1, 1, 2, 2, 9, 0], Text.str amps),
   (oidText [1, 3, 6, 1, 4, 1, 318, 1, 1, 1, 3, 2, 1, 0], Text.str voltIn),
   (oidText [1, 3, 6, 1, 4, 1, 318, 1, 1, 1, 4, 1, 1, 0], "2".toList),
   (oidText [1, 3, 6, 1, 4, 1, 318, 1, 1, 1, 7, 2, 3, 0], "1".toList),
   (oidText [1, 3, 6, 1, 4, 1, 318, 1, 1, 1, 7, 2, 4, 0], diag),
   (oidText [1, 3, 6, 1, 4, 1, 318, 1, 1, 1, 7, 2, 6, 0], "1".toList),
   (oidText [1, 3, 6, 1, 4, 1, 318, 1, 1, 1, 8, 1, 0], "1".toList),
   (oidText [1, 3, 6, 1, 4, 1, 318, 1, 1, 1, 11, 1, 1, 0],
    "0001010000000000001000000000000000000000000000000000000000000000".toList)]

def rows (pf : Platform) (now : ℚ) : Render (List Row) := do
  let cap ← gaugeInt "ups.cap" (994 / 10) (7 / 10)
  let temp ← gaugeInt "ups.temp" 25 (3 / 2)
  let load ← gaugeInt "ups.load" 37 4
  let _ ← gaugeInt "ups.vout" 231 2
  let voltIn ← gaugeInt "ups.vin" 230 2
  let runtime ← Render.gauge "ups.runtime".toList 7200 350
  let amps := max 1 (round (load / 9))
  let diag := pf.date (now - 37 * 86400)
  let system := systemRows pf short sysDescr ".1.3.6.1.4.1.318.1.3.27".toList
    "DC rack A2, bottom".toList (402 * 86400) now
  pure (system ++ powerRows (min 100 cap) temp (int runtime * 100) amps voltIn diag)

end Ups

/-! ## The rows of a synthetic device -/

/-- The devices that render every row anew. -/
inductive Synthetic where
  | swCore
  | swAccess (num : Nat)
  | rtWan
  | ups

namespace Synthetic

def short : Synthetic → Text
  | swCore => SwCore.short
  | swAccess num => SwAccess.short num
  | rtWan => RtWan.short
  | ups => Ups.short

def ifaces (pf : Platform) : Synthetic → List Iface
  | swCore => SwCore.ifaces
  | swAccess num => SwAccess.ifaces pf num
  | rtWan => RtWan.ifaces
  | ups => []

def rows (pf : Platform) (dev : Synthetic) (now : ℚ) : Render (List Row) :=
  match dev with
  | swCore => SwCore.rows pf now
  | swAccess num => SwAccess.rows pf num now
  | rtWan => RtWan.rows pf now
  | ups => Ups.rows pf now

end Synthetic

/-- The counter behind a 64-bit column, and its sampled value. -/
def IfaceVals.hc (vals : IfaceVals) : Nat → Option (String × ℤ)
  | 6 => some ("in_oct", vals.inOct)
  | 7 => some ("in_ucast", vals.inUcast)
  | 8 => some ("in_mcast", vals.inMcast)
  | 9 => some ("in_bcast", vals.inBcast)
  | 10 => some ("out_oct", vals.outOct)
  | 11 => some ("out_ucast", vals.outUcast)
  | 12 => some ("out_mcast", vals.outMcast)
  | 13 => some ("out_bcast", vals.outBcast)
  | _ => none

section Ensures

variable {P : Text → ℤ → Prop} {Q : Text → Text → Prop}

/-- An operation that is no sample and remembers nothing. -/
theorem ensures_other {α : Type} {post : α → Prop} {op : Op} {f : Ans op → Render α}
    (hop : (readings P Q).asks op) (h : ∀ ans, (f ans).Ensures (readings P Q) post) :
    (Program.call op >>= f).Ensures (readings P Q) post :=
  Program.ensures_call hop fun ans _ => h ans

theorem ensures_sample {α : Type} {post : α → Prop} {name : Text} {rate : ℚ≥0}
    {cap : Option ℚ≥0} {f : ℤ → Render α}
    (h : ∀ v, P name v → (f v).Ensures (readings P Q) post) :
    (Render.sample name rate cap >>= f).Ensures (readings P Q) post :=
  Program.ensures_call trivial h

theorem ensures_loadIf {α : Type} {post : α → Prop} {up : Bool} {attr : Attr} {index : Nat}
    {f : ℚ≥0 → Render α} (h : ∀ v, (f v).Ensures (readings P Q) post) :
    (loadIf up attr index >>= f).Ensures (readings P Q) post := by
  cases up with
  | true => exact ensures_other trivial h
  | false => exact h 0

theorem ensures_gaugeInt {α : Type} {post : α → Prop} {name : String} {base amp : ℚ}
    {f : ℤ → Render α} (h : ∀ v, (f v).Ensures (readings P Q) post) :
    (gaugeInt name base amp >>= f).Ensures (readings P Q) post :=
  ensures_other trivial fun _ => h _

theorem Iface.sampleAll_ensures (it : Iface) :
    it.sampleAll.Ensures (readings P Q) fun vals => ∀ c counter v,
      vals.hc c = some (counter, v) → P (ifaceKey it.dev it.index counter) v := by
  unfold Iface.sampleAll
  refine ensures_other trivial fun oper => ?_
  refine ensures_loadIf fun f => ?_
  refine ensures_sample fun inOct hInOct => ?_
  refine ensures_sample fun outOct hOutOct => ?_
  refine ensures_sample fun inUcast hInUcast => ?_
  refine ensures_sample fun outUcast hOutUcast => ?_
  refine ensures_sample fun inMcast hInMcast => ?_
  refine ensures_sample fun inBcast hInBcast => ?_
  refine ensures_sample fun outMcast hOutMcast => ?_
  refine ensures_sample fun outBcast hOutBcast => ?_
  refine ensures_sample fun inDisc _ => ?_
  refine ensures_loadIf fun errRate => ?_
  refine ensures_sample fun inErr _ => ?_
  refine ensures_loadIf fun discRate => ?_
  refine ensures_sample fun outDisc _ => ?_
  refine ensures_sample fun outErr _ => ?_
  intro c counter v hc
  unfold IfaceVals.hc at hc
  split at hc <;> cases hc
  · exact hInOct
  · exact hInUcast
  · exact hInMcast
  · exact hInBcast
  · exact hOutOct
  · exact hOutUcast
  · exact hOutMcast
  · exact hOutBcast

/-- Setting the uplinks' attributes keeps to every contract of readings. -/
theorem SwAccess.applyState_ensures (pf : Platform) (num : Nat) :
    (SwAccess.applyState pf num).Ensures (readings P Q) fun _ => True := by
  unfold SwAccess.applyState
  refine ensures_other trivial fun state => ?_
  cases state with
  | healthy =>
      refine ensures_other trivial fun _ => ?_
      refine ensures_other trivial fun _ => ?_
      refine ensures_other trivial fun _ => ?_
      exact ⟨trivial, fun _ _ => trivial⟩
  | degraded =>
      refine ensures_other trivial fun minutes => ?_
      refine ensures_other trivial fun _ => ?_
      refine ensures_other trivial fun _ => ?_
      refine ensures_other trivial fun _ => ?_
      exact ⟨trivial, fun _ _ => trivial⟩
  | broken =>
      refine ensures_other trivial fun _ => ?_
      refine ensures_other trivial fun _ => ?_
      refine ensures_other trivial fun r => ?_
      exact ⟨trivial, fun _ _ => trivial⟩

theorem RtWan.factorCpu_ensures :
    RtWan.factorCpu.Ensures (readings P Q) fun _ => True := by
  unfold RtWan.factorCpu
  refine ensures_other trivial fun state => ?_
  cases state with
  | healthy => exact ⟨trivial, fun _ _ => trivial⟩
  | degraded =>
      refine ensures_other trivial fun minutes => ?_
      exact ⟨trivial, fun _ _ => trivial⟩
  | broken =>
      refine ensures_other trivial fun r => ?_
      exact ⟨trivial, fun _ _ => trivial⟩

end Ensures

/-- A 64-bit interface counter OID. -/
def hcOid (column index : Nat) : Oid :=
  [1, 3, 6, 1, 2, 1, 31, 1, 1, 1, column, index]

theorem parseOid_ifEntry (column index : Nat) :
    parseOid (ifEntry column index) = .ok [1, 3, 6, 1, 2, 1, 2, 2, 1, column, index] :=
  parseOid_oidText _ _

theorem parseOid_ifXEntry (column index : Nat) :
    parseOid (ifXEntry column index) = .ok (hcOid column index) :=
  parseOid_oidText _ _

/-- A row of an interface under a 64-bit counter OID shows the sampled value. -/
theorem Iface.rowsOf_hc (it : Iface) (vals : IfaceVals) (oper : Nat) {row : Row}
    (hrow : row ∈ it.rowsOf vals oper) {column index : Nat}
    (hoid : parseOid row.1 = .ok (hcOid column index)) {counter : String} {v : ℤ}
    (hc : vals.hc column = some (counter, v)) :
    index = it.index ∧ row.2 = Text.str v := by
  simp only [Iface.rowsOf, List.mem_cons, List.not_mem_nil, or_false] at hrow
  rcases hrow with rfl | rfl | rfl | rfl | rfl | rfl | rfl | rfl | rfl | rfl | rfl | rfl | rfl |
    rfl | rfl | rfl | rfl | rfl | rfl | rfl | rfl | rfl <;>
    simp only [parseOid_ifEntry, parseOid_ifXEntry, hcOid, Except.ok.injEq, List.cons.injEq,
      true_and, and_true, Nat.reduceEqDiff, false_and, and_false] at hoid
  all_goals
    rcases hoid with ⟨rfl, rfl⟩
    cases hc
  all_goals exact ⟨rfl, rfl⟩

/-- The OIDs of an interface's rows. -/
def Iface.oids (it : Iface) : List Text :=
  (it.rowsOf default 0).map Prod.fst

/-- The counter of each 64-bit column. -/
def hcCounter (column : Nat) : Option String :=
  ((default : IfaceVals).hc column).map Prod.fst

theorem exists_hc {column : Nat} {counter : String} (h : hcCounter column = some counter)
    (vals : IfaceVals) : ∃ v, vals.hc column = some (counter, v) := by
  unfold hcCounter IfaceVals.hc at h
  split at h <;> cases h <;> exact ⟨_, rfl⟩

/-- The values an interface shows of itself are plain. -/
structure Iface.Plain (it : Iface) : Prop where
  name : Text.Plain it.name
  descr : Text.Plain it.descr
  label : Text.Plain it.label

theorem Iface.rowsOf_plain {it : Iface} (hit : it.Plain) (vals : IfaceVals) (oper : Nat) :
    ∀ row ∈ it.rowsOf vals oper, Text.Plain row.2 := by
  simp only [Iface.rowsOf, List.forall_mem_cons, List.not_mem_nil, false_implies, implies_true,
    and_true]
  repeat' apply And.intro
  all_goals first
    | exact Text.plain_decimal _
    | exact Text.plain_str _
    | exact hit.name
    | exact hit.descr
    | exact hit.label
    | exact plain_hexBytes _
    | exact Text.plain_literal (by decide)

/-- What the interfaces of a device render: fixed OIDs, plain values, and one sampled
value under every 64-bit counter OID. -/
structure IfacesRendered (ifaces : List Iface) (P : Text → ℤ → Prop) (rows : List Row) : Prop where
  oids_eq : rows.map Prod.fst = ifaces.flatMap Iface.oids
  plain : ∀ row ∈ rows, Text.Plain row.2
  sampled : ∀ column index counter, hcCounter column = some counter →
    ∃ v, ∀ row ∈ rows, parseOid row.1 = .ok (hcOid column index) →
      ∃ it ∈ ifaces, it.index = index ∧ P (ifaceKey it.dev index counter) v ∧ row.2 = Text.str v

theorem ifaceRows_ensures {ifaces : List Iface} (hnodup : (ifaces.map Iface.index).Nodup)
    (hplain : ∀ it ∈ ifaces, it.Plain) (P : Text → ℤ → Prop) (Q : Text → Text → Prop) :
    (ifaceRows ifaces).Ensures (readings P Q) (IfacesRendered ifaces P) := by
  induction ifaces with
  | nil => exact { oids_eq := rfl, plain := by simp, sampled := by simp }
  | cons it ifaces ih =>
      rcases List.nodup_cons.mp hnodup with ⟨hfresh, hnodup'⟩
      rw [ifaceRows, Program.ensures_bind, Iface.rows, Program.ensures_bind]
      refine it.sampleAll_ensures.mono fun vals hvals => ?_
      refine ensures_other trivial fun oper => ?_
      have hrest := ih hnodup' fun i hi => hplain i (List.mem_cons_of_mem _ hi)
      refine Program.ensures_bind.mpr (hrest.mono fun rest hrest => ?_)
      constructor
      · rw [List.map_append, List.flatMap_cons, hrest.oids_eq]
        rfl
      · intro row hrow
        rcases List.mem_append.mp hrow with hrow | hrow
        · exact it.rowsOf_plain (hplain it List.mem_cons_self) vals oper row hrow
        · exact hrest.plain row hrow
      · intro column index counter hcounter
        rcases exists_hc hcounter vals with ⟨v, hv⟩
        rcases hrest.sampled column index counter hcounter with ⟨w, hw⟩
        by_cases hindex : it.index = index
        · -- the other interfaces have other indices
          use v
          intro row hrow hoid
          rcases List.mem_append.mp hrow with hrow | hrow
          · refine ⟨it, List.mem_cons_self, hindex, ?_, (it.rowsOf_hc vals oper hrow hoid hv).2⟩
            exact hindex ▸ hvals _ _ _ hv
          · rcases hw row hrow hoid with ⟨it', hit', hindex', -⟩
            exact absurd (hindex.trans hindex'.symm ▸ List.mem_map_of_mem hit') hfresh
        · use w
          intro row hrow hoid
          rcases List.mem_append.mp hrow with hrow | hrow
          · exact absurd (it.rowsOf_hc vals oper hrow hoid hv).1.symm hindex
          · rcases hw row hrow hoid with ⟨it', hit', hrow'⟩
            exact ⟨it', List.mem_cons_of_mem _ hit', hrow'⟩

/-- No OID is that of a 64-bit interface counter, and none is empty. -/
def hcFree (oids : List Oid) : Bool :=
  oids.all fun oid => oid ≠ [] ∧ oid.take 10 ≠ [1, 3, 6, 1, 2, 1, 31, 1, 1, 1]

theorem parseOid_ne_of_hcFree {rows : List Row} {oids : List Oid}
    (hrows : rows.map Prod.fst = oids.map oidText) (h : hcFree oids = true) {row : Row}
    (hrow : row ∈ rows) (column index : Nat) : parseOid row.1 ≠ .ok (hcOid column index) := by
  have htext := List.mem_map_of_mem (f := Prod.fst) hrow
  rw [hrows] at htext
  rcases List.mem_map.mp htext with ⟨oid, hmem, hoid⟩
  have hfree := List.all_eq_true.mp h oid hmem
  simp only [decide_eq_true_eq] at hfree
  rw [← hoid]
  cases oid with
  | nil => exact absurd rfl hfree.1
  | cons arc oid =>
      rw [parseOid_oidText, ne_eq, Except.ok.injEq]
      intro heq
      rw [heq] at hfree
      exact hfree.2 rfl

namespace Synthetic

/-- The OIDs in front of a device's interfaces. -/
def systemOids : List Oid :=
  [[1, 3, 6, 1, 2, 1, 1, 1, 0], [1, 3, 6, 1, 2, 1, 1, 2, 0], [1, 3, 6, 1, 2, 1, 1, 3, 0],
   [1, 3, 6, 1, 2, 1, 1, 4, 0], [1, 3, 6, 1, 2, 1, 1, 5, 0], [1, 3, 6, 1, 2, 1, 1, 6, 0]]

/-- The OIDs behind a device's interfaces. -/
def platformOids : Synthetic → List Oid
  | swCore | swAccess _ =>
      [[1, 3, 6, 1, 2, 1, 47, 1, 1, 1, 1, 4, 1], [1, 3, 6, 1, 2, 1, 47, 1, 1, 1, 1, 4, 1001],
       [1, 3, 6, 1, 2, 1, 47, 1, 1, 1, 1, 4, 1010], [1, 3, 6, 1, 2, 1, 47, 1, 1, 1, 1, 5, 1],
       [1, 3, 6, 1, 2, 1, 47, 1, 1, 1, 1, 5, 1001], [1, 3, 6, 1, 2, 1, 47, 1, 1, 1, 1, 5, 1010],
       [1, 3, 6, 1, 2, 1, 47, 1, 1, 1, 1, 7, 1], [1, 3, 6, 1, 2, 1, 47, 1, 1, 1, 1, 7, 1001],
       [1, 3, 6, 1, 2, 1, 47, 1, 1, 1, 1, 7, 1010],
       [1, 3, 6, 1, 4, 1, 9, 9, 109, 1, 1, 1, 1, 2, 7],
       [1, 3, 6, 1, 4, 1, 9, 9, 109, 1, 1, 1, 1, 8, 7],
       [1, 3, 6, 1, 4, 1, 9, 9, 221, 1, 1, 1, 1, 3, 2, 1],
       [1, 3, 6, 1, 4, 1, 9, 9, 221, 1, 1, 1, 1, 18, 2, 1],
       [1, 3, 6, 1, 4, 1, 9, 9, 221, 1, 1, 1, 1, 20, 2, 1],
       [1, 3, 6, 1, 4, 1, 9, 9, 91, 1, 1, 1, 1, 1, 1010],
       [1, 3, 6, 1, 4, 1, 9, 9, 91, 1, 1, 1, 1, 2, 1010],
       [1, 3, 6, 1, 4, 1, 9, 9, 91, 1, 1, 1, 1, 3, 1010],
       [1, 3, 6, 1, 4, 1, 9, 9, 91, 1, 1, 1, 1, 4, 1010],
       [1, 3, 6, 1, 4, 1, 9, 9, 91, 1, 1, 1, 1, 5, 1010],
       [1, 3, 6, 1, 4, 1, 9, 9, 91, 1, 2, 1, 1, 2, 1010, 1],
       [1, 3, 6, 1, 4, 1, 9, 9, 91, 1, 2, 1, 1, 3, 1010, 1],
       [1, 3, 6, 1, 4, 1, 9, 9, 91, 1, 2, 1, 1, 4, 1010, 1],
       [1, 3, 6, 1, 4, 1, 9, 9, 91, 1, 2, 1, 1, 2, 1010, 2],
       [1, 3, 6, 1, 4, 1, 9, 9, 91, 1, 2, 1, 1, 3, 1010, 2],
       [1, 3, 6, 1, 4, 1, 9, 9, 91, 1, 2, 1, 1, 4, 1010, 2],
       [1, 3, 6, 1, 4, 1, 9, 9, 13, 1, 4, 1, 2, 1], [1, 3, 6, 1, 4, 1, 9, 9, 13, 1, 4, 1, 3, 1],
       [1, 3, 6, 1, 4, 1, 9, 9, 13, 1, 4, 1, 2, 2], [1, 3, 6, 1, 4, 1, 9, 9, 13, 1, 4, 1, 3, 2],
       [1, 3, 6, 1, 4, 1, 9, 9, 13, 1, 5, 1, 2, 1], [1, 3, 6, 1, 4, 1, 9, 9, 13, 1, 5, 1, 3, 1],
       [1, 3, 6, 1, 4, 1, 9, 9, 13, 1, 5, 1, 4, 1], [1, 3, 6, 1, 4, 1, 9, 9, 13, 1, 5, 1, 2, 2],
       [1, 3, 6, 1, 4, 1, 9, 9, 13, 1, 5, 1, 3, 2], [1, 3, 6, 1, 4, 1, 9, 9, 13, 1, 5, 1, 4, 2]]
  | rtWan =>
      [[1, 3, 6, 1, 4, 1, 9, 9, 109, 1, 1, 1, 1, 8, 1],
       [1, 3, 6, 1, 4, 1, 9, 9, 48, 1, 1, 1, 2, 1], [1, 3, 6, 1, 4, 1, 9, 9, 48, 1, 1, 1, 5, 1],
       [1, 3, 6, 1, 4, 1, 9, 9, 48, 1, 1, 1, 6, 1], [1, 3, 6, 1, 4, 1, 9, 9, 48, 1, 1, 1, 2, 2],
       [1, 3, 6, 1, 4, 1, 9, 9, 48, 1, 1, 1, 5, 2], [1, 3, 6, 1, 4, 1, 9, 9, 48, 1, 1, 1, 6, 2],
       [1, 3, 6, 1, 4, 1, 9, 9, 13, 1, 3, 1, 2, 1], [1, 3, 6, 1, 4, 1, 9, 9, 13, 1, 3, 1, 3, 1],
       [1, 3, 6, 1, 4, 1, 9, 9, 13, 1, 3, 1, 4, 1], [1, 3, 6, 1, 4, 1, 9, 9, 13, 1, 3, 1, 6, 1],
       [1, 3, 6, 1, 4, 1, 9, 9, 13, 1, 4, 1, 2, 1], [1, 3, 6, 1, 4, 1, 9, 9, 13, 1, 4, 1, 3, 1],
       [1, 3, 6, 1, 4, 1, 9, 9, 13, 1, 5, 1, 2, 1], [1, 3, 6, 1, 4, 1, 9, 9, 13, 1, 5, 1, 3, 1],
       [1, 3, 6, 1, 4, 1, 9, 9, 13, 1, 5, 1, 4, 1]]
  | ups =>
      [[1, 3, 6, 1, 4, 1, 318, 1, 1, 1, 2, 1, 1, 0], [1, 3, 6, 1, 4, 1, 318, 1, 1, 1, 2, 2, 1, 0],
       [1, 3, 6, 1, 4, 1, 318, 1, 1, 1, 2, 2, 2, 0], [1, 3, 6, 1, 4, 1, 318, 1, 1, 1, 2, 2, 3, 0],
       [1, 3, 6, 1, 4, 1, 318, 1, 1, 1, 2, 2, 4, 0], [1, 3, 6, 1, 4, 1, 318, 1, 1, 1, 2, 2, 6, 0],
       [1, 3, 6, 1, 4, 1, 318, 1, 1, 1, 2, 2, 9, 0], [1, 3, 6, 1, 4, 1, 318, 1, 1, 1, 3, 2, 1, 0],
       [1, 3, 6, 1, 4, 1, 318, 1, 1, 1, 4, 1, 1, 0], [1, 3, 6, 1, 4, 1, 318, 1, 1, 1, 7, 2, 3, 0],
       [1, 3, 6, 1, 4, 1, 318, 1, 1, 1, 7, 2, 4, 0], [1, 3, 6, 1, 4, 1, 318, 1, 1, 1, 7, 2, 6, 0],
       [1, 3, 6, 1, 4, 1, 318, 1, 1, 1, 8, 1, 0], [1, 3, 6, 1, 4, 1, 318, 1, 1, 1, 11, 1, 1, 0]]

/-- All OID texts of a device, in the order of its rows. -/
def oids (pf : Platform) : Synthetic → List Text
  | ups => (systemOids ++ platformOids ups).map oidText
  | dev => systemOids.map oidText ++ oidText ifNumberOid ::
      (dev.ifaces pf).flatMap Iface.oids ++ dev.platformOids.map oidText

theorem hcFree_systemOids : hcFree systemOids = true := by decide

theorem hcFree_platformOids (dev : Synthetic) : hcFree dev.platformOids = true := by
  cases dev <;> rfl

theorem dev_of_mem_ifaces {pf : Platform} {dev : Synthetic} {it : Iface}
    (h : it ∈ dev.ifaces pf) : it.dev = dev.short := by
  cases dev with
  | swCore =>
      rcases List.mem_map.mp h with ⟨p, -, rfl⟩
      rfl
  | swAccess num =>
      rcases List.mem_append.mp h with h | h
      · rcases List.mem_map.mp h with ⟨n, -, rfl⟩
        rfl
      · simp only [List.mem_cons, List.not_mem_nil, or_false] at h
        rcases h with rfl | rfl <;> rfl
  | rtWan =>
      simp only [ifaces, RtWan.ifaces, List.mem_cons, List.not_mem_nil, or_false] at h
      rcases h with rfl | rfl <;> rfl
  | ups => simp [ifaces] at h

theorem nodup_index_ifaces (pf : Platform) (dev : Synthetic) :
    ((dev.ifaces pf).map Iface.index).Nodup := by
  cases dev with
  | swCore =>
      have hindex : SwCore.ifaces.map Iface.index = List.range' 1 SwCore.peers.length := by
        rw [SwCore.ifaces, List.map_map, ← List.zipIdx_map_snd 1]
        rfl
      exact hindex ▸ List.nodup_range'
  | swAccess num =>
      have hindex : (SwAccess.ifaces pf num).map Iface.index = List.range' 1 50 := by
        simp only [SwAccess.ifaces, SwAccess.accessPorts, List.map_append, List.map_map]
        rfl
      exact hindex ▸ List.nodup_range'
  | rtWan =>
      change [1, 2].Nodup
      decide
  | ups => exact List.nodup_nil

theorem plain_ifaces (pf : Platform) (dev : Synthetic) : ∀ it ∈ dev.ifaces pf, it.Plain := by
  have hnamed : ∀ {s : String} (n : Nat), Text.Plain s.toList →
      Text.Plain (s.toList ++ Text.decimal n) := fun n hs => hs.append (Text.plain_decimal n)
  intro it h
  cases dev with
  | swCore =>
      rcases List.mem_map.mp h with ⟨p, hp, rfl⟩
      have hlabels : ∀ p ∈ SwCore.peers, Text.Plain p.1.toList := by
        simp only [SwCore.peers, List.forall_mem_cons, List.not_mem_nil, false_implies,
          implies_true, and_true]
        repeat' apply And.intro
        all_goals exact Text.plain_literal (by decide)
      exact
        { name := hnamed p.2 (Text.plain_literal (by decide))
          descr := hnamed p.2 (Text.plain_literal (by decide))
          label := hlabels p.1 (List.fst_mem_of_mem_zipIdx hp) }
  | swAccess num =>
      rcases List.mem_append.mp h with h | h
      · rcases List.mem_map.mp h with ⟨n, -, rfl⟩
        exact
          { name := hnamed n (Text.plain_literal (by decide))
            descr := hnamed n (Text.plain_literal (by decide))
            label := List.forall_mem_nil _ }
      · have huplink : ∀ (index : Nat) (unit : String) (share : ℚ≥0), Text.Plain unit.toList →
            (SwAccess.uplink pf num index unit share).Plain := fun index unit share hunit =>
          { name := (Text.plain_literal (by decide)).append hunit
            descr := (Text.plain_literal (by decide)).append hunit
            label := Text.plain_literal (by decide) }
        simp only [List.mem_cons, List.not_mem_nil, or_false] at h
        rcases h with rfl | rfl
        · exact huplink 49 _ _ (Text.plain_literal (by decide))
        · exact huplink 50 _ _ (Text.plain_literal (by decide))
  | rtWan =>
      simp only [ifaces, RtWan.ifaces, List.mem_cons, List.not_mem_nil, or_false] at h
      rcases h with rfl | rfl <;>
        exact
          { name := Text.plain_literal (by decide)
            descr := Text.plain_literal (by decide)
            label := Text.plain_literal (by decide) }
  | ups => simp [ifaces] at h

/-- The system descriptions of the devices are plain. -/
theorem plain_sysDescr : Text.Plain SwCore.sysDescr ∧ Text.Plain SwAccess.sysDescr ∧
    Text.Plain RtWan.sysDescr ∧ Text.Plain Ups.sysDescr := by
  refine ⟨?_, ?_, ?_, ?_⟩
  · exact Text.plain_toList_append (Text.plain_toList_append (Text.plain_literal (by decide))
      (Text.plain_literal (by decide))) (Text.plain_literal (by decide))
  · exact Text.plain_toList_append (Text.plain_toList_append (Text.plain_literal (by decide))
      (Text.plain_literal (by decide))) (Text.plain_literal (by decide))
  · exact Text.plain_toList_append (Text.plain_toList_append (Text.plain_literal (by decide))
      (Text.plain_literal (by decide))) (Text.plain_literal (by decide))
  · exact Text.plain_toList_append (Text.plain_toList_append (Text.plain_toList_append
      (Text.plain_literal (by decide)) (Text.plain_literal (by decide)))
      (Text.plain_literal (by decide))) (Text.plain_literal (by decide))

/-- Rows with fixed OIDs and plain values. -/
structure FixedRows (oids : List Oid) (rows : List Row) : Prop where
  oids_eq : rows.map Prod.fst = oids.map oidText
  plain : ∀ row ∈ rows, Text.Plain row.2

theorem systemRows_fixed (pf : Platform) {short sysDescr sysObjectid location : Text}
    (hshort : Text.Plain short) (hdescr : Text.Plain sysDescr) (hobject : Text.Plain sysObjectid)
    (hlocation : Text.Plain location) (uptimeOffset now : ℚ) :
    FixedRows systemOids
      (systemRows pf short sysDescr sysObjectid location uptimeOffset now) where
  oids_eq := rfl
  plain := by
    simp only [systemRows, List.forall_mem_cons, List.not_mem_nil, false_implies, implies_true,
      and_true]
    refine ⟨hdescr, hobject, Text.plain_str _, Text.plain_literal (by decide), ?_, hlocation⟩
    exact hshort.append (Text.Plain.cons rfl pf.domain_plain)

theorem plain_envmonFanPsuRows {fans psus : List String} (hfans : ∀ f ∈ fans, Text.Plain f.toList)
    (hpsus : ∀ f ∈ psus, Text.Plain f.toList) :
    ∀ row ∈ envmonFanPsuRows fans psus, Text.Plain row.2 := by
  intro row hrow
  rcases List.mem_append.mp hrow with hrow | hrow
  · rcases List.mem_flatMap.mp hrow with ⟨p, hp, hrow⟩
    simp only [List.mem_cons, List.not_mem_nil, or_false] at hrow
    rcases hrow with rfl | rfl
    · exact hfans _ (List.fst_mem_of_mem_zipIdx hp)
    · exact Text.plain_literal (by decide)
  · rcases List.mem_flatMap.mp hrow with ⟨p, hp, hrow⟩
    simp only [List.mem_cons, List.not_mem_nil, or_false] at hrow
    rcases hrow with rfl | rfl | rfl
    · exact hpsus _ (List.fst_mem_of_mem_zipIdx hp)
    · exact Text.plain_literal (by decide)
    · exact Text.plain_literal (by decide)

theorem catalystPlatformRows_fixed (dev : Synthetic) (hdev : dev.platformOids = swCore.platformOids)
    (cpuPct tempC : ℚ) (memUsed memFree : Nat) :
    FixedRows dev.platformOids (catalystPlatformRows cpuPct tempC memUsed memFree) where
  oids_eq := hdev ▸ rfl
  plain := by
    rw [catalystPlatformRows, List.forall_mem_append]
    constructor
    · simp only [List.forall_mem_cons, List.not_mem_nil, false_implies, implies_true, and_true]
      repeat' apply And.intro
      all_goals first
        | exact Text.plain_decimal _
        | exact Text.plain_str _
        | exact Text.plain_literal (by decide)
    · apply plain_envmonFanPsuRows
      all_goals
        simp only [List.forall_mem_cons, List.not_mem_nil, false_implies, implies_true, and_true]
        exact ⟨Text.plain_literal (by decide), Text.plain_literal (by decide)⟩

theorem rtWan_platformRows_fixed (cpu temp : ℚ) :
    FixedRows rtWan.platformOids (RtWan.platformRows cpu temp) where
  oids_eq := rfl
  plain := by
    rw [RtWan.platformRows, List.forall_mem_append]
    constructor
    · simp only [envmonTempRows, List.cons_append, List.nil_append, List.forall_mem_cons,
        List.not_mem_nil, false_implies, implies_true, and_true]
      repeat' apply And.intro
      all_goals first
        | exact Text.plain_decimal _
        | exact Text.plain_str _
        | exact Text.plain_literal (by decide)
    · apply plain_envmonFanPsuRows
      all_goals
        simp only [List.forall_mem_cons, List.not_mem_nil, false_implies, implies_true, and_true]
        exact Text.plain_literal (by decide)

theorem ups_powerRows_fixed (cap temp runtimeTicks amps voltIn : ℤ) {diag : Text}
    (hdiag : Text.Plain diag) :
    FixedRows ups.platformOids (Ups.powerRows cap temp runtimeTicks amps voltIn diag) where
  oids_eq := rfl
  plain := by
    simp only [Ups.powerRows, List.forall_mem_cons, List.not_mem_nil, false_implies, implies_true,
      and_true]
    repeat' apply And.intro
    all_goals first
      | exact Text.plain_str _
      | exact hdiag
      | exact Text.plain_literal (by decide)

/-- What a device renders: fixed OIDs, plain values, and one sampled value under every
64-bit interface counter OID. -/
structure Rendered (pf : Platform) (dev : Synthetic) (P : Text → ℤ → Prop) (rows : List Row) :
    Prop where
  oids_eq : rows.map Prod.fst = dev.oids pf
  plain : ∀ row ∈ rows, Text.Plain row.2
  sampled : ∀ column index counter, hcCounter column = some counter →
    ∃ v, ∀ row ∈ rows, parseOid row.1 = .ok (hcOid column index) →
      P (ifaceKey dev.short index counter) v ∧ row.2 = Text.str v

/-- The rows of a device with interfaces are put together from rendered parts. -/
theorem rendered_of_parts {pf : Platform} {dev : Synthetic} {P : Text → ℤ → Prop}
    (hups : dev ≠ ups) {system interfaces platform : List Row} {n : Nat}
    (hsystem : FixedRows systemOids system)
    (hinterfaces : IfacesRendered (dev.ifaces pf) P interfaces)
    (hplatform : FixedRows dev.platformOids platform) :
    Rendered pf dev P (system ++ (oidText ifNumberOid, Text.decimal n) :: interfaces ++ platform)
    where
  oids_eq := by
    rw [List.map_append, List.map_append, List.map_cons, hsystem.oids_eq, hinterfaces.oids_eq,
      hplatform.oids_eq]
    cases dev <;> first | rfl | exact absurd rfl hups
  plain := by
    intro row hrow
    simp only [List.mem_append, List.mem_cons] at hrow
    rcases hrow with (hrow | rfl | hrow) | hrow
    · exact hsystem.plain row hrow
    · exact Text.plain_decimal n
    · exact hinterfaces.plain row hrow
    · exact hplatform.plain row hrow
  sampled := by
    intro column index counter hcounter
    rcases hinterfaces.sampled column index counter hcounter with ⟨v, hv⟩
    use v
    intro row hrow hoid
    simp only [List.mem_append, List.mem_cons] at hrow
    rcases hrow with (hrow | rfl | hrow) | hrow
    · exact absurd hoid (parseOid_ne_of_hcFree hsystem.oids_eq hcFree_systemOids hrow column index)
    · have hfree : hcFree [ifNumberOid] = true := by decide
      have hnumber : [(oidText ifNumberOid, Text.decimal n)].map Prod.fst =
          [ifNumberOid].map oidText := rfl
      exact absurd hoid
        (parseOid_ne_of_hcFree hnumber hfree List.mem_cons_self column index)
    · rcases hv row hrow hoid with ⟨it, hit, -, hp, hvalue⟩
      exact ⟨dev_of_mem_ifaces hit ▸ hp, hvalue⟩
    · exact absurd hoid
        (parseOid_ne_of_hcFree hplatform.oids_eq (hcFree_platformOids dev) hrow column index)

/-- Every rendering of a synthetic device has its fixed OIDs and shows sampled values. -/
theorem rows_ensures (pf : Platform) (dev : Synthetic) (now : ℚ) (P : Text → ℤ → Prop)
    (Q : Text → Text → Prop) :
    (dev.rows pf now).Ensures (readings P Q) (Rendered pf dev P) := by
  have hifaces : (ifaceRows (dev.ifaces pf)).Ensures (readings P Q)
      (IfacesRendered (dev.ifaces pf) P) :=
    ifaceRows_ensures (nodup_index_ifaces pf dev) (plain_ifaces pf dev) P Q
  cases dev with
  | swCore =>
      have hups : swCore ≠ ups := by simp
      rw [rows, SwCore.rows, Program.ensures_bind]
      refine hifaces.mono fun interfaces h => ?_
      refine ensures_other trivial fun cpu => ?_
      refine ensures_other trivial fun temp => ?_
      exact rendered_of_parts hups
        (systemRows_fixed pf (Text.plain_literal (by decide)) plain_sysDescr.1
          (Text.plain_literal (by decide)) (Text.plain_literal (by decide)) _ now) h
        (catalystPlatformRows_fixed swCore rfl cpu temp _ _)
  | swAccess num =>
      have hups : swAccess num ≠ ups := by simp
      have hnumber : Text.Plain (SwAccess.twoDigits num) := by
        unfold SwAccess.twoDigits
        split
        · exact Text.Plain.cons rfl (Text.plain_decimal num)
        · exact Text.plain_decimal num
      have hlocation : Text.Plain ("DC row ".toList ++ Text.decimal num ++ ", server access".toList) :=
        ((Text.plain_literal (by decide)).append (Text.plain_decimal num)).append
          (Text.plain_literal (by decide))
      rw [rows, SwAccess.rows, Program.ensures_bind]
      refine (SwAccess.applyState_ensures pf num).mono fun _ _ => ?_
      refine Program.ensures_bind.mpr (hifaces.mono fun interfaces h => ?_)
      refine ensures_other trivial fun cpu => ?_
      refine ensures_other trivial fun temp => ?_
      exact rendered_of_parts hups
        (systemRows_fixed pf ((Text.plain_literal (by decide)).append hnumber) plain_sysDescr.2.1
          (Text.plain_literal (by decide)) hlocation _ now) h
        (catalystPlatformRows_fixed (swAccess num) rfl cpu temp _ _)
  | rtWan =>
      have hups : rtWan ≠ ups := by simp
      rw [rows, RtWan.rows, Program.ensures_bind]
      refine RtWan.factorCpu_ensures.mono fun _ _ => ?_
      refine ensures_other trivial fun _ => ?_
      refine ensures_other trivial fun _ => ?_
      refine ensures_other trivial fun _ => ?_
      refine Program.ensures_bind.mpr (hifaces.mono fun interfaces h => ?_)
      refine ensures_other trivial fun temp => ?_
      exact rendered_of_parts hups
        (systemRows_fixed pf (Text.plain_literal (by decide)) plain_sysDescr.2.2.1
          (Text.plain_literal (by decide)) (Text.plain_literal (by decide)) _ now) h
        (rtWan_platformRows_fixed _ temp)
  | ups =>
      rw [rows, Ups.rows]
      refine ensures_gaugeInt fun cap => ?_
      refine ensures_gaugeInt fun temp => ?_
      refine ensures_gaugeInt fun load => ?_
      refine ensures_gaugeInt fun _ => ?_
      refine ensures_gaugeInt fun voltIn => ?_
      refine ensures_other trivial fun runtime => ?_
      have hshort : Text.Plain Ups.short := Text.plain_literal (by decide)
      have hobject : Text.Plain ".1.3.6.1.4.1.318.1.3.27".toList := Text.plain_literal (by decide)
      have hlocation : Text.Plain "DC rack A2, bottom".toList := Text.plain_literal (by decide)
      have hsystem := systemRows_fixed pf hshort plain_sysDescr.2.2.2 hobject hlocation
        (402 * 86400) now
      have hpower := ups_powerRows_fixed (min 100 cap) temp (int runtime * 100)
        (max 1 (round (load / 9))) voltIn (pf.date_plain (now - 37 * 86400))
      constructor
      · rfl
      · intro row hrow
        rcases List.mem_append.mp hrow with hrow | hrow
        · exact hsystem.plain row hrow
        · exact hpower.plain row hrow
      · intro column index counter _
        use 0
        intro row hrow hoid
        refine absurd hoid ?_
        rcases List.mem_append.mp hrow with hrow | hrow
        · exact parseOid_ne_of_hcFree hsystem.oids_eq hcFree_systemOids hrow column index
        · exact parseOid_ne_of_hcFree hpower.oids_eq (hcFree_platformOids ups) hrow column index

end Synthetic

end Netsim
end DemoEstate
