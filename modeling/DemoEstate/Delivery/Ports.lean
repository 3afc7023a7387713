import Mathlib.Data.List.Range
import DemoEstate.Delivery.Cascade
import DemoEstate.Fleet.Roster
import DemoEstate.Library.Dict
import DemoEstate.Library.Numeral

/-!
# The internal ports of the delivery shell

The shell gives each child of its roster an agent port and an admin port.  Both ranges start at a
base and are as long as the roster, and the base of the second is computed from the length of the
first.  The native runtime puts four fixed ports beside them.

Main definitions:

- Definition {lit}`roster`: the selected classes with their replicas.
- Definition {lit}`children`: the children with their ports.
- Structure {lit}`Separate`: pairwise distinct ports that exist.

Main results:

- Theorem {lit}`nodup_ranges_iff`: two ranges and some fixed numbers are distinct exactly if no
  fixed number lies in a range.
- Theorem {lit}`separate_ports_iff`: the lengths of a roster for which the ports are separate.
- Theorem {lit}`portsSeparate_iff`: the same by the environment of the shell.
-/

namespace DemoEstate
namespace Delivery
namespace Ports

/-! ## Two ranges and some fixed numbers -/

/-- Two ranges, one behind the other, and some fixed numbers are pairwise distinct exactly if no
fixed number lies in a range. -/
theorem nodup_ranges_iff {a b n : ℕ} {fixed : List ℕ} (hfixed : fixed.Nodup) (hab : a + n ≤ b) :
    (List.range' a n ++ List.range' b n ++ fixed).Nodup ↔
      ∀ p ∈ fixed, ¬ (a ≤ p ∧ p < a + n) ∧ ¬ (b ≤ p ∧ p < b + n) := by
  have hranges : (List.range' a n ++ List.range' b n).Nodup := by
    refine List.nodup_append.mpr ⟨List.nodup_range', List.nodup_range', ?_⟩
    intro p hp q hq
    rw [List.mem_range'_1] at hp hq
    omega
  rw [List.nodup_append]
  constructor
  · rintro ⟨-, -, hdisjoint⟩ p hp
    constructor
    · intro hrange
      exact hdisjoint p (List.mem_append_left _ (List.mem_range'_1.mpr hrange)) p hp rfl
    · intro hrange
      exact hdisjoint p (List.mem_append_right _ (List.mem_range'_1.mpr hrange)) p hp rfl
  · intro houtside
    refine ⟨hranges, hfixed, ?_⟩
    rintro p hp q hq rfl
    rw [List.mem_append, List.mem_range'_1, List.mem_range'_1] at hp
    rcases hp with hagent | hadmin
    · exact (houtside p hq).1 hagent
    · exact (houtside p hq).2 hadmin

/-! ## The roster -/

/-- A class of hosts: where its script is, its toggles, its environment and its network device. -/
structure HostSpec where
  name : Text
  directory : Text
  actions : List Action
  extraEnv : Dict Text Text
  parent : Option Text
  replicable : Bool

/-- The toggles of an incident. -/
def common : List Action :=
  [.degrade, .break_, .heal]

def healthy : Dict Text Text :=
  Dict.ofRows [("START_STATE".toList, "healthy".toList)]

/-- A class on the access switch, in the directory of its name. -/
def HostSpec.onAccess (name : Text) (actions : List Action) (extraEnv : Dict Text Text)
    (replicable : Bool) : HostSpec :=
  ⟨name, name, actions, extraEnv, some "sw-access-01".toList, replicable⟩

/-- `_REGISTRY`. -/
def registry : List HostSpec :=
  [.onAccess "web-frontend-01".toList [] healthy true,
   .onAccess "payment-api".toList [.break_, .heal]
    (Dict.ofRows [("START_BROKEN".toList, ['0'])]) false,
   .onAccess "app-worker-01".toList common healthy true,
   .onAccess "app-redis-01".toList common healthy true,
   .onAccess "db-postgres-01".toList common healthy false,
   .onAccess "db-postgres-02".toList common healthy true,
   .onAccess "mail-relay-01".toList common healthy true,
   .onAccess "fileserver-01".toList common healthy true,
   .onAccess "backup-01".toList [] healthy false,
   .onAccess "win-dc-01".toList common healthy true]

/-- `_replica_name`: the numbering of the suffix continues. -/
def replicaName (base : Text) (n : ℕ) : Text :=
  let stem := if "-01".toList <:+ base then base.take (base.length - 3) else base
  stem ++ '-' :: Fleet.twoDigits n

/-- A replica: without toggles, and healthy from the start. -/
def HostSpec.replica (spec : HostSpec) (n : ℕ) : HostSpec where
  name := replicaName spec.name n
  directory := spec.directory
  actions := []
  extraEnv := (spec.extraEnv.set "START_STATE".toList "healthy".toList).set
    "START_BROKEN".toList ['0']
  parent := spec.parent
  replicable := false

/-- The part of the shell's environment that shapes the roster. -/
structure ShellEnv where
  estateHosts : Option Text
  estateReplicas : Option Text

/-- The names that the environment asks for; all hosts if it names none. -/
def wanted (env : ShellEnv) : Option (List Text) :=
  let selected := Text.strip Text.isSpace (env.estateHosts.getD [])
  if selected = [] then none
  else some (((selected.splitOn ',').map (Text.strip Text.isSpace)).filter (· ≠ []))

/-- The digits up to which a text is read as an integer. -/
def maxDigits : ℕ := 4300

/-- Read an integer; anything else raises an error. -/
def readInt (s : Text) : Option ℤ :=
  if maxDigits < s.countP fun c => (Text.digitIn 10 c).isSome then none
  else Text.intIn 10 (Text.strip Text.isSpace s)

/-- `_replicas`; a text that is no integer ends the shell. -/
def replicas (env : ShellEnv) : Option ℕ :=
  let given := env.estateReplicas.getD ['1']
  (readInt (if given = [] then ['1'] else given)).map fun n => (max 1 n).toNat

/-- The selected classes. -/
def selected (env : ShellEnv) : List HostSpec :=
  registry.filter fun spec =>
    match wanted env with
    | none => true
    | some names => spec.name ∈ names

/-- A class with its replicas. -/
def HostSpec.stamp (count : ℕ) (spec : HostSpec) : List HostSpec :=
  spec :: if spec.replicable then (List.range' 2 (count - 1)).map spec.replica else []

/-- `_roster`: the selected classes, each replicable one with its replicas. -/
def roster (env : ShellEnv) : Option (List HostSpec) :=
  (replicas env).map fun count => (selected env).flatMap (HostSpec.stamp count)

/-! ## The children and their ports -/

/-- A child of the shell. -/
structure Child where
  name : Text
  directory : Text
  actions : List Action
  extraEnv : Dict Text Text
  parent : Option Text
  agentPort : ℕ
  httpPort : ℕ

/-- `CHILD_AGENT_BASE`, by default. -/
def childAgentBase : ℕ := 7600

/-- `CHILD_HTTP_BASE`, by default. -/
def childHttpBase (hosts : List HostSpec) : ℕ :=
  childAgentBase + max 100 (hosts.length + 10)

/-- `Child.__init__`. -/
def Child.init (httpBase idx : ℕ) (spec : HostSpec) : Child where
  name := spec.name
  directory := spec.directory
  actions := spec.actions
  extraEnv := spec.extraEnv
  parent := spec.parent
  agentPort := childAgentBase + idx
  httpPort := httpBase + idx

/-- `CHILDREN`. -/
def children (hosts : List HostSpec) : List Child :=
  hosts.zipIdx.map fun (spec, idx) => Child.init (childHttpBase hosts) idx spec

/-- The ports of the shell's agent and panel, of the network simulator and of the fleet. -/
def nativePorts : List ℕ :=
  [6559, 8099, 8101, 8102]

/-- The ports of a shell with a roster. -/
def ports (hosts : List HostSpec) : List ℕ :=
  (children hosts).map Child.agentPort ++ (children hosts).map Child.httpPort ++ nativePorts

/-- Pairwise distinct ports that exist. -/
structure Separate (ports : List ℕ) : Prop where
  distinct : ports.Nodup
  valid : ∀ p ∈ ports, p ≤ 65535

/-- Whatever roster the shell starts with, its ports are separate. -/
def PortsSeparate (env : ShellEnv) : Prop :=
  ∀ hosts ∈ roster env, Separate (ports hosts)

/-! ## Which rosters have separate ports -/

/-- The ports of the children are two ranges. -/
theorem map_zipIdx_add {α : Type} (xs : List α) (base : ℕ) :
    (xs.zipIdx.map fun x => base + x.2) = List.range' base xs.length := by
  have hindices : (xs.zipIdx.map fun x => base + x.2) = (xs.zipIdx.map Prod.snd).map (base + ·) :=
    (List.map_map).symm
  rw [hindices, List.zipIdx_map_snd, List.map_add_range', Nat.add_zero]

theorem ports_eq (hosts : List HostSpec) : ports hosts =
    List.range' childAgentBase hosts.length ++
      List.range' (childHttpBase hosts) hosts.length ++ nativePorts := by
  rw [ports, children, List.map_map, List.map_map]
  congr 2
  · exact map_zipIdx_add hosts childAgentBase
  · exact map_zipIdx_add hosts (childHttpBase hosts)

/-- The admin ports stay clear of the agent ports, whatever the roster. -/
theorem agent_range_le (hosts : List HostSpec) :
    childAgentBase + hosts.length ≤ childHttpBase hosts := by
  unfold childHttpBase
  omega

/-- The ports are separate up to 244 hosts.  Beyond that the admin ports run over the fixed ones,
and from 500 hosts on the agent ports do; in between there is a gap of a few hosts. -/
theorem separate_ports_iff (hosts : List HostSpec) : Separate (ports hosts) ↔
    hosts.length ≤ 244 ∨ (493 ≤ hosts.length ∧ hosts.length ≤ 499) := by
  have hdistinct : (ports hosts).Nodup ↔
      hosts.length ≤ 244 ∨ (493 ≤ hosts.length ∧ hosts.length ≤ 499) := by
    rw [ports_eq, nodup_ranges_iff (by decide) (agent_range_le hosts)]
    simp only [nativePorts, childHttpBase, childAgentBase, List.mem_cons, List.not_mem_nil,
      or_false, forall_eq_or_imp, forall_eq]
    omega
  constructor
  · intro h
    exact hdistinct.mp h.distinct
  · intro h
    refine ⟨hdistinct.mpr h, fun p hp => ?_⟩
    rw [ports_eq, List.mem_append, List.mem_append, List.mem_range'_1, List.mem_range'_1] at hp
    simp only [nativePorts, childHttpBase, childAgentBase, List.mem_cons, List.not_mem_nil,
      or_false] at hp
    omega

/-! ## The length of a roster -/

/-- How many hosts the environment asks for. -/
def hostCount (env : ShellEnv) : Option ℕ :=
  (replicas env).map fun count =>
    (selected env).countP (fun spec => !spec.replicable) +
      (selected env).countP HostSpec.replicable * count

theorem one_le_replicas {env : ShellEnv} {count : ℕ} (h : replicas env = some count) :
    1 ≤ count := by
  rcases Option.map_eq_some_iff.mp h with ⟨n, -, rfl⟩
  omega

theorem length_stamp {count : ℕ} (h : 1 ≤ count) (spec : HostSpec) :
    (spec.stamp count).length = if spec.replicable then count else 1 := by
  unfold HostSpec.stamp
  split
  · rw [List.length_cons, List.length_map, List.length_range']
    omega
  · rfl

theorem length_flatMap_stamp {count : ℕ} (h : 1 ≤ count) (specs : List HostSpec) :
    (specs.flatMap (HostSpec.stamp count)).length =
      specs.countP (fun spec => !spec.replicable) + specs.countP HostSpec.replicable * count := by
  induction specs with
  | nil => simp
  | cons spec specs ih =>
      rw [List.flatMap_cons, List.length_append, length_stamp h, ih, List.countP_cons,
        List.countP_cons]
      cases spec.replicable
      · simp only [Bool.false_eq_true, if_false, Bool.not_false, if_true, Nat.add_zero]
        omega
      · simp only [if_true, Bool.not_true, Bool.false_eq_true, if_false, Nat.add_zero,
          Nat.add_mul]
        omega

/-- The roster has as many hosts as the environment asks for. -/
theorem map_length_roster (env : ShellEnv) : (roster env).map List.length = hostCount env := by
  unfold roster hostCount
  cases hcount : replicas env with
  | none => rfl
  | some count => exact congrArg some (length_flatMap_stamp (one_le_replicas hcount) _)

/-- The ports do not collide exactly for rosters of up to 244 hosts and of 493 to 499. -/
theorem portsSeparate_iff (env : ShellEnv) : PortsSeparate env ↔
    ∀ n ∈ hostCount env, n ≤ 244 ∨ (493 ≤ n ∧ n ≤ 499) := by
  rw [← map_length_roster]
  unfold PortsSeparate
  cases roster env with
  | none => simp
  | some hosts =>
      simp only [Option.mem_def, Option.some.injEq, forall_eq', Option.map_some]
      exact separate_ports_iff hosts

/-- All classes, with 35 of each replicable one. -/
def thirtyFive : ShellEnv :=
  ⟨none, some "35".toList⟩

/-- An admin port of the 248 hosts is the port of the control panel. -/
theorem not_portsSeparate_thirtyFive : ¬ ∀ env, PortsSeparate env := by
  intro h
  have hcount : hostCount thirtyFive = some 248 := by decide +kernel
  rw [← map_length_roster, Option.map_eq_some_iff] at hcount
  obtain ⟨hosts, hroster, hlength⟩ := hcount
  have hseparate := (separate_ports_iff hosts).mp (h thirtyFive hosts hroster)
  omega

/-- With all classes, up to 34 of each replicable one fit, and 70. -/
theorem portsSeparate_all_iff {given : Option Text} {count : ℕ}
    (h : replicas ⟨none, given⟩ = some count) :
    PortsSeparate ⟨none, given⟩ ↔ count ≤ 34 ∨ count = 70 := by
  have hroster := map_length_roster ⟨none, given⟩
  have hfixed : (selected ⟨none, given⟩).countP (fun spec => !spec.replicable) = 3 := by
    rfl
  have hstamped : (selected ⟨none, given⟩).countP HostSpec.replicable = 7 := by
    rfl
  rw [hostCount, h, Option.map_some, hfixed, hstamped, Option.map_eq_some_iff] at hroster
  obtain ⟨hosts, hhosts, hlength⟩ := hroster
  have hall : PortsSeparate ⟨none, given⟩ ↔ Separate (ports hosts) := by
    unfold PortsSeparate
    rw [hhosts]
    simp
  rw [hall, separate_ports_iff]
  omega

end Ports
end Delivery
end DemoEstate
