import DemoEstate.Library.Completes
import DemoEstate.Deploy.OneRule

/-!
# When a run of the setup completes

A cooperating site turns a creation down only for its reason: the folder does not exist, the host
exists already, or a host that is named as a parent does not exist yet.  Its scans, jobs and
activations come to their ends.  A run on such a site completes, unless a child of the shell is not
up, a required responder does not answer, or a host may be turned down for its parents.

Main definitions:

- Definition {lit}`Cooperates`: the answers of a cooperating site.
- Definition {lit}`Creatable`: the hosts of a plan find their parents, one after the other.
- Structure {lit}`Ready`: what a run needs.

Main results:

- Theorem {lit}`completes_ensureHost_iff`: when a host cannot be turned down.
- Theorem {lit}`completes_createObjects_iff`: when the objects of an estate can be created.
- Theorem {lit}`completes_setup_iff`: a run completes, whatever a cooperating site answers, exactly
  if it is ready, and then it has stored its fingerprint.
-/

namespace DemoEstate
namespace Deploy

open Interaction
open Interaction.Program

/-! ## Cooperating sites -/

/-- The answers of panels that can be reached, and of scans, jobs and activations that end. -/
def Prompt : (op : Request) → Ans op → Prop
  | .healHost _, ans | .healDevice _, ans | .beforeDeadline, ans => ans = true
  | .startDiscovery _ mode, ans =>
      ans = 200 ∨ (mode = "refresh".toList ∧ (ans = 302 ∨ ans = 303 ∨ ans = 409))
  | .waitDiscovery _, ans | .waitActivation _, ans => ans = 204
  | .startBulkDiscovery _, ans => ans.1 = 200 ∨ ans.1 = 303
  | .getJob _, ans => ans = some false
  | .activateChanges _, ans => ans.1 = 200 ∨ ans.1 = 422
  | _, _ => True

/-- An answer that a site may give, and prompt if the tool waits for it. -/
def Cooperates (panels : Panels) (s : Site) (op : Request) (ans : Ans op) (t : Site) : Prop :=
  Serves panels s op ans t ∧ Prompt op ans

/-- A cooperating site always answers. -/
theorem cooperates_answers (panels : Panels) (s : Site) (op : Request) (hop : Nonempty (Ans op)) :
    ∃ ans t, Cooperates panels s op ans t := by
  have hserve : ∃ ans t, serve panels false s op = some (ans, t) ∧ Prompt op ans := by
    cases op with
    | exit error => exact hop.elim fun never => nomatch never
    | postFolder name title parent =>
        by_cases h : s.HasFolder parent ∧ parent ++ [name] ∉ s.folders
        · exact ⟨_, _, by simp only [serve, if_pos h]; rfl, trivial⟩
        · exact ⟨_, _, by simp only [serve, if_neg h]; rfl, trivial⟩
    | postHost name folder attributes =>
        by_cases h : s.hosts.get name = none ∧ s.HasFolder folder ∧
            (false = true → s.HasParents attributes)
        · exact ⟨_, _, by simp only [serve, if_pos h]; rfl, trivial⟩
        · exact ⟨_, _, by simp only [serve, if_neg h]; rfl, trivial⟩
    | putHost name update =>
        cases h : s.hosts.get name with
        | none => exact ⟨_, _, by simp only [serve, h]; rfl, trivial⟩
        | some config => exact ⟨_, _, by simp only [serve, h, Bool.false_eq_true]; rfl, trivial⟩
    | putLabels name labels =>
        cases h : s.hosts.get name with
        | none => exact ⟨_, _, by simp only [serve, h]; rfl, trivial⟩
        | some config => exact ⟨_, _, by simp only [serve, h]; rfl, trivial⟩
    | postRule rule =>
        by_cases h : s.HasFolder rule.folder
        · exact ⟨_, _, by simp only [serve, if_pos h]; rfl, trivial⟩
        · exact ⟨_, _, by simp only [serve, if_neg h]; rfl, trivial⟩
    | postBi ident body =>
        by_cases h : s.bi.get ident = none
        · exact ⟨_, _, by simp only [serve, if_pos h]; rfl, trivial⟩
        · exact ⟨_, _, by simp only [serve, if_neg h]; rfl, trivial⟩
    | startDiscovery host mode => exact ⟨_, _, rfl, Or.inl rfl⟩
    | startBulkDiscovery hosts => exact ⟨_, _, rfl, Or.inl rfl⟩
    | activateChanges force => exact ⟨_, _, rfl, Or.inl rfl⟩
    | healHost name => exact ⟨_, _, rfl, rfl⟩
    | healDevice short => exact ⟨_, _, rfl, rfl⟩
    | beforeDeadline => exact ⟨_, _, rfl, rfl⟩
    | waitDiscovery host => exact ⟨_, _, rfl, rfl⟩
    | waitActivation run => exact ⟨_, _, rfl, rfl⟩
    | getJob ident => exact ⟨_, _, rfl, rfl⟩
    | _ => exact ⟨_, _, rfl, trivial⟩
  rcases hserve with ⟨ans, t, hans, hprompt⟩
  exact ⟨ans, t, serves_of_serve hans, hprompt⟩

/-- The parents that a host names when it is ensured: all its parents if it is new, and else the
ones that are put right. -/
def sent (attributes : Attributes) : Option HostConfig → Attributes
  | none => attributes
  | some config => fixes attributes config.attributes

/-- The parents that are sent for a host are hosts of the site. -/
def Admits (hosts : Text → Option HostConfig) (p : Placed) : Prop :=
  ∀ q ∈ parentNames (sent p.2.2 (hosts p.1)), hosts q ≠ none

/-- Ensured one after the other, the hosts of a plan find their parents. -/
def Creatable : (Text → Option HostConfig) → List Placed → Prop
  | _, [] => True
  | hosts, p :: plan => Admits hosts p ∧ Creatable (ensurePlaced hosts p) plan

instance (hosts : Text → Option HostConfig) (p : Placed) : Decidable (Admits hosts p) :=
  inferInstanceAs (Decidable (∀ _ ∈ _, ¬ _ = none))

instance decidableCreatable : (hosts : Text → Option HostConfig) → (plan : List Placed) →
    Decidable (Creatable hosts plan)
  | _, [] => inferInstanceAs (Decidable True)
  | hosts, p :: plan =>
      match decidableCreatable (ensurePlaced hosts p) plan with
      | isTrue h => decidable_of_iff (Admits hosts p) (and_iff_left h).symm
      | isFalse h => isFalse fun hboth => h hboth.2

theorem creatable_append {hosts : Text → Option HostConfig} {plan plan' : List Placed} :
    Creatable hosts (plan ++ plan') ↔
      Creatable hosts plan ∧ Creatable (plan.foldl ensurePlaced hosts) plan' := by
  induction plan generalizing hosts with
  | nil => exact (iff_of_eq (true_and _)).symm
  | cons p plan ih => rw [List.cons_append, Creatable, Creatable, ih, and_assoc, List.foldl_cons]

section Parts

variable {α : Type} {panels : Panels} {args : Args} {s t : Site} {u : Unit} {digest : Canon → Text}

/-- What a cooperating site answers, a site may answer. -/
theorem serves_of_cooperates {p : Setup α} {a : α} (h : p.Runs (Cooperates panels) s a t) :
    p.Runs (Serves panels) s a t :=
  h.mono fun _ _ _ _ hans => hans.1

theorem not_completes_die {error : Failure} {post : α → Site → Prop} :
    ¬ (die error : Setup α).Completes (Cooperates panels) s post :=
  not_completes_of_isEmpty (inferInstanceAs (IsEmpty Empty))

theorem badRequest_ne_ok : (400 : Status) ≠ 200 := by
  decide

theorem completes_expect_iff {what : Text} {status : Status} :
    ((expect what status).Completes (Cooperates panels) s fun _ _ => True) ↔ status = 200 := by
  unfold expect
  split
  · rename_i h
    exact iff_of_true trivial h
  · rename_i h
    exact iff_of_false not_completes_die h

/-! ## Folders and hosts -/

/-- A folder can be made below one that exists. -/
theorem completes_ensureFolder {parent : Ident} {name title : Text} (h : s.HasFolder parent) :
    (ensureFolder (parent ++ [name]) title parent).Completes (Cooperates panels) s
      fun _ _ => True := by
  unfold ensureFolder
  rw [List.getLast?_concat]
  refine completes_call.mpr ⟨⟨(0 : Status)⟩, fun status s₁ hget => ?_⟩
  rcases hget.1 with ⟨hstatus, rfl⟩
  split
  · trivial
  · rename_i hmissing
    refine completes_call.mpr ⟨⟨(0 : Status)⟩, fun status' s₂ hpost => ?_⟩
    have hnew : parent ++ [name] ∉ s₁.folders := fun hmem =>
      hmissing (hstatus.mpr (Or.inr hmem))
    have hok := hpost.1
    rw [Serves, if_pos ⟨h, hnew⟩] at hok
    exact completes_expect_iff.mpr hok.1

/-- The root folder can be made if it is there, or is one of the top folders. -/
theorem completes_ensureRoot {root : Ident} {title : Text}
    (h : s.HasFolder root ∨ root.length ≤ 1) :
    (ensureFolder root title []).Completes (Cooperates panels) s fun _ _ => True := by
  rcases root.eq_nil_or_concat' with rfl | ⟨init, name, rfl⟩
  · trivial
  · by_cases hthere : s.HasFolder (init ++ [name])
    · unfold ensureFolder
      rw [List.getLast?_concat]
      refine completes_call.mpr ⟨⟨(0 : Status)⟩, fun status s₁ hget => ?_⟩
      rcases hget.1 with ⟨hstatus, -⟩
      rw [if_pos (hstatus.mpr hthere)]
      trivial
    · have hlength := h.resolve_left hthere
      rw [List.length_append, List.length_singleton] at hlength
      obtain rfl : init = [] := List.eq_nil_of_length_eq_zero (by omega)
      exact completes_ensureFolder (Or.inl rfl)

/-- After the root folder is ensured, it exists. -/
theorem hasFolder_root {root : Ident} {title : Text} (h : s.HasFolder root ∨ root.length ≤ 1)
    (hrun : (ensureFolder root title []).Runs (Serves panels) s u t) : t.HasFolder root := by
  rcases runs_ensureFolder hrun with ⟨hthere, rfl⟩ | ⟨name, hname, hmissing, -, rfl⟩
  · exact hthere
  · have hlength := h.resolve_left hmissing
    rcases root.eq_nil_or_concat' with rfl | ⟨init, name', rfl⟩
    · exact Or.inl rfl
    · rw [List.getLast?_concat] at hname
      rw [List.length_append, List.length_singleton] at hlength
      obtain rfl : init = [] := List.eq_nil_of_length_eq_zero (by omega)
      obtain rfl := Option.some.inj hname
      exact Or.inr (List.mem_append_right _ List.mem_cons_self)

theorem completes_ensureFolderChain {parent : Ident} {chain : List (Text × Text)}
    (h : s.HasFolder parent) :
    (ensureFolderChain parent chain).Completes (Cooperates panels) s fun _ _ => True := by
  induction chain generalizing parent s with
  | nil => trivial
  | cons head chain ih =>
      refine (completes_ensureFolder h).seq fun _ t hrun => ih ?_
      rcases runs_ensureFolder (serves_of_cooperates hrun) with
        ⟨hthere, rfl⟩ | ⟨name, hname, -, -, rfl⟩
      · exact hthere
      · rw [List.getLast?_concat] at hname
        rw [Option.some.inj hname]
        exact Or.inr (List.mem_append_right _ List.mem_cons_self)

theorem completes_leafFor {root : Ident} {leaf : Dict Role Ident} {role : Role}
    (h : s.HasFolder root) :
    (leafFor root leaf role).Completes (Cooperates panels) s fun _ _ => True := by
  unfold leafFor
  split
  · trivial
  · exact (completes_ensureFolderChain h).seq fun _ _ _ => trivial

theorem hasParents_iff {attributes : Attributes} :
    s.HasParents attributes ↔ ∀ q ∈ parentNames attributes, s.hosts.get q ≠ none := by
  refine forall₂_congr fun q _ => ?_
  rw [ne_eq, Dict.get_eq_none_iff, not_not]

/-- Where nothing is put right, no parents are sent. -/
theorem parentNames_of_no_fix {attributes current : Attributes}
    (h : ¬ (managed.any fun attr => (fixes attributes current attr).isSome) = true) :
    parentNames (fixes attributes current) = [] := by
  have hfix := List.any_eq_false.mp (Bool.eq_false_iff.mpr h) .parents (by decide)
  rw [Bool.not_eq_true, Option.isSome_eq_false_iff, Option.isNone_iff_eq_none] at hfix
  rw [parentNames, hfix]

/-- A host cannot be turned down exactly if the parents that are sent for it exist. -/
theorem completes_ensureHost_iff {name : Text} {folder : Ident} {attributes : Attributes}
    (hfolder : s.HasFolder folder) :
    ((ensureHost name folder attributes).Completes (Cooperates panels) s fun _ _ => True) ↔
      Admits s.hosts.get (name, folder, attributes) := by
  have hget : ∀ post : Unit → Site → Prop,
      (ensureHost name folder attributes).Completes (Cooperates panels) s post ↔
        Program.Completes (Cooperates panels) (match s.hosts.get name with
          | none => do
              let status ← call (.postHost name folder attributes)
              expect ("creating host ".toList ++ name) status
          | some existing =>
              if managed.any fun attr => (fixes attributes existing.attributes attr).isSome then do
                let status ← call (.putHost name (fixes attributes existing.attributes))
                expect ("updating attributes of ".toList ++ name) status
              else pure ()) s post := by
    intro post
    refine completes_call.trans ⟨fun h => h.2 _ s ⟨⟨rfl, rfl⟩, trivial⟩, fun h => ⟨⟨none⟩, ?_⟩⟩
    rintro ans s' ⟨⟨rfl, rfl⟩, -⟩
    exact h
  rw [hget, Admits]
  cases hhost : s.hosts.get name with
  | none =>
      change _ ↔ ∀ q ∈ parentNames attributes, s.hosts.get q ≠ none
      rw [← hasParents_iff, completes_call]
      constructor
      · intro h
        by_contra hparents
        have hrefused : Cooperates panels s (.postHost name folder attributes) (400 : Status) s :=
          ⟨Or.inr ⟨badRequest_ne_ok, rfl, fun _ _ => hparents⟩, trivial⟩
        exact badRequest_ne_ok (completes_expect_iff.mp (h.2 _ s hrefused))
      · intro hparents
        refine ⟨⟨(0 : Status)⟩, fun status s' hpost => completes_expect_iff.mpr ?_⟩
        rcases hpost.1 with ⟨hok, -⟩ | ⟨-, -, hreason⟩
        · exact hok
        · exact absurd hparents (hreason hhost hfolder)
  | some config =>
      change _ ↔ ∀ q ∈ parentNames (fixes attributes config.attributes), s.hosts.get q ≠ none
      dsimp only
      split
      · rw [← hasParents_iff, completes_call]
        have hthere : s.hosts.get name ≠ none := by
          rw [hhost]
          exact Option.some_ne_none config
        constructor
        · intro h
          by_contra hparents
          have hrefused : Cooperates panels s (.putHost name (fixes attributes config.attributes))
              (400 : Status) s :=
            ⟨Or.inr ⟨badRequest_ne_ok, rfl, fun _ => hparents⟩, trivial⟩
          exact badRequest_ne_ok (completes_expect_iff.mp (h.2 _ s hrefused))
        · intro hparents
          refine ⟨⟨(0 : Status)⟩, fun status s' hput => completes_expect_iff.mpr ?_⟩
          rcases hput.1 with ⟨_, hok, -⟩ | ⟨-, -, hreason⟩
          · exact hok
          · exact absurd hparents (hreason hthere)
      · rename_i hfix
        rw [parentNames_of_no_fix hfix]
        exact iff_of_true trivial fun q hq => absurd hq List.not_mem_nil

/-- The last folder of a chain is one of them, unless there are none. -/
theorem mem_chainFolders_last (parent : Ident) (chain : List (Text × Text)) :
    parent ++ chain.map Prod.fst = parent ∨
      parent ++ chain.map Prod.fst ∈ chainFolders parent chain := by
  induction chain generalizing parent with
  | nil => exact Or.inl (List.append_nil parent)
  | cons head chain ih =>
      right
      rw [List.map_cons, List.append_cons, chainFolders]
      rcases ih (parent ++ [head.1]) with hsame | hmem
      · rw [hsame]
        exact List.mem_cons_self
      · exact List.mem_cons_of_mem _ hmem

/-- The leaf folder of a role exists where its folders do. -/
theorem hasFolder_leaf {root : Ident} {role : Role} (hroot : s.HasFolder root)
    (hfolders : ∀ f ∈ role.folders root, f ∈ s.folders) : s.HasFolder (role.leaf root) := by
  rcases mem_chainFolders_last root role.chain with hsame | hmem
  · rw [Role.leaf, hsame]
    exact hroot
  · exact Or.inr (hfolders _ hmem)

theorem hasFolder_mono {ident : Ident} (h : s.HasFolder ident)
    (hfolders : ∀ f ∈ s.folders, f ∈ t.folders) : t.HasFolder ident :=
  h.imp_right (hfolders ident)

/-- Rows can be created exactly if their hosts find their parents. -/
theorem completes_createRows_iff {root : Ident} {leaf : Dict Role Ident} {rows : List Row}
    (hroot : s.HasFolder root) (hleaf : LeafOk root leaf s) :
    ((createRows root leaf rows).Completes (Cooperates panels) s fun _ _ => True) ↔
      Creatable s.hosts.get (rows.map (Row.placed root)) := by
  induction rows generalizing leaf s with
  | nil => exact iff_of_true trivial trivial
  | cons row rows ih =>
      have hanswers := cooperates_answers panels
      have hfirst : ((leafFor root leaf row.role).Completes (Cooperates panels) s fun _ _ => True) ↔
          True := iff_of_true (completes_leafFor hroot) trivial
      rw [List.map_cons, Creatable]
      refine (completes_seq_iff hanswers hfirst ?_).trans (iff_of_eq (true_and _))
      rintro ⟨folder, leaf₁⟩ s₁ hrun
      have hrun' := serves_of_cooperates hrun
      rcases runs_leafFor hleaf hrun' with ⟨rfl, hleaf₁, hfolders₁⟩
      have hhosts₁ : s₁.hosts = s.hosts :=
        hosts_of_asks (asks_leafFor _ _ _) (by decide) (by decide) hrun'
      have hroot₁ := hasFolder_mono hroot fun f hf => (hfolders₁ f).mpr (Or.inl hf)
      have hleafFolder := hasFolder_leaf hroot₁ fun f hf => (hfolders₁ f).mpr (Or.inr hf)
      rw [← hhosts₁]
      refine completes_seq_iff hanswers (completes_ensureHost_iff hleafFolder) ?_
      rintro ⟨⟩ s₂ hhost
      have hhost' := serves_of_cooperates hhost
      have hfolders₂ : s₂.folders = s₁.folders :=
        folders_of_asks (asks_ensureHost _ _ _) (by decide) hhost'
      have hroot₂ := hasFolder_mono hroot₁ fun f hf => hfolders₂ ▸ hf
      rw [ih hroot₂ (hleaf₁.mono fun f hf => hfolders₂ ▸ hf), (runs_ensureHost hhost').1]
      rfl

/-! ## Rules and business objects -/

section Rules

variable {own keep : Rule → Bool} {rule : Rule} {root : Ident}

theorem completes_replaceStale {marked : List (Nat × Rule)} :
    (replaceStale own keep marked).Completes (Cooperates panels) s fun _ _ => True := by
  induction marked generalizing s with
  | nil => trivial
  | cons head marked ih =>
      unfold replaceStale
      split
      · split
        · trivial
        · exact completes_call.mpr ⟨⟨(0 : Status)⟩, fun _ _ _ => ih⟩
      · exact ih

theorem completes_markedRules {ruleset : Ruleset} :
    (markedRules ruleset).Completes (Cooperates panels) s fun _ _ => True := by
  refine completes_call.mpr ⟨⟨.error (0 : Status)⟩, fun rules s₁ hlist => ?_⟩
  rcases hlist.1 with ⟨rfl, -⟩
  trivial

theorem completes_createRule (h : s.HasFolder rule.folder) :
    (createRule rule).Completes (Cooperates panels) s fun _ _ => True := by
  refine completes_call.mpr ⟨⟨(0 : Status)⟩, fun status s₁ hpost => completes_expect_iff.mpr ?_⟩
  rcases hpost.1 with ⟨_, hok, -⟩ | ⟨-, -, hmissing⟩
  · exact hok
  · exact absurd h hmissing

theorem completes_ensureRule (h : s.HasFolder rule.folder) :
    (ensureRule own keep rule).Completes (Cooperates panels) s fun _ _ => True := by
  refine completes_markedRules.seq fun marked s₁ hmarked => ?_
  rcases runs_markedRules (serves_of_cooperates hmarked) with ⟨-, rfl⟩
  refine completes_replaceStale.seq fun found s₂ hstale => ?_
  have hfolders := folders_of_asks (asks_replaceStale _ _ _) (by decide)
    (serves_of_cooperates hstale)
  split
  · trivial
  · exact completes_createRule (hasFolder_mono h fun f hf => hfolders ▸ hf)

theorem completes_ensureSnmpPortRule {port : ℤ} (h : s.HasFolder root) :
    (ensureSnmpPortRule root port).Completes (Cooperates panels) s fun _ _ => True := by
  refine completes_markedRules.seq fun marked s₁ hmarked => ?_
  rcases runs_markedRules (serves_of_cooperates hmarked) with ⟨-, rfl⟩
  split
  · exact completes_createRule h
  · split
    · trivial
    · refine completes_call.mpr ⟨⟨(0 : Status)⟩, fun _ s₂ hdelete => completes_createRule ?_⟩
      rw [hdelete.1]
      exact h

theorem completes_ensureSnmpAccess {info : Netsim} (h : s.HasFolder root) :
    (ensureSnmpAccess root info).Completes (Cooperates panels) s fun _ _ => True := by
  unfold ensureSnmpAccess
  split
  · exact completes_ensureSnmpPortRule h
  · exact completes_ensureRule (Or.inl rfl)

end Rules

theorem completes_ensureBiObject {ident : BiId} {body : BiBody} {name : Text} :
    (ensureBiObject ident body name).Completes (Cooperates panels) s fun _ _ => True := by
  refine completes_call.mpr ⟨⟨(0 : Status)⟩, fun status s₁ hget => ?_⟩
  rcases hget.1 with ⟨hstatus, rfl⟩
  split
  · trivial
  · rename_i hmissing
    refine completes_call.mpr ⟨⟨(0 : Status)⟩, fun status' s₂ hpost => ?_⟩
    have hnone : s₁.bi.get ident = none := not_not.mp fun hne => hmissing (hstatus.mpr hne)
    have hok := hpost.1
    rw [Serves, if_pos hnone] at hok
    exact completes_expect_iff.mpr hok.1

theorem completes_ensureTiers {fqdns : Dict Text Text} {ts : List Tier} :
    (ensureTiers fqdns ts).Completes (Cooperates panels) s fun _ _ => True := by
  induction ts generalizing s with
  | nil => trivial
  | cons tier ts ih =>
      unfold ensureTiers
      split
      · exact ih
      · exact completes_ensureBiObject.seq fun _ _ _ => ih.seq fun _ _ _ => trivial

theorem completes_ensureBiPack {fqdns : Dict Text Text} :
    (ensureBiPack fqdns).Completes (Cooperates panels) s fun _ _ => True := by
  refine completes_ensureBiObject.seq fun _ _ _ => completes_ensureTiers.seq fun calls _ _ => ?_
  split
  · trivial
  · exact completes_ensureBiObject.seq fun _ _ _ => completes_ensureBiObject

theorem completes_deleteHosts {names : List Text} :
    (deleteHosts names).Completes (Cooperates panels) s fun _ _ => True := by
  induction names generalizing s with
  | nil => trivial
  | cons name names ih => exact completes_call.mpr ⟨⟨(0 : Status)⟩, fun _ _ _ => ih⟩

theorem completes_pruneSubtree {root : Ident} {keep : List Text} :
    (pruneSubtree root keep).Completes (Cooperates panels) s fun _ _ => True := by
  unfold pruneSubtree
  split
  · trivial
  · refine completes_call.mpr ⟨⟨none⟩, fun hosts _ _ => ?_⟩
    split
    · trivial
    · exact completes_deleteHosts

/-! ## The objects of an estate -/

theorem completes_healDevices {devices : List (Text × Device)} :
    (healDevices devices).Completes (Cooperates panels) s fun _ _ => True := by
  induction devices generalizing s with
  | nil => trivial
  | cons head devices ih =>
      rcases head with ⟨short, dev⟩
      unfold healDevices
      split
      · refine completes_call.mpr ⟨⟨true⟩, fun healed s₁ hheal => ?_⟩
        have hhealed : healed = true := hheal.2
        rw [if_pos hhealed]
        exact ih
      · exact ih

theorem completes_healEstate {hosts : List Carried} :
    (healEstate hosts).Completes (Cooperates panels) s fun _ _ => True := by
  induction hosts generalizing s with
  | nil => trivial
  | cons h hosts ih =>
      unfold healEstate
      split
      · refine completes_call.mpr ⟨⟨true⟩, fun healed s₁ hheal => ?_⟩
        have hhealed : healed = true := hheal.2
        rw [if_pos hhealed]
        exact ih
      · exact ih

/-- Setting the devices up removes no folder. -/
theorem folders_of_setupSnmp {leaf : Dict Role Ident} {result : List Text × Dict Role Ident}
    (hleaf : LeafOk args.root leaf s)
    (h : (setupSnmp args leaf).Runs (Serves panels) s result t) :
    ∀ f ∈ s.folders, f ∈ t.folders := by
  rcases runs_call.mp h with ⟨answer, s', ⟨-, hs'⟩, hdevices⟩
  subst hs'
  cases answer with
  | none =>
      dsimp only at hdevices
      split at hdevices
      · exact absurd hdevices not_runs_die
      · rw [hdevices.2]
        exact fun f hf => hf
  | some info =>
      rcases runs_bind.mp hdevices with ⟨_, s₁, hheal, hcreate⟩
      rcases runs_bind.mp hcreate with ⟨leaf', s₂, hrows, hend⟩
      rcases runs_bind.mp hend with ⟨_, s₃, haccess, -, rfl⟩
      cases site_of_asks (asks_healDevices _) hheal
      have hfolders := (runs_createRows hleaf hrows).2.2
      rw [folders_of_asks (asks_ensureSnmpAccess _ _) (by decide) haccess]
      exact fun f hf => (hfolders f).mpr (Or.inl hf)

/-- The simulator's panel answers with what it shows. -/
theorem completes_netsimPanel {next : Option Netsim → Setup α} {post : α → Site → Prop} :
    ((do let info : Option Netsim ← call Request.netsimPanel; next info).Completes
        (Cooperates panels) s post) ↔
      (next panels.netsim).Completes (Cooperates panels) s post := by
  refine completes_call.trans ⟨fun h => h.2 _ s ⟨⟨rfl, rfl⟩, trivial⟩, fun h => ⟨⟨none⟩, ?_⟩⟩
  rintro ans s' ⟨⟨rfl, rfl⟩, -⟩
  exact h

/-- The devices can be created exactly if they find their parents. -/
theorem completes_setupSnmp_iff {leaf : Dict Role Ident} (hroot : s.HasFolder args.root)
    (hleaf : LeafOk args.root leaf s) (hnetsim : args.snmp = .on → panels.netsim ≠ none) :
    ((setupSnmp args leaf).Completes (Cooperates panels) s fun _ _ => True) ↔
      Creatable s.hosts.get
        (((panels.netsim.map deviceRows).getD []).map (Row.placed args.root)) := by
  refine completes_netsimPanel.trans ?_
  cases hpanels : panels.netsim with
  | none =>
      dsimp only
      rw [if_neg fun hon => hnetsim hon hpanels]
      exact iff_of_true trivial trivial
  | some info =>
      have hanswers := cooperates_answers panels
      have hheal : ((healDevices info.devices.entries).Completes (Cooperates panels) s
          fun _ _ => True) ↔ True := iff_of_true completes_healDevices trivial
      refine (completes_seq_iff hanswers hheal ?_).trans (iff_of_eq (true_and _))
      rintro ⟨⟩ s₁ hrun₁
      cases site_of_asks (asks_healDevices _) (serves_of_cooperates hrun₁)
      have hrows : ((createRows args.root leaf (deviceRows info)).Completes (Cooperates panels) s
          fun _ _ => True) ↔ _ := completes_createRows_iff hroot hleaf
      refine (completes_seq_iff hanswers hrows (C := True) ?_).trans (iff_of_eq (and_true _))
      intro leaf' s₂ hrun₂
      rcases runs_createRows hleaf (serves_of_cooperates hrun₂) with ⟨-, -, hfolders⟩
      have hroot₂ := hasFolder_mono hroot fun f hf => (hfolders f).mpr (Or.inl hf)
      exact iff_of_true ((completes_ensureSnmpAccess hroot₂).seq fun _ _ _ => trivial) trivial

/-- The SNMP layer can be created exactly if the deployed devices find their parents. -/
theorem completes_snmpLayer_iff (hroot : s.HasFolder args.root)
    (hnetsim : args.snmp = .on → panels.netsim ≠ none) :
    ((snmpLayer args).Completes (Cooperates panels) s fun _ _ => True) ↔
      Creatable s.hosts.get ((deployedRows args panels).map (Row.placed args.root)) := by
  unfold snmpLayer deployedRows deployedNetsim
  split
  · exact iff_of_true trivial trivial
  · have hleaf := leafOk_empty args.root s
    have hsetup := completes_setupSnmp_iff hroot hleaf hnetsim
    refine (completes_seq_iff (cooperates_answers panels) hsetup (C := True) ?_).trans
      (iff_of_eq (and_true _))
    intro result s₁ hrun
    have hroot₁ := hasFolder_mono hroot (folders_of_setupSnmp hleaf (serves_of_cooperates hrun))
    exact iff_of_true ((completes_ensureRule hroot₁).seq fun _ _ _ => trivial) trivial

/-- The site behind the SNMP layer. -/
structure LayerDone (args : Args) (panels : Panels) (s : Site)
    (result : List Text × Dict Role Ident) (t : Site) : Prop where
  fqdns : result.1 = deployedFqdns args panels
  hosts : t.hosts.get =
    ((deployedRows args panels).map (Row.placed args.root)).foldl ensurePlaced s.hosts.get
  leaf : LeafOk args.root result.2 t
  folders : ∀ f ∈ s.folders, f ∈ t.folders

theorem layerDone_of_snmpLayer {result : List Text × Dict Role Ident}
    (h : (snmpLayer args).Runs (Serves panels) s result t) : LayerDone args panels s result t := by
  rcases runs_snmpLayer h with ⟨hfqdns, s₁, s₂, hrows, haccess, hresidual⟩
  rcases runs_createRows (leafOk_empty args.root s) hrows with ⟨hhosts₁, hleaf₁, hfolders₁⟩
  have hf₂ := folders_of_asks (asks_deployedAccess _ _) (by decide) haccess
  have hf₃ := folders_of_asks (asks_deployedResidual _) (by decide) hresidual
  have hh₂ := hosts_of_asks (asks_deployedAccess _ _) (by decide) (by decide) haccess
  have hh₃ := hosts_of_asks (asks_deployedResidual _) (by decide) (by decide) hresidual
  refine ⟨hfqdns, ?_, ?_, ?_⟩
  · rw [hh₃, hh₂, hhosts₁, foldl_ensureRow]
  · exact hleaf₁.mono fun f hf => by rw [hf₃, hf₂]; exact hf
  · intro f hf
    rw [hf₃, hf₂]
    exact (hfolders₁ f).mpr (Or.inl hf)

theorem completes_ensureAgentAccess {delivery : Text} :
    (ensureAgentAccess args delivery).Completes (Cooperates panels) s fun _ _ => True := by
  unfold ensureAgentAccess
  split
  · exact completes_ensureRule (Or.inl rfl)
  · trivial

theorem completes_ensureAgentSource (hroot : s.HasFolder args.root) :
    (ensureAgentSource args).Completes (Cooperates panels) s fun _ _ => True := by
  unfold ensureAgentSource
  split
  · exact completes_ensureRule hroot
  · trivial

/-- The objects of an estate can be created exactly if its hosts find their parents. -/
theorem completes_createObjects_iff (hroot : s.HasFolder args.root ∨ args.root.length ≤ 1)
    (hnetsim : args.snmp = .on → panels.netsim ≠ none) :
    ((createObjects args panels.delivery).Completes (Cooperates panels) s fun _ _ => True) ↔
      Creatable s.hosts.get (hostPlan args panels) := by
  have hanswers := cooperates_answers panels
  have hfirst : ((ensureFolder args.root "Meridian Retail demo".toList []).Completes
      (Cooperates panels) s fun _ _ => True) ↔ True :=
    iff_of_true (completes_ensureRoot hroot) trivial
  rw [hostPlan, creatable_append, Creatable]
  refine (completes_seq_iff hanswers hfirst ?_).trans (iff_of_eq (true_and _))
  rintro ⟨⟩ s₁ hrun₁
  have hrun₁' := serves_of_cooperates hrun₁
  have hroot₁ := hasFolder_root hroot hrun₁'
  have hhosts₁ := hosts_of_asks (asks_ensureFolder _ _ _) (by decide) (by decide) hrun₁'
  rw [← hhosts₁]
  refine completes_seq_iff hanswers (completes_snmpLayer_iff hroot₁ hnetsim) ?_
  rintro ⟨fqdns, leaf⟩ s₂ hrun₂
  have hlayer := layerDone_of_snmpLayer (serves_of_cooperates hrun₂)
  obtain rfl : fqdns = deployedFqdns args panels := hlayer.fqdns
  have hroot₂ := hasFolder_mono hroot₁ hlayer.folders
  rw [← hlayer.hosts]
  refine completes_seq_iff hanswers (completes_ensureHost_iff hroot₂) ?_
  rintro ⟨⟩ s₃ hrun₃
  have hrun₃' := serves_of_cooperates hrun₃
  have hf₃ := folders_of_asks (asks_ensureHost _ _ _) (by decide) hrun₃'
  have hhosts₃ := (runs_ensureHost hrun₃').1
  have haccess : ((ensureAgentAccess args panels.delivery.host).Completes (Cooperates panels) s₃
      fun _ _ => True) ↔ True := iff_of_true completes_ensureAgentAccess trivial
  refine (completes_seq_iff hanswers haccess ?_).trans (iff_of_eq (true_and _))
  rintro ⟨⟩ s₄ hrun₄
  have hrun₄' := serves_of_cooperates hrun₄
  have hf₄ := folders_of_asks (asks_ensureAgentAccess _ _) (by decide) hrun₄'
  have hh₄ := hosts_of_asks (asks_ensureAgentAccess _ _) (by decide) (by decide) hrun₄'
  have hkept : ∀ f ∈ s₂.folders, f ∈ s₄.folders := fun f hf => by rw [hf₄, hf₃]; exact hf
  have hroot₄ := hasFolder_mono hroot₂ hkept
  have hrows : ((createRows args.root leaf
      (hostRows args panels.delivery (deployedFqdns args panels))).Completes (Cooperates panels) s₄
        fun _ _ => True) ↔ _ := completes_createRows_iff hroot₄ (hlayer.leaf.mono hkept)
  rw [hh₄, hhosts₃] at hrows
  refine (completes_seq_iff hanswers hrows (C := True) ?_).trans (iff_of_eq (and_true _))
  intro leaf' s₅ hrun₅
  have hfolders₅ := (runs_createRows (hlayer.leaf.mono hkept) (serves_of_cooperates hrun₅)).2.2
  have hroot₅ := hasFolder_mono hroot₄ fun f hf => (hfolders₅ f).mpr (Or.inl hf)
  -- behind the last host nothing can be turned down
  refine iff_of_true (completes_pruneSubtree.seq fun _ s₆ hrun₆ => ?_) trivial
  have hf₆ := folders_of_asks (asks_pruneSubtree _ _) (by decide) (serves_of_cooperates hrun₆)
  refine (completes_ensureAgentSource (hasFolder_mono hroot₅ fun f hf => hf₆ ▸ hf)).seq
    fun _ _ _ => completes_ensureBiPack.seq fun _ _ _ => ?_
  exact (completes_ensureRule (Or.inl rfl)).seq fun _ _ _ => trivial

/-! ## Discovery and activation -/

theorem completes_waitForDiscovery {host : Text} {n : Nat} {last : Status} :
    (waitForDiscovery host (n + 1) last).Completes (Cooperates panels) s fun _ _ => True := by
  refine completes_call.mpr ⟨⟨true⟩, fun before s₁ hbefore => ?_⟩
  have hyes : before = true := hbefore.2
  rw [if_pos hyes]
  refine completes_call.mpr ⟨⟨(0 : Status)⟩, fun status s₂ hstatus => ?_⟩
  have hended : status = (204 : Status) := hstatus.2
  rw [if_pos hended]
  trivial

theorem completes_discover {host : Text} :
    (discover host).Completes (Cooperates panels) s fun _ _ => True := by
  have hrefresh : (refresh host).Completes (Cooperates panels) s fun _ _ => True := by
    refine completes_call.mpr ⟨⟨(0 : Status)⟩, fun status s₁ hstatus => ?_⟩
    split
    · exact completes_waitForDiscovery
    · rename_i hother
      have hprompt : status = (200 : Status) ∨ ("refresh".toList = "refresh".toList ∧
          (status = (302 : Status) ∨ status = (303 : Status) ∨ status = (409 : Status))) :=
        hstatus.2
      exact completes_expect_iff.mpr (hprompt.resolve_right fun h => hother h.2)
  refine hrefresh.seq fun _ _ _ => ?_
  refine completes_call.mpr ⟨⟨(0 : Status)⟩, fun status s₁ hstatus => ?_⟩
  have hprompt : status = (200 : Status) ∨ ("fix_all".toList = "refresh".toList ∧
      (status = (302 : Status) ∨ status = (303 : Status) ∨ status = (409 : Status))) := hstatus.2
  exact completes_expect_iff.mpr (hprompt.resolve_right fun h => absurd h.1 (by decide))

theorem completes_discoverAll {hosts : List Text} :
    (discoverAll hosts).Completes (Cooperates panels) s fun _ _ => True := by
  induction hosts generalizing s with
  | nil => trivial
  | cons host hosts ih => exact completes_discover.seq fun _ _ _ => ih

theorem completes_bulkDiscover {hosts : List Text} :
    (bulkDiscover hosts).Completes (Cooperates panels) s fun _ _ => True := by
  refine completes_call.mpr ⟨⟨((0 : Status), none)⟩, fun started s₁ hstarted => ?_⟩
  have hprompt : started.1 = (200 : Status) ∨ started.1 = (303 : Status) := hstarted.2
  rw [if_pos hprompt]
  refine completes_call.mpr ⟨⟨true⟩, fun before s₂ hbefore => ?_⟩
  have hyes : before = true := hbefore.2
  rw [if_pos hyes]
  refine completes_call.mpr ⟨⟨none⟩, fun active s₃ hactive => ?_⟩
  have hended : active = some false := hactive.2
  dsimp only
  rw [if_pos hended]
  trivial

theorem completes_pendingHosts {skip : Bool} {hosts : List Text} :
    (pendingHosts skip hosts).Completes (Cooperates panels) s fun _ _ => True := by
  induction hosts generalizing s with
  | nil => trivial
  | cons host hosts ih =>
      unfold pendingHosts
      split
      · have hcount : (monitoredServiceCount host).Completes (Cooperates panels) s
            fun _ _ => True := completes_call.mpr ⟨⟨none⟩, fun _ _ _ => trivial⟩
        exact hcount.seq fun _ _ _ => ih.seq fun _ _ _ => trivial
      · exact ih.seq fun _ _ _ => trivial

theorem completes_discoverEstate {info : Delivery} {fqdns : List Text} :
    (discoverEstate args info fqdns).Completes (Cooperates panels) s fun _ _ => True := by
  refine completes_discover.seq fun _ _ _ => completes_pendingHosts.seq fun pending _ _ => ?_
  split
  · exact completes_bulkDiscover
  · exact completes_discoverAll

theorem completes_activate {force : Bool} :
    (activate force).Completes (Cooperates panels) s fun _ _ => True := by
  refine completes_call.mpr ⟨⟨((0 : Status), none)⟩, fun started s₁ hstarted => ?_⟩
  have hprompt : started.1 = (200 : Status) ∨ started.1 = (422 : Status) := hstarted.2
  split
  · trivial
  · rename_i hchanged
    rw [if_pos (hprompt.resolve_right hchanged)]
    split
    · trivial
    · refine completes_call.mpr ⟨⟨true⟩, fun before s₂ hbefore => ?_⟩
      have hyes : before = true := hbefore.2
      rw [if_pos hyes]
      refine completes_call.mpr ⟨⟨(0 : Status)⟩, fun status s₃ hstatus => ?_⟩
      have hended : status = (204 : Status) := hstatus.2
      rw [if_pos hended]
      trivial

/-- The fingerprint can be stored on a host that exists. -/
theorem completes_writeFingerprint {delivery fp : Text} (h : s.hosts.get delivery ≠ none) :
    (writeFingerprint delivery fp).Completes (Cooperates panels) s fun _ _ => True := by
  refine completes_call.mpr ⟨⟨none⟩, fun host s₁ hhost => ?_⟩
  rcases hhost.1 with ⟨rfl, rfl⟩
  dsimp only
  split
  · trivial
  · refine completes_call.mpr ⟨⟨(0 : Status)⟩, fun status s₂ hput => completes_expect_iff.mpr ?_⟩
    rcases hput.1 with ⟨_, hok, -⟩ | ⟨-, -, hnone⟩
    · exact hok
    · exact absurd hnone h

/-! ## Whole runs -/

theorem completes_reconfigure_iff {fp : Text}
    (hroot : s.HasFolder args.root ∨ args.root.length ≤ 1)
    (hnetsim : args.snmp = .on → panels.netsim ≠ none) :
    ((reconfigure args panels.delivery fp).Completes (Cooperates panels) s fun _ _ => True) ↔
      Creatable s.hosts.get (hostPlan args panels) := by
  have hanswers := cooperates_answers panels
  have hheal : ((healEstate panels.delivery.carried).Completes (Cooperates panels) s
      fun _ _ => True) ↔ True := iff_of_true completes_healEstate trivial
  refine (completes_seq_iff hanswers hheal ?_).trans (iff_of_eq (true_and _))
  rintro ⟨⟩ s₁ hrun₁
  cases site_of_asks (asks_healEstate _) (serves_of_cooperates hrun₁)
  have hcreate := completes_createObjects_iff hroot hnetsim
  refine (completes_seq_iff hanswers hcreate (C := True) ?_).trans (iff_of_eq (and_true _))
  intro fqdns s₂ hrun₂
  rcases runs_createObjects (serves_of_cooperates hrun₂) with ⟨hcreated, -⟩
  have hshell : s₂.hosts.get panels.delivery.host ≠ none := by
    rw [hcreated.hosts_of_mem List.mem_cons_self]
    exact isSome_foldl_ensurePlaced (Or.inl (mem_hostPlan.mpr List.mem_cons_self))
  refine iff_of_true (completes_discoverEstate.seq fun _ s₃ hrun₃ => ?_) trivial
  cases site_of_asks (asks_discoverEstate _ _ _) (serves_of_cooperates hrun₃)
  refine completes_activate.seq fun _ s₄ hrun₄ => ?_
  cases site_of_asks (asks_activate _) (serves_of_cooperates hrun₄)
  refine completes_discover.seq fun _ s₅ hrun₅ => ?_
  cases site_of_asks (asks_discover _) (serves_of_cooperates hrun₅)
  exact (completes_writeFingerprint hshell).seq fun _ _ _ => completes_activate

theorem storedFingerprint_of_reconfigure {fp : Text}
    (h : (reconfigure args panels.delivery fp).Runs (Serves panels) s u t) :
    storedFingerprint t panels.delivery.host = some fp := by
  rcases runs_reconfigure h with ⟨s', hcreate, -, -, -, hhosts⟩
  have hmem : panels.delivery.host ∈ estateNames args panels := List.mem_cons_self
  have hshell : s'.hosts.get panels.delivery.host ≠ none := by
    rw [hcreate.hosts_of_mem hmem]
    exact isSome_foldl_ensurePlaced (Or.inl (mem_hostPlan.mpr hmem))
  rcases Option.ne_none_iff_exists'.mp hshell with ⟨config, hconfig⟩
  rw [storedFingerprint, hhosts, Function.update_self, hconfig, Option.map_some, Option.bind_some,
    Dict.get_set_self]

theorem completes_plannedSnmp_iff :
    ((plannedSnmp args).Completes (Cooperates panels) s fun _ _ => True) ↔
      (args.snmp = .on → panels.netsim ≠ none) := by
  unfold plannedSnmp
  split
  · rename_i hoff
    exact iff_of_true trivial fun hon => absurd (hoff.symm.trans hon) (by decide)
  · refine completes_netsimPanel.trans ?_
    cases hnetsim : panels.netsim with
    | none =>
        dsimp only
        split
        · rename_i hon
          exact iff_of_false not_completes_die fun h => h hon rfl
        · rename_i hon
          exact iff_of_true trivial fun h => absurd h hon
    | some info => exact iff_of_true trivial fun _ => Option.some_ne_none info

/-- What a run needs to complete. -/
structure Ready (digest : Canon → Text) (args : Args) (panels : Panels) (s : Site) : Prop where
  children : ∀ h ∈ panels.delivery.carried, h.state ≠ none
  netsim : args.snmp = .on → panels.netsim ≠ none
  parents : Reconfigures args panels digest s → Creatable s.hosts.get (hostPlan args panels)

theorem completes_unless_stored_iff (hroot : s.HasFolder args.root ∨ args.root.length ≤ 1)
    (hnetsim : args.snmp = .on → panels.netsim ≠ none) :
    (Program.Completes (Cooperates panels)
        (if args.force then
          reconfigure args panels.delivery (fingerprintOf args panels digest)
        else do
          let stored ← readFingerprint panels.delivery.host
          if stored = some (fingerprintOf args panels digest) then pure ()
          else reconfigure args panels.delivery (fingerprintOf args panels digest))
        s fun _ t =>
          storedFingerprint t panels.delivery.host = some (fingerprintOf args panels digest)) ↔
      (Reconfigures args panels digest s → Creatable s.hosts.get (hostPlan args panels)) := by
  have hreconfigure :
      ((reconfigure args panels.delivery (fingerprintOf args panels digest)).Completes
        (Cooperates panels) s fun _ t =>
        storedFingerprint t panels.delivery.host = some (fingerprintOf args panels digest)) ↔
      Creatable s.hosts.get (hostPlan args panels) := by
    rw [← completes_reconfigure_iff hroot hnetsim]
    refine ⟨fun h => h.mono fun _ _ _ => trivial, fun h => h.of_runs.mono fun _ t ht => ?_⟩
    exact storedFingerprint_of_reconfigure (serves_of_cooperates ht.1)
  split
  · rename_i hforce
    rw [hreconfigure]
    exact (imp_iff_right (Or.inl hforce)).symm
  · rename_i hforce
    have hread : ((readFingerprint panels.delivery.host).Completes (Cooperates panels) s
        fun _ _ => True) ↔ True :=
      iff_of_true (completes_call.mpr ⟨⟨none⟩, fun _ _ _ => trivial⟩) trivial
    refine (completes_seq_iff (cooperates_answers panels) hread ?_).trans (iff_of_eq (true_and _))
    intro stored s₁ hrun
    rcases runs_call.mp (serves_of_cooperates hrun) with ⟨host, s₂, ⟨hhost, hs₂⟩, hstored, hs₁⟩
    subst hhost hs₂ hs₁ hstored
    split
    · rename_i hsame
      refine iff_of_true hsame fun hreconfigures => ?_
      rcases hreconfigures with hyes | hdiffers
      · exact absurd hyes hforce
      · exact absurd hsame hdiffers
    · rename_i hdiffers
      rw [hreconfigure]
      exact (imp_iff_right (Or.inr hdiffers)).symm

/-- A run completes, whatever a cooperating site answers, exactly if it is ready, and then it has
stored its fingerprint. -/
theorem completes_setup_iff (digest : Canon → Text) (args : Args) (panels : Panels) (s : Site)
    (hroot : s.HasFolder args.root ∨ args.root.length ≤ 1) :
    ((setup digest args).Completes (Cooperates panels) s fun _ t =>
        storedFingerprint t panels.delivery.host = some (fingerprintOf args panels digest)) ↔
      Ready digest args panels s := by
  refine completes_call.trans ⟨fun h => ?_, fun h => ⟨⟨none⟩, ?_⟩⟩
  · have hrest := h.2 _ s ⟨⟨rfl, rfl⟩, trivial⟩
    dsimp only at hrest
    split at hrest
    · exact absurd hrest not_completes_die
    · rename_i hup
      have hnetsim := completes_plannedSnmp_iff.mp hrest.left
      rcases hrest.left.exists_runs (cooperates_answers panels) with ⟨plan, s₁, hplan, -⟩
      have hlast := hrest.right hplan
      rcases runs_plannedSnmp (serves_of_cooperates hplan) with ⟨rfl, rfl⟩
      refine ⟨?_, hnetsim, (completes_unless_stored_iff hroot hnetsim).mp hlast⟩
      intro c hc hdown
      have hnone := List.filter_eq_nil_iff.mp (List.map_eq_nil_iff.mp (not_not.mp hup)) c hc
      exact hnone (decide_eq_true hdown)
  · rintro ans s₁ ⟨⟨rfl, rfl⟩, -⟩
    dsimp only
    rw [if_neg]
    · refine (completes_plannedSnmp_iff.mpr h.netsim).seq fun plan s₂ hplan => ?_
      rcases runs_plannedSnmp (serves_of_cooperates hplan) with ⟨rfl, rfl⟩
      exact (completes_unless_stored_iff hroot h.netsim).mpr h.parents
    · rw [not_not, List.map_eq_nil_iff, List.filter_eq_nil_iff]
      exact fun c hc hdown => h.children c hc (of_decide_eq_true hdown)

end Parts

theorem completes_setup_core :
    (setup modeDigest demoArgs).Completes (Cooperates corePanels) Site.empty fun _ t =>
      storedFingerprint t corePanels.delivery.host =
        some (fingerprintOf demoArgs corePanels modeDigest) :=
  (completes_setup_iff modeDigest demoArgs corePanels Site.empty (Or.inr (by decide))).mpr
    { children := fun _ h => absurd h List.not_mem_nil
      netsim := fun hon => absurd hon (by decide)
      parents := fun _ => by decide +kernel }

/-- The load balancer names a parent that is created after it. -/
example : ¬ Creatable Site.empty.hosts.get (hostPlan demoArgs balancerPanels) := by
  decide +kernel

end Deploy
end DemoEstate
