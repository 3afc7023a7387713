import DemoEstate.Deploy.Calls

/-!
# Pruning hosts by the texts of their folders

The site reports the folder of a host as a text, in one of several notations.  The hosts of an
estate that left the roster are deleted by a comparison of segments, and so is nothing outside
of the estate's root folder.

Main definitions:

- Definition {lit}`Path`: the segments a folder text denotes.
- Definition {lit}`Texts.pruneSubtree`: the deletion as the tool performs it.
- Structure {lit}`PrunesExactly`: what it deletes.

Main results:

- Theorem {lit}`path_iff`: a folder text denotes its normalized segments, and no others.
- Theorem {lit}`path_notations`: the notations of one folder.
- Theorem {lit}`folderSegs_folderIdent`: an identifier has the segments of its parts.
- Theorem {lit}`prunesExactly`: exactly the strays are deleted.
- Theorem {lit}`normalised`: an identifier is a normal form of its parts.
-/

namespace DemoEstate
namespace Deploy

open Interaction
open Interaction.Program

/-! ## Folder texts -/

/-- The characters between the segments of a folder text. -/
def Separator (c : Char) : Prop :=
  c = '~' ∨ c = '/'

instance : DecidablePred Separator := fun _ =>
  inferInstanceAs (Decidable (_ ∨ _))

/-- A folder text denotes the segments between its separators; empty ones do not count. -/
inductive Path : Text → Ident → Prop
  | nil : Path [] []
  | separator {c : Char} {rest : Text} {segs : Ident} (hc : Separator c) (tail : Path rest segs) :
      Path (c :: rest) segs
  | segment {seg rest : Text} {segs : Ident} (hne : seg ≠ []) (hseg : ∀ c ∈ seg, ¬ Separator c)
      (hrest : ∀ c ∈ rest.head?, Separator c) (tail : Path rest segs) :
      Path (seg ++ rest) (seg :: segs)

theorem folderSegs_separator {c : Char} (hc : Separator c) (rest : Text) :
    folderSegs (c :: rest) = folderSegs rest := by
  have hsep : decide (c = '~' ∨ c = '/') = true := decide_eq_true hc
  rw [folderSegs, List.splitOnP_cons_eq_if_modifyHead, if_pos hsep,
    List.filter_cons_of_neg (by simp), folderSegs]

theorem folderSegs_segment {seg rest : Text} (hne : seg ≠ []) (hseg : ∀ c ∈ seg, ¬ Separator c)
    (hrest : ∀ c ∈ rest.head?, Separator c) :
    folderSegs (seg ++ rest) = seg :: folderSegs rest := by
  have hno : ∀ c ∈ seg, decide (c = '~' ∨ c = '/') = false := fun c hc =>
    decide_eq_false (hseg c hc)
  have hkept : ∀ segs : Ident, (seg :: segs).filter (· ≠ []) = seg :: segs.filter (· ≠ []) :=
    fun _ => List.filter_cons_of_pos (by simpa using hne)
  cases rest with
  | nil =>
      rw [List.append_nil, folderSegs, List.splitOnP_eq_singleton hno, hkept]
      rfl
  | cons c rest =>
      have hc : Separator c := hrest c rfl
      rw [folderSegs_separator hc, folderSegs, List.splitOnP_append_cons_of_forall_mem hno c
        (decide_eq_true hc), hkept, folderSegs]

/-- A folder text denotes its normalized segments, and no others. -/
theorem path_iff {text : Text} {segs : Ident} : Path text segs ↔ folderSegs text = segs := by
  constructor
  · intro h
    induction h with
    | nil => rfl
    | separator hc _ ih => rw [folderSegs_separator hc, ih]
    | segment hne hseg hrest _ ih => rw [folderSegs_segment hne hseg hrest, ih]
  · rintro rfl
    induction hlength : text.length using Nat.strong_induction_on generalizing text with
    | _ n ih =>
        cases text with
        | nil => exact .nil
        | cons c rest =>
            by_cases hc : Separator c
            · rw [folderSegs_separator hc]
              exact .separator hc (ih rest.length (by simp [← hlength]) rfl)
            · -- the text starts with a segment, up to the next separator
              let free : Char → Bool := fun d => !decide (Separator d)
              have hsplit : c :: rest =
                  (c :: rest.takeWhile free) ++ rest.dropWhile free := by
                rw [List.cons_append, List.takeWhile_append_dropWhile]
              have hseg : ∀ d ∈ c :: rest.takeWhile free, ¬ Separator d := by
                intro d hd
                rcases List.mem_cons.mp hd with rfl | hd
                · exact hc
                · simpa [free] using List.mem_takeWhile_imp hd
              have hrest : ∀ d ∈ (rest.dropWhile free).head?, Separator d := by
                intro d hd
                have hnot := List.head?_dropWhile_not free rest
                rw [Option.mem_def.mp hd] at hnot
                simpa [free] using hnot
              have hshort : (rest.dropWhile free).length < n := by
                have hle := (List.dropWhile_suffix free (l := rest)).length_le
                rw [List.length_cons] at hlength
                omega
              rw [hsplit, folderSegs_segment (List.cons_ne_nil _ _) hseg hrest]
              exact .segment (List.cons_ne_nil _ _) hseg hrest (ih _ hshort rfl)

/-- The notations of a folder: separators before the segments, or between them. -/
theorem path_flatMap {c : Char} (hc : Separator c) {segs : Ident}
    (h : ∀ seg ∈ segs, seg ≠ [] ∧ ∀ d ∈ seg, ¬ Separator d) :
    Path (segs.flatMap fun seg => c :: seg) segs := by
  induction segs with
  | nil => exact .nil
  | cons seg segs ih =>
      obtain ⟨hne, hseg⟩ := h seg List.mem_cons_self
      have hrest : ∀ d ∈ (segs.flatMap fun seg => c :: seg).head?, Separator d := by
        intro d hd
        cases segs with
        | nil => simp at hd
        | cons next segs =>
            simp only [List.flatMap_cons, List.cons_append, List.head?_cons, Option.mem_def,
              Option.some.injEq] at hd
            exact hd ▸ hc
      exact .separator hc (.segment hne hseg hrest
        (ih fun seg' hseg' => h seg' (List.mem_cons_of_mem _ hseg')))

/-- The three notations of a folder denote its segments. -/
theorem path_notations {segs : Ident} (h : ∀ seg ∈ segs, seg ≠ [] ∧ ∀ d ∈ seg, ¬ Separator d) :
    Path (segs.flatMap fun seg => '~' :: seg) segs ∧
      Path (segs.flatMap fun seg => '/' :: seg) segs ∧
      Path ((segs.flatMap fun seg => '/' :: seg).drop 1) segs := by
  have hslash := path_flatMap (c := '/') (Or.inr rfl) h
  refine ⟨path_flatMap (Or.inl rfl) h, hslash, ?_⟩
  cases segs with
  | nil => exact .nil
  | cons seg segs =>
      rw [List.flatMap_cons, List.cons_append, path_iff, folderSegs_separator (Or.inr rfl)] at hslash
      rw [List.flatMap_cons, List.cons_append, List.drop_one, List.tail_cons]
      exact path_iff.mpr hslash

/-- `folder_ident`: the notation of the REST API for the segments of some parts. -/
def folderIdent (parts : List Text) : Text :=
  Ident.text (parts.flatMap folderSegs)

/-- The segments of a folder text are neither empty nor cut. -/
theorem segment_of_mem_folderSegs {text seg : Text} (h : seg ∈ folderSegs text) :
    seg ≠ [] ∧ ∀ c ∈ seg, ¬ Separator c := by
  have hpath : Path text (folderSegs text) := path_iff.mpr rfl
  generalize folderSegs text = segs at h hpath
  induction hpath with
  | nil => exact absurd h List.not_mem_nil
  | separator _ _ ih => exact ih h
  | segment hne hseg _ _ ih =>
      rcases List.mem_cons.mp h with rfl | h
      · exact ⟨hne, hseg⟩
      · exact ih h

/-- An identifier has the segments of its parts. -/
theorem folderSegs_folderIdent (parts : List Text) :
    folderSegs (folderIdent parts) = parts.flatMap folderSegs := by
  unfold folderIdent Ident.text
  split
  · rename_i hnil
    rw [hnil]
    rfl
  · refine path_iff.mp (path_flatMap (Or.inl rfl) fun seg hseg => ?_)
    obtain ⟨part, -, hpart⟩ := List.mem_flatMap.mp hseg
    exact segment_of_mem_folderSegs hpart

/-- `folder_id`: the same for a single text. -/
def folderId (folderName : Text) : Text :=
  folderIdent [folderName]

/-- An identifier is its own normal form. -/
theorem folderId_folderIdent (parts : List Text) :
    folderId (folderIdent parts) = folderIdent parts := by
  rw [folderId, folderIdent, List.flatMap_singleton, folderSegs_folderIdent, folderIdent]

/-! ## The hosts under a root folder -/

/-- A folder is the root folder of an estate or a descendant of it, by segments; an estate in
the site root has no such folder. -/
def Below (root folder : Text) : Prop :=
  ∃ rootSegs segs, Path root rootSegs ∧ Path folder segs ∧ rootSegs ≠ [] ∧ rootSegs <+: segs

theorem below_iff {root folder : Text} :
    Below root folder ↔ folderSegs root ≠ [] ∧ folderSegs root <+: folderSegs folder := by
  constructor
  · rintro ⟨rootSegs, segs, hroot, hfolder, hne, hpre⟩
    rw [path_iff.mp hroot, path_iff.mp hfolder]
    exact ⟨hne, hpre⟩
  · rintro ⟨hne, hpre⟩
    exact ⟨_, _, path_iff.mpr rfl, path_iff.mpr rfl, hne, hpre⟩

instance (root folder : Text) : Decidable (Below root folder) :=
  decidable_of_iff _ below_iff.symm

/-- A folder beside the root folder, or in one whose name only starts alike, is not below it. -/
theorem not_below_sibling {root folder name other : Text} {init rest : Ident}
    (hroot : Path root (init ++ [name])) (hfolder : Path folder (init ++ other :: rest))
    (hne : other ≠ name) : ¬ Below root folder := by
  rw [below_iff, path_iff.mp hroot, path_iff.mp hfolder]
  rintro ⟨-, hpre⟩
  rw [List.prefix_append_right_inj, List.cons_prefix_cons] at hpre
  exact hne hpre.1.symm

/-! ## The deletion -/

namespace Texts

/-- A host of the site's listing: its name and the text of its folder, empty where the listing
has none. -/
structure Listed where
  name : Text
  folder : Text
deriving DecidableEq

/-- The calls of the deletion. -/
inductive Call where
  | listHosts
  | deleteHost (name : Text)
deriving DecidableEq

/-- The listing, unless the site refuses it, and the status of a deletion. -/
abbrev Ans : Call → Type
  | .listHosts => Option (List Listed)
  | .deleteHost _ => Status

/-- `_in_subtree`. -/
def inSubtree (hostFolder : Text) (rootSegs : Ident) : Bool :=
  rootSegs ≠ [] && (folderSegs hostFolder).take rootSegs.length = rootSegs

/-- The loop over the listed hosts. -/
def pruneHosts (rootSegs : Ident) (keep : List Text) : List Listed → Program Call Ans Unit
  | [] => pure ()
  | h :: hosts =>
      if h.name ∈ keep then pruneHosts rootSegs keep hosts
      else if !inSubtree h.folder rootSegs then pruneHosts rootSegs keep hosts
      else do
        let _ ← call (Call.deleteHost h.name)
        pruneHosts rootSegs keep hosts

/-- `prune_subtree`. -/
def pruneSubtree (rootIdent : Text) (keep : List Text) : Program Call Ans Unit :=
  if folderSegs rootIdent = [] then pure ()
  else do
    let hosts : Option (List Listed) ← call Call.listHosts
    match hosts with
    | none => pure ()
    | some hosts => pruneHosts (folderSegs rootIdent) keep hosts

/-- The hosts a log deletes, in order. -/
def deletions (log : List (Exchange Call Ans)) : List Text :=
  log.filterMap fun e =>
    match e.1 with
    | .listHosts => none
    | .deleteHost name => some name

end Texts

open Texts (Listed deletions)

/-- Under a listing, a log deletes the strays under the root folder and no others: nothing at all
for an estate in the site root, and nothing in a folder whose name only starts alike. -/
structure PrunesExactly (root : Text) (keep : List Text) (listing : Option (List Listed))
    (log : List (Exchange Texts.Call Texts.Ans)) : Prop where
  deleted : deletions log =
    ((listing.getD []).filter fun h => h.name ∉ keep ∧ Below root h.folder).map Listed.name
  siteRoot : Path root [] → log = []
  sibling : ∀ folder init name other rest, Path root (init ++ [name]) →
    Path folder (init ++ other :: rest) → other ≠ name → ¬ Below root folder

section Deletion

variable {σ : Type} {env : Env σ Texts.Call Texts.Ans} {root : Text} {keep : List Text} {s t : σ}
  {log : List (Exchange Texts.Call Texts.Ans)}

theorem inSubtree_iff {folder : Text} :
    Texts.inSubtree folder (folderSegs root) = true ↔ Below root folder := by
  rw [below_iff, Texts.inSubtree, Bool.and_eq_true, decide_eq_true_eq, decide_eq_true_eq,
    List.prefix_iff_eq_take]
  exact and_congr_right fun _ => eq_comm

/-- The text comparison is the comparison of the segments. -/
theorem inSubtree_folderSegs (folder : Text) (rootSegs : Ident) :
    Texts.inSubtree folder rootSegs = inSubtree (folderSegs folder) rootSegs := by
  rw [Bool.eq_iff_iff]
  simp only [Texts.inSubtree, inSubtree, Bool.and_eq_true, decide_eq_true_eq,
    List.isPrefixOf_iff_prefix, List.prefix_iff_eq_take]
  exact and_congr_right fun _ => eq_comm

/-- One pass over the listed hosts deletes the strays among them. -/
theorem deletions_pruneHosts {hosts : List Listed}
    (h : (Texts.pruneHosts (folderSegs root) keep hosts).Traces env s log (some ()) t) :
    deletions log =
      (hosts.filter fun h => h.name ∉ keep ∧ Below root h.folder).map Listed.name := by
  induction hosts generalizing s log with
  | nil =>
      obtain ⟨rfl, -⟩ := h
      rfl
  | cons host hosts ih =>
      unfold Texts.pruneHosts at h
      split at h
      · rename_i hkeep
        rw [ih h, List.filter_cons_of_neg (by simp [hkeep])]
      · rename_i hkeep
        split at h
        · rename_i hout
          have hnot : ¬ Below root host.folder := by
            rw [← inSubtree_iff]
            simpa using hout
          rw [ih h, List.filter_cons_of_neg (by simp [hnot])]
        · rename_i hin
          have hbelow : Below root host.folder := by
            rw [← inSubtree_iff]
            simpa using hin
          obtain ⟨ans, s', rest, rfl, -, hrest⟩ := traces_call_some h
          rw [List.filter_cons_of_pos (by simp [hkeep, hbelow]), List.map_cons, ← ih hrest]
          rfl

/-- `prune_subtree` deletes exactly the strays under the root folder. -/
theorem prunesExactly (listing : Option (List Listed))
    (hlisting : ∀ u ans v, env u .listHosts ans v → ans = listing)
    (h : (Texts.pruneSubtree root keep).Traces env s log (some ()) t) :
    PrunesExactly root keep listing log := by
  unfold Texts.pruneSubtree at h
  constructor
  · split at h
    · rename_i hroot
      obtain ⟨rfl, -⟩ := h
      have hnot : ∀ folder, ¬ Below root folder := fun folder hbelow =>
        (below_iff.mp hbelow).1 hroot
      simp [deletions, hnot]
    · obtain ⟨ans, s', rest, rfl, hans, hrest⟩ := traces_call_some h
      have hlist := hlisting _ _ _ hans
      subst hlist
      cases ans with
      | none =>
          obtain ⟨rfl, -⟩ := hrest
          rfl
      | some hosts =>
          have hrest' : deletions rest = _ := deletions_pruneHosts hrest
          exact hrest'
  · intro hpath
    rw [if_pos (path_iff.mp hpath)] at h
    exact h.1
  · intro folder init name other rest hroot hfolder hne
    exact not_below_sibling hroot hfolder hne

/-- A stray in the estate's folder, in the folder above it and in one whose name only starts
alike, and a host of the roster. -/
def fourHosts : List Listed :=
  [⟨"old".toList, "/demo/windows".toList⟩, ⟨"shared".toList, "/".toList⟩,
    ⟨"lab".toList, "/demo2/windows".toList⟩, ⟨"web".toList, "~demo".toList⟩]

theorem prunesExactly_fourHosts :
    PrunesExactly "~demo".toList ["web".toList] (some fourHosts)
      [⟨.listHosts, some fourHosts⟩, ⟨.deleteHost "old".toList, (204 : Nat)⟩] := by
  let env : Env Unit Texts.Call Texts.Ans := fun _ op ans _ =>
    match op, ans with
    | .listHosts, hosts => hosts = some fourHosts
    | .deleteHost _, status => status = (204 : Nat)
  have htraces : (Texts.pruneSubtree "~demo".toList ["web".toList]).Traces env ()
      [⟨.listHosts, some fourHosts⟩, ⟨.deleteHost "old".toList, (204 : Nat)⟩] (some ()) () := by
    refine Or.inr ⟨some fourHosts, (), _, rfl, rfl, ?_⟩
    refine Or.inr ⟨(204 : Nat), (), _, rfl, rfl, ?_⟩
    exact ⟨rfl, rfl, Or.inl rfl⟩
  exact prunesExactly (some fourHosts) (fun _ _ _ h => h) htraces

end Deletion

/-! ## Identifiers as normal forms -/

/-- The notations of the segments of a folder: `~a~b`, `/a/b` and `a/b`. -/
inductive Spelling where
  | tilde
  | slash
  | bare

/-- Some segments in a notation. -/
def Spelling.write : Spelling → Ident → Text
  | .tilde, segs => segs.flatMap fun seg => '~' :: seg
  | .slash, segs => segs.flatMap fun seg => '/' :: seg
  | .bare, segs => (segs.flatMap fun seg => '/' :: seg).drop 1

/-- A notation of the segments of a folder text has these segments. -/
theorem path_write (spelling : Spelling) (text : Text) :
    Path (spelling.write (folderSegs text)) (folderSegs text) := by
  obtain ⟨htilde, hslash, hbare⟩ := path_notations fun seg (h : seg ∈ folderSegs text) =>
    segment_of_mem_folderSegs h
  cases spelling with
  | tilde => exact htilde
  | slash => exact hslash
  | bare => exact hbare

/-- Texts of the same folders have the same segments. -/
theorem flatMap_folderSegs_of_paths {texts : List Text} {idents : List Ident}
    (h : List.Forall₂ Path texts idents) : texts.flatMap folderSegs = idents.flatten := by
  induction h with
  | nil => rfl
  | cons hpath _ ih => rw [List.flatMap_cons, List.flatten_cons, path_iff.mp hpath, ih]

/-- The identifier of some parts is a normal form of them: it has their segments, is the
identifier of itself and of every other notation of the parts, and lies below the first part
unless that is the site root. -/
structure Normalised (parts : List Text) : Prop where
  segments : folderSegs (folderIdent parts) = parts.flatMap folderSegs
  idempotent : folderIdent [folderIdent parts] = folderIdent parts
  sameFolders : ∀ texts idents, List.Forall₂ Path parts idents → List.Forall₂ Path texts idents →
    folderIdent texts = folderIdent parts
  respelled : ∀ spelling : Text → Spelling,
    folderIdent (parts.map fun part => (spelling part).write (folderSegs part)) = folderIdent parts
  underRoot : ∀ root rest, parts = root :: rest → ¬ Path root [] →
    Texts.inSubtree (folderIdent parts) (folderSegs root) = true

/-- `folder_ident` computes a normal form. -/
theorem normalised (parts : List Text) : Normalised parts where
  segments := folderSegs_folderIdent parts
  idempotent := folderId_folderIdent parts
  sameFolders := by
    intro texts idents hparts htexts
    rw [folderIdent, folderIdent, flatMap_folderSegs_of_paths hparts,
      flatMap_folderSegs_of_paths htexts]
  respelled := by
    intro spelling
    have hsegs : ∀ part, folderSegs ((spelling part).write (folderSegs part)) = folderSegs part :=
      fun part => path_iff.mp (path_write (spelling part) part)
    rw [folderIdent, folderIdent, List.flatMap_map]
    simp only [hsegs]
  underRoot := by
    intro root rest hparts hroot
    subst hparts
    rw [inSubtree_iff, below_iff, folderSegs_folderIdent, List.flatMap_cons]
    exact ⟨fun hnil => hroot (path_iff.mpr hnil), List.prefix_append _ _⟩

end Deploy
end DemoEstate
