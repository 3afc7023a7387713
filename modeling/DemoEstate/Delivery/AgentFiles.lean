import DemoEstate.Library.Files
import DemoEstate.Library.Simulation
import DemoEstate.Netsim.WriteFailures

/-!
# The agent files of the datasource mode

In the datasource mode the shell writes every host's agent output to a file of its own, pass after
pass, and the site reads the files with {lit}`cat` whenever it likes.  A file is written under a
temporary name, made readable and renamed.  Any of these calls may fail, and the shell may be
killed and started again between any two of them.

What the site sees is a board: the latest output of every host, put up and read in one piece.

Main definitions:

- Definition {lit}`Depot.step`: the calls of the writer and of the readers, one at a time.
- Definition {lit}`Board.step`: the board.
- Definition {lit}`Flawless`: a pass in which no call fails.

Main results:

- Theorem {lit}`Depot.simulates`: the files, seen by their readers, are a board.
- Theorem {lit}`Depot.refines_board`: every run is a run of the board.
- Theorem {lit}`Depot.delivers_of_pass`: a pass without failures puts up every output it has got.
-/

namespace DemoEstate
namespace Delivery

open Files
open Netsim (joinPath)
open Transition

/-! ## The files of the hosts -/

/-- The output directory and the hosts; no host name starts like a hidden file or an absolute
path. -/
structure Outputs where
  dir : Text
  deliveryHostname : Text
  children : List Text
  shown : ∀ name ∈ deliveryHostname :: children, name.head? ≠ some '/' ∧ name.head? ≠ some '.'

namespace Outputs

/-- The hosts in the order of a pass. -/
def hosts (o : Outputs) : List Text :=
  o.deliveryHostname :: o.children

/-- The file of a host. -/
def path (o : Outputs) (name : Text) : Text :=
  joinPath o.dir name

/-- The file that a host's output is written to first. -/
def tmp (o : Outputs) (name : Text) : Text :=
  joinPath o.dir ('.' :: name ++ ".tmp".toList)

end Outputs

/-! ## The writer and the readers -/

/-- Where the writer stands: before the hosts that are left, with an output that is to be written,
within its file, behind it, and before the rename. -/
inductive Writer where
  | fetching (todo : List Text)
  | opening (name payload : Text) (todo : List Text)
  | writing (name payload : Text) (file offset : Nat) (rest : Text) (todo : List Text)
  | closed (name payload : Text) (todo : List Text)
  | replacing (name payload : Text) (todo : List Text)
  | ended
deriving DecidableEq

/-- A `cat`: it found no file, it may not read it, or it has it open. -/
inductive Cat where
  | missing
  | denied
  | reading (file offset : Nat) (got : Text) (eof : Bool)
deriving DecidableEq

/-- The files, which of them the site user may read, the writer, and the readers by number. -/
structure Depot where
  disk : Disk Text
  readable : Nat → Bool
  writer : Writer
  readers : Nat → Option Cat

/-- The calls.  A flag tells whether a call succeeds; a fetch may end the thread, and a file that
is created may be readable from the start. -/
inductive Call where
  | wake (made : Bool)
  | fetch (answer : Option Text)
  | openTmp (ok umask : Bool)
  | write (n : Nat)
  | close
  | fail
  | chmod (ok : Bool)
  | replace (ok : Bool)
  | restart
  | cat (r : Nat) (name : Text)
  | read (r n : Nat)
  | exit (r : Nat)

namespace Depot

/-- Move the writer. -/
def goto (d : Depot) (w : Writer) : Depot :=
  { d with writer := w }

/-- Change one reader. -/
def setReader (d : Depot) (r : Nat) (c : Option Cat) : Depot :=
  { d with readers := fun r' => if r' = r then c else d.readers r' }

/-- Make a file readable, or not. -/
def setMode (d : Depot) (file : Nat) (mode : Bool) : Depot :=
  { d with readable := fun f => if f = file then mode else d.readable f }

/-- What a `cat` of a host finds. -/
def look (o : Outputs) (d : Depot) (name : Text) : Cat :=
  match d.disk.links (o.path name) with
  | none => .missing
  | some file => if d.readable file then .reading file 0 [] false else .denied

/-- One call: of `agent_file_writer`, `write_agent_files` and `_write_file`, or of a reader. -/
def step (o : Outputs) (d : Depot) : Call → Option Depot
  | .wake made =>
      match d.writer with
      | .fetching [] => some (d.goto (if made then .fetching o.hosts else .ended))
      | _ => none
  | .fetch answer =>
      match d.writer, answer with
      | .fetching (_ :: _), none => some (d.goto .ended)
      | .fetching (name :: todo), some payload =>
          -- an empty output keeps the last good file
          some (d.goto (if payload = [] then .fetching todo else .opening name payload todo))
      | _, _ => none
  | .openTmp ok umask =>
      match d.writer with
      | .opening name payload todo =>
          if ok then
            let opened := d.disk.openWrite (o.tmp name)
            let d' := { d with disk := opened.2 }.goto (.writing name payload opened.1 0 payload todo)
            -- a file that is left from an earlier try keeps its mode
            some (if d.disk.links (o.tmp name) = none then d'.setMode opened.1 umask else d')
          else some (d.goto (.fetching todo))
      | _ => none
  | .write n =>
      match d.writer with
      | .writing name payload file offset (c :: rest) todo =>
          let chunk := (c :: rest).take (n + 1)
          some ({ d with disk := d.disk.write file offset chunk }.goto
            (.writing name payload file (offset + chunk.length) ((c :: rest).drop (n + 1)) todo))
      | _ => none
  | .close =>
      match d.writer with
      | .writing name payload _ _ [] todo => some (d.goto (.closed name payload todo))
      | _ => none
  | .fail =>
      match d.writer with
      | .writing _ _ _ _ _ todo => some (d.goto (.fetching todo))
      | _ => none
  | .chmod ok =>
      match d.writer with
      | .closed name payload todo =>
          match ok, d.disk.links (o.tmp name) with
          | true, some file => some ((d.setMode file true).goto (.replacing name payload todo))
          | _, _ => some (d.goto (.fetching todo))
      | _ => none
  | .replace ok =>
      match d.writer with
      | .replacing name _ todo =>
          let moved := if ok then d.disk.rename (o.tmp name) (o.path name) else none
          some ({ d with disk := moved.getD d.disk }.goto (.fetching todo))
      | _ => none
  | .restart => some (d.goto (.fetching []))
  | .cat r name =>
      if name ∈ o.hosts ∧ d.readers r = none then some (d.setReader r (d.look o name)) else none
  | .read r n =>
      match d.readers r with
      | some (.reading file offset got false) =>
          let chunk := ((d.disk.content file).drop offset).take (n + 1)
          some (d.setReader r (some (.reading file (offset + chunk.length) (got ++ chunk)
            (chunk = []))))
      | _ => none
  | .exit r => some (d.setReader r none)

/-- A shell that starts on some files, before its first pass and without readers. -/
def boot (disk : Disk Text) (readable : Nat → Bool) : Depot where
  disk := disk
  readable := readable
  writer := .fetching []
  readers := fun _ => none

end Depot

/-! ## The board -/

/-- A reader of the board: it has found nothing, or it has got a part of the output it was given. -/
inductive Reader where
  | missing
  | denied
  | given (whole got : Text) (eof : Bool)
deriving DecidableEq

/-- The latest output of every host, and the readers. -/
structure Board where
  latest : Text → Option Text
  readers : Nat → Option Reader

/-- An output is put up, and read. -/
inductive Notice where
  | deliver (name payload : Text)
  | cat (r : Nat) (name : Text)
  | read (r n : Nat)
  | exit (r : Nat)

namespace Board

/-- Change one reader. -/
def setReader (b : Board) (r : Nat) (c : Option Reader) : Board :=
  { b with readers := fun r' => if r' = r then c else b.readers r' }

/-- Outputs of hosts are put up whole; a reader is given the latest one, and gets it in pieces. -/
def step (o : Outputs) (b : Board) : Notice → Option Board
  | .deliver name payload =>
      if name ∈ o.hosts ∧ payload ≠ [] then
        some { b with latest := fun n => if n = name then some payload else b.latest n }
      else none
  | .cat r name =>
      if name ∈ o.hosts ∧ b.readers r = none then
        some (b.setReader r (some (match b.latest name with
          | none => .missing
          | some whole => .given whole [] false)))
      else none
  | .read r n =>
      match b.readers r with
      | some (.given whole got false) =>
          some (b.setReader r (some (.given whole (whole.take (got.length + (n + 1)))
            (got = whole))))
      | _ => none
  | .exit r => some (b.setReader r none)

/-- A reader has got a first part of what it was given, and all of it at the end. -/
def Faithful (b : Board) : Prop :=
  ∀ r c, b.readers r = some c → c ≠ .denied ∧
    ∀ whole got eof, c = .given whole got eof → got <+: whole ∧ (eof = true → got = whole)

end Board

/-! ## Paths -/

namespace Outputs

variable {o : Outputs} {name name' : Text}

/-- A name that is not an absolute path is put behind the directory. -/
theorem joinPath_relative (dir : Text) :
    ∃ base, ∀ name : Text, name.head? ≠ some '/' → joinPath dir name = base ++ name := by
  by_cases hdir : dir = [] ∨ dir.getLast? = some '/'
  · exact ⟨dir, fun name hname => by rw [joinPath, if_neg hname, if_pos hdir]⟩
  · refine ⟨dir ++ ['/'], fun name hname => ?_⟩
    rw [joinPath, if_neg hname, if_neg hdir, List.append_assoc]
    rfl

/-- Different hosts have different files. -/
theorem path_inj (hname : name ∈ o.hosts) (hname' : name' ∈ o.hosts)
    (h : o.path name = o.path name') : name = name' := by
  rcases joinPath_relative o.dir with ⟨base, hbase⟩
  rw [path, path, hbase _ (o.shown name hname).1, hbase _ (o.shown name' hname').1] at h
  exact List.append_cancel_left h

/-- No host's file is the temporary file of a host. -/
theorem path_ne_tmp (hname : name ∈ o.hosts) (name' : Text) : o.path name ≠ o.tmp name' := by
  intro h
  rcases joinPath_relative o.dir with ⟨base, hbase⟩
  rw [path, tmp, hbase _ (o.shown name hname).1, hbase _ (by simp)] at h
  have hdot := (o.shown name hname).2
  rw [List.append_cancel_left h] at hdot
  exact hdot rfl

end Outputs

/-! ## The invariant -/

/-- What the writer has written so far, and which hosts are left. -/
def Writer.Sound (o : Outputs) (d : Depot) : Writer → Prop
  | .fetching todo => todo ⊆ o.hosts
  | .opening name payload todo => (name ∈ o.hosts ∧ payload ≠ []) ∧ todo ⊆ o.hosts
  | .writing name payload file offset rest todo =>
      ((name ∈ o.hosts ∧ payload ≠ []) ∧ todo ⊆ o.hosts) ∧
        d.disk.links (o.tmp name) = some file ∧ offset = (d.disk.content file).length ∧
          d.disk.content file ++ rest = payload
  | .closed name payload todo =>
      ((name ∈ o.hosts ∧ payload ≠ []) ∧ todo ⊆ o.hosts) ∧
        ∃ file, d.disk.links (o.tmp name) = some file ∧ d.disk.content file = payload
  | .replacing name payload todo =>
      ((name ∈ o.hosts ∧ payload ≠ []) ∧ todo ⊆ o.hosts) ∧
        ∃ file, d.disk.links (o.tmp name) = some file ∧ d.disk.content file = payload ∧
          d.readable file = true
  | .ended => True

/-- A reader has got the beginning of a file that no writer opens again. -/
structure Holds (o : Outputs) (d : Depot) (file offset : Nat) (got : Text) (eof : Bool) :
    Prop where
  exists_file : file < d.disk.fresh
  not_tmp : ∀ name ∈ o.hosts, d.disk.links (o.tmp name) ≠ some file
  offset_le : offset ≤ (d.disk.content file).length
  got_eq : got = (d.disk.content file).take offset
  whole : eof = true → got = d.disk.content file

/-- A reader keeps what it holds while its file does. -/
theorem Holds.of_content {o : Outputs} {d d' : Depot} {file offset : Nat} {got : Text} {eof : Bool}
    (h : Holds o d file offset got eof) (hfresh : d.disk.fresh ≤ d'.disk.fresh)
    (htmp : ∀ name ∈ o.hosts, d'.disk.links (o.tmp name) ≠ some file)
    (hcontent : d'.disk.content file = d.disk.content file) :
    Holds o d' file offset got eof where
  exists_file := Nat.lt_of_lt_of_le h.exists_file hfresh
  not_tmp := htmp
  offset_le := by
    rw [hcontent]
    exact h.offset_le
  got_eq := by
    rw [hcontent]
    exact h.got_eq
  whole := by
    rw [hcontent]
    exact h.whole

namespace Depot

/-- What every call preserves. -/
structure Inv (o : Outputs) (d : Depot) : Prop where
  unshared : ∀ p q n, d.disk.links p = some n → d.disk.links q = some n → p = q
  held : ∀ r file offset got eof, d.readers r = some (.reading file offset got eof) →
    Holds o d file offset got eof
  granted : ∀ r, d.readers r ≠ some .denied
  modes : ∀ name ∈ o.hosts, ∀ n, d.disk.links (o.path name) = some n → d.readable n = true
  sound : d.writer.Sound o d

/-- The files as their readers see them. -/
def board (o : Outputs) (d : Depot) : Board where
  latest := fun name => if name ∈ o.hosts then d.disk.read (o.path name) else none
  readers := fun r => (d.readers r).map fun
    | .missing => .missing
    | .denied => .denied
    | .reading file _ got eof => .given (d.disk.content file) got eof

/-- What a call shows on the board. -/
def shows (d : Depot) : Call → Option Notice
  | .replace true =>
      match d.writer with
      | .replacing name payload _ => some (.deliver name payload)
      | _ => none
  | .cat r name => some (.cat r name)
  | .read r n => some (.read r n)
  | .exit r => some (.exit r)
  | _ => none

section Frames

variable {o : Outputs} {d d' : Depot}

/-- A change that no path of a host and no reader notices leaves the board alone. -/
theorem board_eq (hreaders : d'.readers = d.readers)
    (hlinks : ∀ name ∈ o.hosts, d'.disk.links (o.path name) = d.disk.links (o.path name))
    (hlinked : ∀ name ∈ o.hosts, ∀ n, d.disk.links (o.path name) = some n →
      d'.disk.content n = d.disk.content n)
    (hheld : ∀ r file offset got eof, d.readers r = some (.reading file offset got eof) →
      d'.disk.content file = d.disk.content file) :
    d'.board o = d.board o := by
  simp only [board, Board.mk.injEq]
  constructor
  · funext name
    by_cases hname : name ∈ o.hosts
    · rw [if_pos hname, if_pos hname, Disk.read, Disk.read, hlinks name hname]
      cases hlink : d.disk.links (o.path name) with
      | none => rfl
      | some n => exact congrArg some (hlinked name hname n hlink)
    · rw [if_neg hname, if_neg hname]
  · funext r
    rw [hreaders]
    cases hr : d.readers r with
    | none => rfl
    | some c =>
        cases c with
        | missing => rfl
        | denied => rfl
        | reading file offset got eof =>
            simp only [Option.map_some, hheld r file offset got eof hr]

/-- Moving the writer. -/
theorem Inv.goto (h : Inv o d) {w : Writer} (hw : w.Sound o d) : Inv o (d.goto w) where
  unshared := h.unshared
  held := fun r file offset got eof hr =>
    (h.held r file offset got eof hr).of_content (Nat.le_refl _)
      (h.held r file offset got eof hr).not_tmp rfl
  granted := h.granted
  modes := h.modes
  sound := by
    cases w <;> exact hw

/-- A new output goes to a file that nobody reads. -/
theorem Inv.openTmp (h : Inv o d) {name payload : Text} {todo : List Text}
    (hw : d.writer = .opening name payload todo) (umask : Bool) :
    let opened := d.disk.openWrite (o.tmp name)
    let opening := { d with disk := opened.2 }.goto (.writing name payload opened.1 0 payload todo)
    let d' := if d.disk.links (o.tmp name) = none then opening.setMode opened.1 umask else opening
    Inv o d' ∧ d'.board o = d.board o := by
  intro opened opening d'
  have hsound := h.sound
  rw [hw] at hsound
  have hspec := d.disk.openWrite_spec (o.tmp name)
  have hfirst : opened.1 = (d.disk.links (o.tmp name)).getD d.disk.fresh :=
    d.disk.openWrite_fst (o.tmp name)
  have hdisk : d'.disk = opened.2 := by
    simp only [d']
    split <;> rfl
  have hreaders : d'.readers = d.readers := by
    simp only [d']
    split <;> rfl
  have hwriter : d'.writer = .writing name payload opened.1 0 payload todo := by
    simp only [d']
    split <;> rfl
  -- the file is the one that was left under the temporary name, or a new one
  have hother : ∀ p n, p ≠ o.tmp name → d.disk.links p = some n → n ≠ opened.1 := by
    intro p n hp hn heq
    cases htmp : d.disk.links (o.tmp name) with
    | none =>
        rw [htmp, Option.getD_none] at hfirst
        exact absurd (d.disk.linked p n hn) (by omega)
    | some m =>
        rw [htmp, Option.getD_some] at hfirst
        exact hp (h.unshared p (o.tmp name) n hn (by rw [htmp, heq, hfirst]))
  have hunheld : ∀ r file offset got eof, d.readers r = some (.reading file offset got eof) →
      file ≠ opened.1 := by
    intro r file offset got eof hr heq
    have hold := h.held r file offset got eof hr
    cases htmp : d.disk.links (o.tmp name) with
    | none =>
        rw [htmp, Option.getD_none] at hfirst
        exact absurd hold.exists_file (by omega)
    | some m =>
        rw [htmp, Option.getD_some] at hfirst
        exact hold.not_tmp name hsound.1.1 (by rw [htmp, heq, hfirst])
  have hlinks : ∀ p, p ≠ o.tmp name → d'.disk.links p = d.disk.links p := by
    intro p hp
    rw [hdisk]
    exact d.disk.links_openWrite_of_ne hp
  have hcontent : ∀ n, n ≠ opened.1 → d'.disk.content n = d.disk.content n := by
    intro n hn
    rw [hdisk]
    exact d.disk.content_openWrite_of_ne hn
  have htmp : d'.disk.links (o.tmp name) = some opened.1 := by
    rw [hdisk]
    exact hspec.1
  refine ⟨⟨?_, ?_, ?_, ?_, ?_⟩, ?_⟩
  · intro p q n hp hq
    by_cases hp' : p = o.tmp name
    · by_cases hq' : q = o.tmp name
      · rw [hp', hq']
      · rw [hp', htmp] at hp
        rw [hlinks q hq'] at hq
        exact absurd (Option.some.inj hp).symm (hother q n hq' hq)
    · by_cases hq' : q = o.tmp name
      · rw [hq', htmp] at hq
        rw [hlinks p hp'] at hp
        exact absurd (Option.some.inj hq).symm (hother p n hp' hp)
      · rw [hlinks p hp'] at hp
        rw [hlinks q hq'] at hq
        exact h.unshared p q n hp hq
  · intro r file offset got eof hr
    rw [hreaders] at hr
    have hne := hunheld r file offset got eof hr
    refine (h.held r file offset got eof hr).of_content ?_ ?_ (hcontent file hne)
    · rw [hdisk]
      exact d.disk.fresh_le_openWrite (o.tmp name)
    · intro name' hname' hlink
      by_cases heq : o.tmp name' = o.tmp name
      · rw [heq, htmp] at hlink
        exact hne (Option.some.inj hlink).symm
      · rw [hlinks _ heq] at hlink
        exact (h.held r file offset got eof hr).not_tmp name' hname' hlink
  · rw [hreaders]
    exact h.granted
  · intro name' hname' n hlink
    have hne := Outputs.path_ne_tmp hname' name
    rw [hlinks _ hne] at hlink
    have hmode := h.modes name' hname' n hlink
    simp only [d']
    split
    · simp only [setMode]
      rw [if_neg (hother _ n hne hlink)]
      exact hmode
    · exact hmode
  · rw [hwriter]
    refine ⟨hsound, htmp, ?_, ?_⟩
    · rw [hdisk, hspec.2]
      rfl
    · rw [hdisk, hspec.2]
      rfl
  · apply board_eq hreaders
    · exact fun name' hname' => hlinks _ (Outputs.path_ne_tmp hname' name)
    · exact fun name' hname' n hlink =>
        hcontent n (hother _ n (Outputs.path_ne_tmp hname' name) hlink)
    · exact fun r file offset got eof hr => hcontent file (hunheld r file offset got eof hr)

/-- A part of an output is appended to a file that nobody reads. -/
theorem Inv.write (h : Inv o d) {name payload rest : Text} {file offset : Nat} {c : Char}
    {todo : List Text} (hw : d.writer = .writing name payload file offset (c :: rest) todo)
    (n : Nat) :
    let chunk := (c :: rest).take (n + 1)
    let d' := { d with disk := d.disk.write file offset chunk }.goto
      (.writing name payload file (offset + chunk.length) ((c :: rest).drop (n + 1)) todo)
    Inv o d' ∧ d'.board o = d.board o := by
  intro chunk d'
  have hsound := h.sound
  rw [hw] at hsound
  rcases hsound with ⟨hplace, htmp, hoffset, hpayload⟩
  have hcontent : ∀ m, m ≠ file → d'.disk.content m = d.disk.content m :=
    fun m hm => Disk.content_put_of_ne _ _ hm
  have hfile : d'.disk.content file = d.disk.content file ++ chunk := by
    change (d.disk.write file offset chunk).content file = _
    rw [Disk.write, Disk.content_put, hoffset, overwrite_end]
  have hunheld : ∀ r m offset got eof, d.readers r = some (.reading m offset got eof) →
      m ≠ file := by
    rintro r m _ _ _ hr rfl
    exact (h.held r _ _ _ _ hr).not_tmp name hplace.1.1 htmp
  have hunlinked : ∀ name' ∈ o.hosts, ∀ m, d.disk.links (o.path name') = some m → m ≠ file := by
    rintro name' hname' m hlink rfl
    exact Outputs.path_ne_tmp hname' name (h.unshared _ _ _ hlink htmp)
  refine ⟨⟨h.unshared, ?_, h.granted, h.modes, ?_⟩, ?_⟩
  · intro r m offset got eof hr
    exact (h.held r m offset got eof hr).of_content (Nat.le_refl _)
      (h.held r m offset got eof hr).not_tmp (hcontent m (hunheld r m offset got eof hr))
  · refine ⟨hplace, htmp, ?_, ?_⟩
    · rw [hfile, List.length_append, hoffset]
    · rw [hfile, List.append_assoc, List.take_append_drop]
      exact hpayload
  · have hreaders : d'.readers = d.readers := rfl
    apply board_eq hreaders
    · exact fun _ _ => rfl
    · exact fun name' hname' m hlink => hcontent m (hunlinked name' hname' m hlink)
    · exact fun r m offset got eof hr => hcontent m (hunheld r m offset got eof hr)

/-- The renamed file is on the board. -/
theorem Inv.replace (h : Inv o d) {name payload : Text} {todo : List Text}
    (hw : d.writer = .replacing name payload todo) :
    let moved := d.disk.rename (o.tmp name) (o.path name)
    let d' := { d with disk := moved.getD d.disk }.goto (.fetching todo)
    Inv o d' ∧ Board.step o (d.board o) (.deliver name payload) = some (d'.board o) := by
  intro moved d'
  have hsound := h.sound
  rw [hw] at hsound
  rcases hsound with ⟨⟨⟨hname, hpayload⟩, htodo⟩, file, htmp, hfile, hmode⟩
  obtain ⟨disk, hmoved, hcontent, hfresh, hlinks⟩ : ∃ disk,
      d.disk.rename (o.tmp name) (o.path name) = some disk ∧ _ := Disk.rename_eq htmp
  have hdisk : d'.disk = disk := by
    change moved.getD d.disk = disk
    simp only [moved, hmoved, Option.getD_some]
  have hne := Outputs.path_ne_tmp hname name
  -- every other link stays, and the file has a new one
  have hkept : ∀ p n, disk.links p = some n →
      (p = o.path name ∧ n = file) ∨ (p ≠ o.path name ∧ d.disk.links p = some n ∧ n ≠ file) := by
    intro p n hp
    rw [hlinks] at hp
    by_cases hsrc : p = o.tmp name
    · rw [if_pos hsrc] at hp
      cases hp
    · rw [if_neg hsrc] at hp
      by_cases hdst : p = o.path name
      · rw [if_pos hdst] at hp
        exact Or.inl ⟨hdst, (Option.some.inj hp).symm⟩
      · rw [if_neg hdst] at hp
        refine Or.inr ⟨hdst, hp, ?_⟩
        rintro rfl
        exact hsrc (h.unshared _ _ _ hp htmp)
  refine ⟨⟨?_, ?_, h.granted, ?_, htodo⟩, ?_⟩
  · intro p q n hp hq
    rw [hdisk] at hp hq
    rcases hkept p n hp with ⟨rfl, rfl⟩ | ⟨-, hp, hn⟩
    · rcases hkept q _ hq with ⟨rfl, -⟩ | ⟨-, -, hn⟩
      · rfl
      · exact absurd rfl hn
    · rcases hkept q n hq with ⟨-, rfl⟩ | ⟨-, hq, -⟩
      · exact absurd rfl hn
      · exact h.unshared p q n hp hq
  · intro r m offset got eof hr
    refine (h.held r m offset got eof hr).of_content ?_ ?_ ?_
    · rw [hdisk, hfresh]
    · intro name' hname' hlink
      rw [hdisk] at hlink
      rcases hkept _ m hlink with ⟨heq, -⟩ | ⟨-, hlink, -⟩
      · exact Outputs.path_ne_tmp hname name' heq.symm
      · exact (h.held r m offset got eof hr).not_tmp name' hname' hlink
    · rw [hdisk, hcontent]
  · intro name' hname' n hlink
    rw [hdisk] at hlink
    rcases hkept _ n hlink with ⟨-, rfl⟩ | ⟨-, hlink, -⟩
    · exact hmode
    · exact h.modes name' hname' n hlink
  · rw [Board.step, if_pos ⟨hname, hpayload⟩]
    simp only [board, Option.some.injEq, Board.mk.injEq]
    constructor
    · funext n
      by_cases heq : n = name
      · subst heq
        rw [if_pos rfl, if_pos hname, Disk.read, hdisk, hlinks, if_neg hne, if_pos rfl, hcontent,
          Option.map_some, hfile]
      · rw [if_neg heq]
        by_cases hn : n ∈ o.hosts
        · rw [if_pos hn, if_pos hn, Disk.read, Disk.read, hdisk, hlinks,
            if_neg (Outputs.path_ne_tmp hn name),
            if_neg (fun hpath => heq (Outputs.path_inj hn hname hpath)), hcontent]
        · rw [if_neg hn, if_neg hn]
    · funext r
      rw [hdisk, hcontent]
      rfl

/-- What a `cat` finds is what it is given on the board. -/
theorem Inv.cat (h : Inv o d) {name : Text} {r : Nat} (hname : name ∈ o.hosts)
    (hr : d.readers r = none) :
    Inv o (d.setReader r (d.look o name)) ∧
      Board.step o (d.board o) (.cat r name) = some ((d.setReader r (d.look o name)).board o) := by
  have hlook : (d.look o name = .missing ∧ d.disk.links (o.path name) = none) ∨
      ∃ file, d.look o name = .reading file 0 [] false ∧ d.disk.links (o.path name) = some file := by
    cases hlink : d.disk.links (o.path name) with
    | none => exact Or.inl ⟨by rw [look, hlink], rfl⟩
    | some file =>
        have hmode := h.modes name hname file hlink
        exact Or.inr ⟨file, by rw [look, hlink]; simp [hmode], rfl⟩
  have hreaders : ∀ r' c, (d.setReader r (d.look o name)).readers r' = some c →
      c = d.look o name ∨ d.readers r' = some c := by
    intro r' c hc
    simp only [setReader] at hc
    split at hc
    · exact Or.inl (Option.some.inj hc).symm
    · exact Or.inr hc
  refine ⟨⟨h.unshared, ?_, ?_, h.modes, ?_⟩, ?_⟩
  · intro r' file offset got eof hc
    rcases hreaders r' _ hc with hc | hc
    · rcases hlook with ⟨hmissing, -⟩ | ⟨m, hreading, hlink⟩
      · rw [hmissing] at hc
        cases hc
      · rw [hreading] at hc
        cases hc
        refine ⟨d.disk.linked _ _ hlink, ?_, Nat.zero_le _, rfl, fun heof => nomatch heof⟩
        intro name' hname' htmp
        exact Outputs.path_ne_tmp hname name' (h.unshared _ _ _ hlink htmp)
    · exact ⟨(h.held r' file offset got eof hc).exists_file,
        (h.held r' file offset got eof hc).not_tmp, (h.held r' file offset got eof hc).offset_le,
        (h.held r' file offset got eof hc).got_eq, (h.held r' file offset got eof hc).whole⟩
  · intro r' hc
    rcases hreaders r' _ hc with hc | hc
    · rcases hlook with ⟨hmissing, -⟩ | ⟨m, hreading, -⟩
      · rw [hmissing] at hc
        cases hc
      · rw [hreading] at hc
        cases hc
    · exact h.granted r' hc
  · exact (h.goto h.sound).sound
  · have hnone : (d.board o).readers r = none := by
      simp only [board, hr, Option.map_none]
    rw [Board.step, if_pos ⟨hname, hnone⟩]
    congr 1
    simp only [Board.setReader, board, setReader, Board.mk.injEq, true_and]
    funext r'
    by_cases heq : r' = r
    · rw [if_pos heq, if_pos heq, if_pos hname, Disk.read]
      rcases hlook with ⟨hmissing, hlink⟩ | ⟨m, hreading, hlink⟩
      · rw [hmissing, hlink]
        rfl
      · rw [hreading, hlink]
        rfl
    · rw [if_neg heq, if_neg heq]

/-- The next piece of a file is the next piece of the output that the reader was given. -/
theorem Inv.read (h : Inv o d) {r n file offset : Nat} {got : Text}
    (hr : d.readers r = some (.reading file offset got false)) :
    let chunk := ((d.disk.content file).drop offset).take (n + 1)
    let d' := d.setReader r (some (.reading file (offset + chunk.length) (got ++ chunk)
      (chunk = [])))
    Inv o d' ∧ Board.step o (d.board o) (.read r n) = some (d'.board o) := by
  intro chunk d'
  have hold := h.held r file offset got false hr
  have hlength : got.length = offset := by
    rw [hold.got_eq, List.length_take, Nat.min_eq_left hold.offset_le]
  have hgot : got ++ chunk = (d.disk.content file).take (offset + (n + 1)) := by
    rw [hold.got_eq, List.take_add]
  have hend : chunk = [] ↔ got = d.disk.content file := by
    have hlt : chunk = [] ↔ (d.disk.content file).length ≤ offset := by
      simp only [chunk, List.take_eq_nil_iff, List.drop_eq_nil_iff, Nat.succ_ne_zero, false_or]
    rw [hlt]
    constructor
    · intro hle
      rw [hold.got_eq, List.take_of_length_le hle]
    · intro heq
      rw [← heq, hlength]
  refine ⟨⟨h.unshared, ?_, ?_, h.modes, (h.goto h.sound).sound⟩, ?_⟩
  · intro r' m offset' got' eof hc
    simp only [d', setReader] at hc
    split at hc
    · cases hc
      refine ⟨hold.exists_file, hold.not_tmp, ?_, ?_, ?_⟩
      · have hchunk : chunk.length ≤ (d.disk.content file).length - offset := by
          simp only [chunk, List.length_take, List.length_drop]
          omega
        have hle := hold.offset_le
        change offset + chunk.length ≤ (d.disk.content file).length
        omega
      · change got ++ chunk = (d.disk.content file).take (offset + chunk.length)
        rw [List.take_add, ← hold.got_eq]
        congr 1
        simp only [chunk, List.length_take, List.length_drop]
        rw [List.take_eq_take_iff, List.length_drop]
        omega
      · intro heof
        have hnil : chunk = [] := of_decide_eq_true heof
        rw [hnil, List.append_nil]
        exact hend.mp hnil
    · exact ⟨(h.held r' m offset' got' eof hc).exists_file,
        (h.held r' m offset' got' eof hc).not_tmp, (h.held r' m offset' got' eof hc).offset_le,
        (h.held r' m offset' got' eof hc).got_eq, (h.held r' m offset' got' eof hc).whole⟩
  · intro r' hc
    simp only [d', setReader] at hc
    split at hc
    · cases hc
    · exact h.granted r' hc
  · have hgiven : (d.board o).readers r = some (.given (d.disk.content file) got false) := by
      simp only [board, hr, Option.map_some]
    rw [Board.step, hgiven]
    refine congrArg some ?_
    simp only [Board.setReader, board, d', setReader, Board.mk.injEq, true_and]
    funext r'
    by_cases heq : r' = r
    · rw [if_pos heq, if_pos heq, Option.map_some, hlength, ← hgot]
      simp only [hend]
    · rw [if_neg heq, if_neg heq]

/-- A reader leaves. -/
theorem Inv.exit (h : Inv o d) (r : Nat) :
    Inv o (d.setReader r none) ∧
      Board.step o (d.board o) (.exit r) = some ((d.setReader r none).board o) := by
  have hreaders : ∀ r' c, (d.setReader r none).readers r' = some c → d.readers r' = some c := by
    intro r' c hc
    simp only [setReader] at hc
    split at hc
    · cases hc
    · exact hc
  refine ⟨⟨h.unshared, ?_, fun r' hc => h.granted r' (hreaders r' _ hc), h.modes,
    (h.goto h.sound).sound⟩, ?_⟩
  · intro r' file offset got eof hc
    have hold := h.held r' file offset got eof (hreaders r' _ hc)
    exact ⟨hold.exists_file, hold.not_tmp, hold.offset_le, hold.got_eq, hold.whole⟩
  · rw [Board.step]
    congr 1
    simp only [Board.setReader, board, setReader, Board.mk.injEq, true_and]
    funext r'
    by_cases heq : r' = r
    · rw [if_pos heq, if_pos heq]
      rfl
    · rw [if_neg heq, if_neg heq]

/-- A file becomes readable. -/
theorem Inv.chmod (h : Inv o d) {name payload : Text} {todo : List Text} {file : Nat}
    (hw : d.writer = .closed name payload todo) (hfile : d.disk.links (o.tmp name) = some file) :
    Inv o ((d.setMode file true).goto (.replacing name payload todo)) := by
  have hsound := h.sound
  rw [hw] at hsound
  rcases hsound with ⟨hplace, m, hlink, hcontent⟩
  rw [hfile] at hlink
  cases hlink
  refine ⟨h.unshared, ?_, h.granted, ?_, ?_⟩
  · intro r n offset got eof hr
    exact (h.held r n offset got eof hr).of_content (Nat.le_refl _)
      (h.held r n offset got eof hr).not_tmp rfl
  · intro name' hname' n hn
    change (if n = file then true else d.readable n) = true
    split
    · rfl
    · exact h.modes name' hname' n hn
  · exact ⟨hplace, file, hfile, hcontent, if_pos rfl⟩

end Frames

/-- The files, seen by their readers, are a board. -/
theorem simulates (o : Outputs) :
    Simulates (Graph (step o)) (Graph (Board.step o)) (Inv o) (board o) shows := by
  have hall : ∀ d call d', Inv o d → step o d call = some d' → Inv o d' ∧
      (shows d call = none → d'.board o = d.board o) ∧
        ∀ e, shows d call = some e → Board.step o (d.board o) e = some (d'.board o) := by
    intro d call d' h hstep
    -- a call that moves the writer only
    have hgoto : ∀ w : Writer, w.Sound o d → shows d call = none → d' = d.goto w →
        Inv o d' ∧ (shows d call = none → d'.board o = d.board o) ∧
          ∀ e, shows d call = some e → Board.step o (d.board o) e = some (d'.board o) := by
      rintro w hw hshows rfl
      refine ⟨h.goto hw, fun _ => rfl, fun e he => ?_⟩
      rw [hshows] at he
      cases he
    -- a call that changes files nobody reads
    have hsilent : ∀ d₁, shows d call = none → d₁ = d' → Inv o d₁ ∧ d₁.board o = d.board o →
        Inv o d' ∧ (shows d call = none → d'.board o = d.board o) ∧
          ∀ e, shows d call = some e → Board.step o (d.board o) e = some (d'.board o) := by
      rintro d₁ hshows rfl hd
      refine ⟨hd.1, fun _ => hd.2, fun e he => ?_⟩
      rw [hshows] at he
      cases he
    -- a call that shows on the board
    have hevent : ∀ e d₁, shows d call = some e → d₁ = d' →
        Inv o d₁ ∧ Board.step o (d.board o) e = some (d₁.board o) →
          Inv o d' ∧ (shows d call = none → d'.board o = d.board o) ∧
            ∀ e, shows d call = some e → Board.step o (d.board o) e = some (d'.board o) := by
      rintro e d₁ hshows rfl hd
      refine ⟨hd.1, fun hnone => ?_, fun e' he => ?_⟩
      · rw [hshows] at hnone
        cases hnone
      · rw [hshows] at he
        cases he
        exact hd.2
    have hsound := h.sound
    cases call with
    | wake made =>
        simp only [step] at hstep
        split at hstep
        · refine hgoto _ ?_ rfl (Option.some.inj hstep).symm
          cases made
          · trivial
          · exact List.Subset.refl o.hosts
        · cases hstep
    | fetch answer =>
        simp only [step] at hstep
        split at hstep
        · exact hgoto .ended trivial rfl (Option.some.inj hstep).symm
        · rename_i name todo payload hw
          rw [hw] at hsound
          have htodo : todo ⊆ o.hosts := fun n hn => hsound (List.mem_cons_of_mem name hn)
          refine hgoto _ ?_ rfl (Option.some.inj hstep).symm
          split
          · exact htodo
          · rename_i hne
            exact ⟨⟨hsound List.mem_cons_self, hne⟩, htodo⟩
        · cases hstep
    | openTmp ok umask =>
        simp only [step] at hstep
        split at hstep
        · rename_i name payload todo hw
          rw [hw] at hsound
          split at hstep
          · exact hsilent _ rfl (Option.some.inj hstep) (h.openTmp hw umask)
          · exact hgoto (.fetching todo) hsound.2 rfl (Option.some.inj hstep).symm
        · cases hstep
    | write n =>
        simp only [step] at hstep
        split at hstep
        · rename_i name payload file offset c rest todo hw
          exact hsilent _ rfl (Option.some.inj hstep) (h.write hw n)
        · cases hstep
    | close =>
        simp only [step] at hstep
        split at hstep
        · rename_i name payload file offset todo hw
          rw [hw] at hsound
          rcases hsound with ⟨hplace, htmp, -, hcontent⟩
          rw [List.append_nil] at hcontent
          exact hgoto (.closed name payload todo) ⟨hplace, file, htmp, hcontent⟩ rfl
            (Option.some.inj hstep).symm
        · cases hstep
    | fail =>
        simp only [step] at hstep
        split at hstep
        · rename_i name payload file offset rest todo hw
          rw [hw] at hsound
          exact hgoto (.fetching todo) hsound.1.2 rfl (Option.some.inj hstep).symm
        · cases hstep
    | chmod ok =>
        simp only [step] at hstep
        split at hstep
        · rename_i name payload todo hw
          split at hstep
          · rename_i file hfile
            exact hsilent _ rfl (Option.some.inj hstep) ⟨h.chmod hw hfile, rfl⟩
          · rw [hw] at hsound
            exact hgoto (.fetching todo) hsound.1.2 rfl (Option.some.inj hstep).symm
        · cases hstep
    | replace ok =>
        simp only [step] at hstep
        split at hstep
        · rename_i name payload todo hw
          cases ok with
          | false =>
              rw [hw] at hsound
              exact hgoto (.fetching todo) hsound.1.2 rfl (Option.some.inj hstep).symm
          | true =>
              refine hevent (.deliver name payload) _ ?_ (Option.some.inj hstep) (h.replace hw)
              simp only [shows, hw]
        · cases hstep
    | restart => exact hgoto (.fetching []) (List.nil_subset o.hosts) rfl (Option.some.inj hstep).symm
    | cat r name =>
        simp only [step] at hstep
        split at hstep
        · rename_i hcat
          exact hevent (.cat r name) _ rfl (Option.some.inj hstep) (h.cat hcat.1 hcat.2)
        · cases hstep
    | read r n =>
        simp only [step] at hstep
        split at hstep
        · rename_i file offset got hr
          exact hevent (.read r n) _ rfl (Option.some.inj hstep) (h.read hr)
        · cases hstep
    | exit r => exact hevent (.exit r) _ rfl (Option.some.inj hstep) (h.exit r)
  exact ⟨fun d call d' h hstep => (hall d call d' h hstep).1,
    fun d call d' h hstep => (hall d call d' h hstep).2.1,
    fun d call d' e h hstep => (hall d call d' h hstep).2.2 e⟩

end Depot

/-- What a reader has got is the beginning of what it was given. -/
theorem Board.Faithful.step {o : Outputs} {b b' : Board} {e : Notice} (h : b.Faithful)
    (hstep : Board.step o b e = some b') : b'.Faithful := by
  -- a changed reader is as it should be, and the others are unchanged
  have hset : ∀ r c, (∀ c', c = some c' → c' ≠ .denied ∧
      ∀ whole got eof, c' = .given whole got eof → got <+: whole ∧ (eof = true → got = whole)) →
        b.setReader r c = b' → b'.Faithful := by
    rintro r c hc rfl r' c' hr'
    simp only [setReader] at hr'
    split at hr'
    · exact hc c' hr'
    · exact h r' c' hr'
  cases e with
  | deliver name payload =>
      simp only [Board.step] at hstep
      split at hstep
      · rw [← Option.some.inj hstep]
        exact h
      · cases hstep
  | cat r name =>
      simp only [Board.step] at hstep
      split at hstep
      · refine hset r _ ?_ (Option.some.inj hstep)
        intro c hc
        rw [← Option.some.inj hc]
        split
        · exact ⟨by simp, by simp⟩
        · refine ⟨by simp, ?_⟩
          intro whole got eof heq
          cases heq
          exact ⟨List.nil_prefix, fun heof => absurd heof (by simp)⟩
      · cases hstep
  | read r n =>
      simp only [Board.step] at hstep
      split at hstep
      · refine hset r _ ?_ (Option.some.inj hstep)
        intro c hc
        rw [← Option.some.inj hc]
        refine ⟨by simp, ?_⟩
        intro whole got eof heq
        cases heq
        refine ⟨List.take_prefix _ _, fun heof => ?_⟩
        rw [of_decide_eq_true heof]
        exact List.take_of_length_le (Nat.le_add_right _ _)
      · cases hstep
  | exit r => exact hset r none (fun c hc => nomatch hc) (Option.some.inj hstep)

namespace Depot

/-- Files that a shell may start on: no two paths share one, and the site user may read the hosts'
files. -/
structure Clean (o : Outputs) (disk : Disk Text) (readable : Nat → Bool) : Prop where
  unshared : ∀ p q n, disk.links p = some n → disk.links q = some n → p = q
  modes : ∀ name ∈ o.hosts, ∀ n, disk.links (o.path name) = some n → readable n = true

theorem inv_boot {o : Outputs} {disk : Disk Text} {readable : Nat → Bool}
    (h : Clean o disk readable) : Inv o (boot disk readable) where
  unshared := h.unshared
  held := fun _ _ _ _ _ hr => nomatch hr
  granted := fun _ hr => nomatch hr
  modes := h.modes
  sound := List.nil_subset o.hosts

section Runs

variable {o : Outputs} {disk : Disk Text} {readable : Nat → Bool} {d s t : Depot}
  {calls : List Call}

/-- Every run is a run of the board: whatever fails and whenever the shell is killed, the latest
output of a host is put up and given to a reader whole, and no reader is turned away. -/
theorem refines_board (hclean : Clean o disk readable)
    (hrun : Run (Graph (step o)) (boot disk readable) calls d) :
    (∃ notices, Run (Graph (Board.step o)) ((boot disk readable).board o) notices (d.board o)) ∧
      (d.board o).Faithful := by
  have hinit : ((boot disk readable).board o).Faithful := fun _ _ hr => nomatch hr
  exact ⟨(simulates o).run hrun (inv_boot hclean),
    (simulates o).view (fun _ _ _ h hstep => h.step hstep) hrun (inv_boot hclean) hinit⟩

/-! ## A pass without failures -/

/-- The host that is asked answers with its output. -/
def Responds (answers : Text → Text) (answer : Option Text) : Writer → Prop
  | .fetching (name :: _) => answer = some (answers name)
  | _ => True

instance (answers : Text → Text) (answer : Option Text) :
    (w : Writer) → Decidable (Responds answers answer w)
  | .fetching (name :: _) => inferInstanceAs (Decidable (answer = some (answers name)))
  | .fetching [] | .opening .. | .writing .. | .closed .. | .replacing .. | .ended =>
      inferInstanceAs (Decidable True)

/-- No call of the pass fails, and the hosts answer with given outputs. -/
def Flawless (answers : Text → Text) (d : Depot) : Call → Prop
  | .wake _ | .fail | .restart => False
  | .fetch answer => Responds answers answer d.writer
  | .openTmp ok _ | .chmod ok | .replace ok => ok = true
  | _ => True

instance (answers : Text → Text) (d : Depot) : (call : Call) → Decidable (Flawless answers d call)
  | .wake _ | .fail | .restart => inferInstanceAs (Decidable False)
  | .fetch answer => inferInstanceAs (Decidable (Responds answers answer d.writer))
  | .openTmp ok _ | .chmod ok | .replace ok => inferInstanceAs (Decidable (ok = true))
  | .write _ | .close | .cat .. | .read .. | .exit _ => inferInstanceAs (Decidable True)

/-- What a call does to the latest outputs. -/
theorem latest_of_step (h : Inv o d) {call : Call} (hstep : step o d call = some s) :
    (s.board o).latest = match shows d call with
      | some (.deliver name payload) =>
          fun n => if n = name then some payload else (d.board o).latest n
      | _ => (d.board o).latest := by
  cases hshows : shows d call with
  | none => rw [(simulates o).silent d call s h hstep hshows]
  | some e =>
      have hboard : Board.step o (d.board o) e = some (s.board o) :=
        (simulates o).event d call s e h hstep hshows
      cases e with
      | deliver name payload =>
          simp only [Board.step] at hboard
          split at hboard
          · rw [← Option.some.inj hboard]
          · cases hboard
      | cat r name =>
          simp only [Board.step] at hboard
          split at hboard
          · rw [← Option.some.inj hboard]
            rfl
          · cases hboard
      | read r n =>
          simp only [Board.step] at hboard
          split at hboard
          · rw [← Option.some.inj hboard]
            rfl
          · cases hboard
      | exit r =>
          rw [← Option.some.inj hboard]
          rfl

end Runs

end Depot

/-- The hosts that a pass has not dealt with. -/
def Writer.todo : Writer → List Text
  | .fetching todo => todo
  | .opening name _ todo | .writing name _ _ _ _ todo | .closed name _ todo
  | .replacing name _ todo => name :: todo
  | .ended => []

/-- The output that is under way. -/
def Writer.output : Writer → Option (Text × Text)
  | .fetching _ | .ended => none
  | .opening name payload _ | .writing name payload _ _ _ _ | .closed name payload _
  | .replacing name payload _ => some (name, payload)

namespace Depot

section Pass

variable {o : Outputs} {disk : Disk Text} {readable : Nat → Bool} {answers : Text → Text}
  {before : Text → Option Text} {d s t : Depot} {calls ahead : List Call}

/-- Within a pass: the hosts that are done have their outputs, the others what they had. -/
structure Within (o : Outputs) (answers : Text → Text) (before : Text → Option Text)
    (d : Depot) : Prop where
  inv : Inv o d
  split : ∃ done, o.hosts = done ++ d.writer.todo ∧ ∀ name,
    (d.board o).latest name =
      if name ∈ done ∧ answers name ≠ [] then some (answers name) else before name
  output : ∀ name payload, d.writer.output = some (name, payload) →
    payload = answers name ∧ payload ≠ []

/-- A call that delivers nothing and deals with no host. -/
theorem Within.keep (h : Within o answers before d) (hs : Inv o s)
    (hlatest : (s.board o).latest = (d.board o).latest) (htodo : s.writer.todo = d.writer.todo)
    (houtput : s.writer.output = d.writer.output) : Within o answers before s where
  inv := hs
  split := by
    rw [htodo, hlatest]
    exact h.split
  output := by
    rw [houtput]
    exact h.output

/-- One call of a pass without failures. -/
theorem Within.step (h : Within o answers before d) {call : Call}
    (hstep : Meeting (Graph (step o)) (Flawless answers) d call s) :
    Within o answers before s := by
  rcases hstep with ⟨hstep, hflawless⟩
  have hs := (simulates o).keeps d call s h.inv hstep
  have hlatest := latest_of_step h.inv hstep
  change Depot.step o d call = some s at hstep
  have hsound := h.inv.sound
  cases call with
  | wake made => exact absurd hflawless id
  | fail => exact absurd hflawless id
  | restart => exact absurd hflawless id
  | fetch answer =>
      simp only [Depot.step] at hstep
      split at hstep
      · rename_i name todo hw
        rw [Flawless, hw] at hflawless
        cases hflawless
      · rename_i name todo payload hw
        rw [Flawless, hw] at hflawless
        have hpayload := Option.some.inj hflawless
        by_cases hempty : payload = []
        · -- the host is done, and keeps what it had
          rw [if_pos hempty] at hstep
          rw [← Option.some.inj hstep] at hs hlatest ⊢
          rcases h.split with ⟨done, hdone, hboard⟩
          rw [hw] at hdone
          refine ⟨hs, ⟨done ++ [name], ?_, fun n => ?_⟩, fun _ _ hout => nomatch hout⟩
          · rw [hdone, List.append_assoc]
            rfl
          · rw [hlatest]
            change (d.board o).latest n = _
            rw [hboard n]
            by_cases hn : n = name
            · have hnone : answers n = [] := by rw [hn, ← hpayload, hempty]
              rw [if_neg (fun hmem => hmem.2 hnone), if_neg (fun hmem => hmem.2 hnone)]
            · simp only [List.mem_append, List.mem_singleton, hn, or_false]
        · rw [if_neg hempty] at hstep
          rw [← Option.some.inj hstep] at hs hlatest ⊢
          refine ⟨hs, ?_, ?_⟩
          · rw [hlatest]
            rcases h.split with ⟨done, hdone, hboard⟩
            rw [hw] at hdone
            exact ⟨done, hdone, hboard⟩
          · intro name' payload' hout
            cases hout
            exact ⟨hpayload, hempty⟩
      · cases hstep
  | openTmp ok umask =>
      have hok : ok = true := hflawless
      simp only [Depot.step] at hstep
      split at hstep
      · rename_i name payload todo hw
        rw [if_pos hok] at hstep
        have hwriter : s.writer = .writing name payload (d.disk.openWrite (o.tmp name)).1 0 payload
            todo := by
          rw [← Option.some.inj hstep]
          split <;> rfl
        exact h.keep hs hlatest (by rw [hwriter, hw]; rfl) (by rw [hwriter, hw]; rfl)
      · cases hstep
  | write n =>
      simp only [Depot.step] at hstep
      split at hstep
      · rename_i hw
        rw [← Option.some.inj hstep] at hs hlatest ⊢
        exact h.keep hs hlatest (by rw [hw]; rfl) (by rw [hw]; rfl)
      · cases hstep
  | close =>
      simp only [Depot.step] at hstep
      split at hstep
      · rename_i hw
        rw [← Option.some.inj hstep] at hs hlatest ⊢
        exact h.keep hs hlatest (by rw [hw]; rfl) (by rw [hw]; rfl)
      · cases hstep
  | chmod ok =>
      have hok : ok = true := hflawless
      subst hok
      simp only [Depot.step] at hstep
      split at hstep
      · rename_i name payload todo hw
        rw [hw] at hsound
        rcases hsound with ⟨-, file, htmp, -⟩
        rw [htmp] at hstep
        rw [← Option.some.inj hstep] at hs hlatest ⊢
        exact h.keep hs hlatest (by rw [hw]; rfl) (by rw [hw]; rfl)
      · cases hstep
  | replace ok =>
      have hok : ok = true := hflawless
      subst hok
      simp only [Depot.step] at hstep
      split at hstep
      · rename_i name payload todo hw
        have hpayload := h.output name payload (by rw [hw]; rfl)
        simp only [shows, hw] at hlatest
        rw [← Option.some.inj hstep] at hs hlatest ⊢
        rcases h.split with ⟨done, hdone, hboard⟩
        rw [hw] at hdone
        refine ⟨hs, ⟨done ++ [name], ?_, fun n => ?_⟩, fun _ _ hout => nomatch hout⟩
        · rw [hdone, List.append_assoc]
          rfl
        · rw [hlatest]
          dsimp only
          by_cases hn : n = name
          · subst hn
            have hmem : n ∈ done ++ [n] ∧ answers n ≠ [] :=
              ⟨List.mem_append_right done List.mem_cons_self, hpayload.1 ▸ hpayload.2⟩
            rw [if_pos rfl, if_pos hmem, hpayload.1]
          · rw [if_neg hn, hboard n]
            simp only [List.mem_append, List.mem_singleton, hn, or_false]
      · cases hstep
  | cat r name =>
      simp only [Depot.step] at hstep
      split at hstep
      · rw [← Option.some.inj hstep] at hs hlatest ⊢
        exact h.keep hs hlatest rfl rfl
      · cases hstep
  | read r n =>
      simp only [Depot.step] at hstep
      split at hstep
      · rw [← Option.some.inj hstep] at hs hlatest ⊢
        exact h.keep hs hlatest rfl rfl
      · cases hstep
  | exit r =>
      rw [← Option.some.inj hstep] at hs hlatest ⊢
      exact h.keep hs hlatest rfl rfl

/-- A pass without failures puts up every output it has got, and keeps the last good one of a host
that sent nothing; it does so however the readers come in between, and whatever went wrong
before. -/
theorem delivers_of_pass (hclean : Clean o disk readable)
    (hrun : Run (Graph (Depot.step o)) (boot disk readable) ahead d)
    (hwake : Depot.step o d (.wake true) = some s)
    (hpass : Run (Meeting (Graph (Depot.step o)) (Flawless answers)) s calls t)
    (hend : t.writer = .fetching []) :
    ∀ name ∈ o.hosts, (t.board o).latest name =
      if answers name = [] then (d.board o).latest name else some (answers name) := by
  have hd := (simulates o).inv_of_run hrun (inv_boot hclean)
  have hs := (simulates o).keeps d _ s hd hwake
  have hstart : Within o answers (d.board o).latest s := by
    have hlatest := latest_of_step hd hwake
    simp only [Depot.step] at hwake
    split at hwake
    · rw [← Option.some.inj hwake] at hs hlatest ⊢
      refine ⟨hs, ⟨[], rfl, fun name => ?_⟩, fun _ _ hout => nomatch hout⟩
      rw [hlatest, if_neg (fun hmem => List.not_mem_nil hmem.1)]
      rfl
    · cases hwake
  have hwithin := hpass.invariant (fun _ _ _ h hstep => h.step hstep) hstart
  rcases hwithin.split with ⟨done, hdone, hboard⟩
  rw [hend, Writer.todo, List.append_nil] at hdone
  intro name hname
  rw [hboard name]
  by_cases hempty : answers name = []
  · rw [if_pos hempty, if_neg (fun hmem => hmem.2 hempty)]
  · rw [if_neg hempty, if_pos ⟨hdone ▸ hname, hempty⟩]

/-! ## A shell that is killed within a pass -/

theorem shown_demo : ∀ name ∈ ["gw".toList, "db".toList],
    name.head? ≠ some '/' ∧ name.head? ≠ some '.' := by
  decide

/-- A shell that carries one host. -/
def demoOutputs : Outputs where
  dir := "/out".toList
  deliveryHostname := "gw".toList
  children := ["db".toList]
  shown := shown_demo

/-- No files yet. -/
def noFiles : Disk Text where
  content := fun _ => []
  fresh := 0
  links := fun _ => none
  linked := fun _ _ h => nomatch h

theorem clean_noFiles : Clean demoOutputs noFiles fun _ => false where
  unshared := fun _ _ _ h => nomatch h
  modes := fun _ _ _ h => nomatch h

/-- The shell delivers its own section and is killed while it writes the output of the host, and a
reader has the section open meanwhile. -/
def killedCalls : List Call :=
  [.wake true, .fetch (some "up".toList), .cat 0 "gw".toList, .openTmp true false, .write 0,
    .write 0, .close, .chmod true, .replace true, .cat 1 "gw".toList, .read 1 0,
    .fetch (some "agent".toList), .openTmp true true, .write 2, .restart]

/-- The next pass, in which the host answers and the shell's own section is empty. -/
def passCalls : List Call :=
  [.fetch (some []), .fetch (some "agent".toList), .openTmp true true, .write 2, .read 1 7,
    .write 2, .close, .chmod true, .replace true]

theorem refines_board_killed : ∃ d,
    Run (Graph (Depot.step demoOutputs)) (boot noFiles fun _ => false)
        (killedCalls ++ [.read 1 7, .read 1 7]) d ∧
      (∃ notices, Run (Graph (Board.step demoOutputs))
        ((boot noFiles fun _ => false).board demoOutputs) notices (d.board demoOutputs)) ∧
      (d.board demoOutputs).Faithful := by
  have hsome : (execute (Depot.step demoOutputs) (boot noFiles fun _ => false)
      (killedCalls ++ [.read 1 7, .read 1 7])).isSome = true := by
    decide
  rcases Option.isSome_iff_exists.mp hsome with ⟨d, hd⟩
  exact ⟨d, run_of_execute hd, refines_board clean_noFiles (run_of_execute hd)⟩

/-- The outputs of the pass. -/
def demoAnswers (name : Text) : Text :=
  if name = "db".toList then "agent".toList else []

theorem delivers_of_pass_killed : ∃ d s t,
    Run (Graph (Depot.step demoOutputs)) (boot noFiles fun _ => false) killedCalls d ∧
      Depot.step demoOutputs d (.wake true) = some s ∧
      Run (Meeting (Graph (Depot.step demoOutputs)) (Flawless demoAnswers)) s passCalls t ∧
      t.writer = .fetching [] ∧ ∀ name ∈ demoOutputs.hosts, (t.board demoOutputs).latest name =
        if demoAnswers name = [] then (d.board demoOutputs).latest name
        else some (demoAnswers name) := by
  have hsome : ((execute (Depot.step demoOutputs) (boot noFiles fun _ => false)
      killedCalls).bind fun d => (Depot.step demoOutputs d (.wake true)).bind fun s =>
        (execute (guarded (Depot.step demoOutputs) (Flawless demoAnswers)) s passCalls).bind
          fun t => if t.writer = .fetching [] then some (d, s, t) else none).isSome = true := by
    decide
  rcases Option.isSome_iff_exists.mp hsome with ⟨⟨d, s, t⟩, hall⟩
  simp only [Option.bind_eq_some_iff, Option.ite_none_right_eq_some, Option.some.injEq,
    Prod.mk.injEq] at hall
  rcases hall with ⟨d, hd, s, hs, t, ht, hend, rfl, rfl, rfl⟩
  exact ⟨d, s, t, run_of_execute hd, hs, meeting_of_execute ht, hend,
    delivers_of_pass clean_noFiles (run_of_execute hd) hs (meeting_of_execute ht) hend⟩

end Pass

end Depot

end Delivery
end DemoEstate
