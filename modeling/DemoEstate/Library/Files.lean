import DemoEstate.Library.Text

/-!
# Files behind paths

Paths link to numbered files.  A writer keeps the number of the file it opened and its own
offset, so two writers that open one path share a file, and a file that is renamed away
under a writer keeps receiving its text.

Main results:

- Theorem {lit}`overwrite_end`: writing at the end appends.
- Theorem {lit}`Disk.read_rename`: a renamed file is read back under its new path.
-/

namespace Files

/-- Write at an offset: a gap is filled with NUL, what is there is overwritten. -/
def overwrite (old : Text) (offset : Nat) (text : Text) : Text :=
  old.take offset ++ List.replicate (offset - old.length) (Char.ofNat 0) ++ text ++
    old.drop (offset + text.length)

/-- Writing at the end appends. -/
theorem overwrite_end (old text : Text) : overwrite old old.length text = old ++ text := by
  rw [overwrite, List.take_length, Nat.sub_self, List.replicate_zero, List.append_nil,
    List.drop_eq_nil_of_le (Nat.le_add_right old.length text.length), List.append_nil]

/-- The files by number, the next unused number and what the paths link to. -/
structure Disk (Path : Type) where
  content : Nat → Text
  fresh : Nat
  links : Path → Option Nat
  linked : ∀ path n, links path = some n → n < fresh

namespace Disk

variable {Path : Type}

/-- What a path reads; a path may link to nothing. -/
def read (d : Disk Path) (path : Path) : Option Text :=
  (d.links path).map d.content

/-- Replace the content of one file. -/
def put (d : Disk Path) (n : Nat) (text : Text) : Disk Path where
  content := fun m => if m = n then text else d.content m
  fresh := d.fresh
  links := d.links
  linked := d.linked

@[simp]
theorem content_put (d : Disk Path) (n : Nat) (text : Text) : (d.put n text).content n = text :=
  if_pos rfl

theorem content_put_of_ne (d : Disk Path) {m n : Nat} (text : Text) (h : m ≠ n) :
    (d.put n text).content m = d.content m :=
  if_neg h

variable [DecidableEq Path]

/-- Link a path to a file that exists. -/
def link (d : Disk Path) (path : Path) (n : Nat) (hn : n < d.fresh) : Disk Path where
  content := d.content
  fresh := d.fresh
  links := fun p => if p = path then some n else d.links p
  linked := by
    intro p m hm
    split at hm
    · cases hm
      exact hn
    · exact d.linked p m hm

/-- Open a path for writing: its file is truncated, or a new one is created. -/
def openWrite (d : Disk Path) (path : Path) : Nat × Disk Path :=
  match d.links path with
  | some n => (n, d.put n [])
  | none =>
      (d.fresh, ({ d with
        fresh := d.fresh + 1
        linked := fun p m hm => Nat.lt_succ_of_lt (d.linked p m hm) }.link path d.fresh
          (Nat.lt_succ_self d.fresh)).put d.fresh [])

/-- Write to an open file at an offset. -/
def write (d : Disk Path) (n offset : Nat) (text : Text) : Disk Path :=
  d.put n (overwrite (d.content n) offset text)

/-- Rename a path over another one; this fails when it links to nothing. -/
def rename (d : Disk Path) (src dst : Path) : Option (Disk Path) :=
  match h : d.links src with
  | none => none
  | some n =>
      let moved := d.link dst n (d.linked src n h)
      some { moved with
        links := fun p => if p = src then none else moved.links p
        linked := by
          intro p m hm
          split at hm
          · cases hm
          · exact moved.linked p m hm }

/-- A path opened for writing links to an empty file. -/
theorem openWrite_spec (d : Disk Path) (path : Path) :
    (d.openWrite path).2.links path = some (d.openWrite path).1 ∧
      (d.openWrite path).2.content (d.openWrite path).1 = [] := by
  unfold openWrite
  split
  · exact ⟨‹_›, content_put d _ []⟩
  · exact ⟨if_pos rfl, content_put _ _ []⟩

/-- Opening a path for writing changes no other link. -/
theorem links_openWrite_of_ne (d : Disk Path) {p path : Path} (h : p ≠ path) :
    (d.openWrite path).2.links p = d.links p := by
  unfold openWrite
  split
  · rfl
  · exact if_neg h

/-- Opening a path for writing changes no other file. -/
theorem content_openWrite_of_ne (d : Disk Path) {path : Path} {n : Nat}
    (h : n ≠ (d.openWrite path).1) : (d.openWrite path).2.content n = d.content n := by
  unfold openWrite at h ⊢
  split at h
  · exact content_put_of_ne d [] h
  · exact content_put_of_ne _ [] h

/-- A path opened for writing links to its file, or to a new one. -/
theorem openWrite_fst (d : Disk Path) (path : Path) :
    (d.openWrite path).1 = (d.links path).getD d.fresh := by
  unfold openWrite
  split
  · rename_i n hlink
    rw [hlink]
    rfl
  · rename_i hlink
    rw [hlink]
    rfl

theorem fresh_le_openWrite (d : Disk Path) (path : Path) :
    d.fresh ≤ (d.openWrite path).2.fresh := by
  unfold openWrite
  split
  · exact Nat.le_refl d.fresh
  · exact Nat.le_succ d.fresh

/-- What a rename does: it moves one link. -/
theorem rename_eq {d : Disk Path} {src dst : Path} {n : Nat} (h : d.links src = some n) :
    ∃ d', d.rename src dst = some d' ∧ d'.content = d.content ∧ d'.fresh = d.fresh ∧
      ∀ p, d'.links p = if p = src then none else if p = dst then some n else d.links p := by
  unfold rename
  split
  case h_1 hnone =>
    rw [h] at hnone
    cases hnone
  case h_2 m hm =>
    rw [h] at hm
    cases hm
    exact ⟨_, rfl, rfl, rfl, fun p => rfl⟩

/-- A renamed file is read back under its new path. -/
theorem read_rename {d : Disk Path} {src dst : Path} (hne : dst ≠ src) {n : Nat}
    (h : d.links src = some n) :
    ∃ d', d.rename src dst = some d' ∧ d'.read dst = some (d.content n) := by
  unfold rename
  split
  case h_1 hnone =>
    rw [h] at hnone
    cases hnone
  case h_2 m hm =>
    rw [h] at hm
    cases hm
    refine ⟨_, rfl, ?_⟩
    simp [read, link, hne]

end Disk

end Files
