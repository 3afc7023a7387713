import DemoEstate.Library.Tokens
import Mathlib.Data.List.DropRight

/-!
# Following a part of a text through replacements

What a replacement does to one part of a text: it keeps the part, or writes another text over a
token that has the part in it.  And where a part of the replaced text comes from: it was there
before, or it reaches into a text that was put in.

Main definitions:

- Definition {lit}`edits`: the characters that are kept and the tokens that are written over.
- Definitions {lit}`Keeps` and {lit}`Overwrites`: what becomes of a part and of its surroundings.
- Definition {lit}`Touches`: a part of the replaced text that reaches into a text put in.
- Definitions {lit}`KeepsAll` and {lit}`Emerges`: the same through several replacements in turn.
- Structure {lit}`RunToken`: the tokens are whole runs of characters of one class.

Main results:

- Theorem {lit}`flatMap_text_edits`: the edits make up the replaced text.
- Theorem {lit}`text_eq_replaceAll_iff`: a part of a text after several replacements has been kept,
  or it emerges from one of them.
- Theorem {lit}`RunToken.overwrites_iff`: a part of a run is written over if the run is a token.
-/

namespace Tokens

/-! ## Edits -/

/-- A character that is kept, or a token with the text written over it. -/
inductive Edit where
  | kept (c : Char)
  | put (old new : Text)
deriving DecidableEq

/-- What stood there before. -/
def Edit.source : Edit → Text
  | .kept c => [c]
  | .put old _ => old

/-- What stands there now. -/
def Edit.text : Edit → Text
  | .kept c => [c]
  | .put _ new => new

/-- The edits of a replacement, behind the first `skip` characters. -/
def edits (token : Token) (write : Text → Text) : Option Char → Nat → Text → List Edit
  | _, _, [] => []
  | _, skip + 1, c :: rest => edits token write (some c) skip rest
  | last, 0, c :: rest =>
      match token last (c :: rest) with
      | some (n + 1) =>
          .put ((c :: rest).take (n + 1)) (write ((c :: rest).take (n + 1))) ::
            edits token write (some c) n rest
      | _ => .kept c :: edits token write (some c) 0 rest

section Edits

variable {token : Token} {write : Text → Text}

theorem edits_of_token {last : Option Char} {c : Char} {rest : Text} {n : Nat}
    (h : token last (c :: rest) = some (n + 1)) :
    edits token write last 0 (c :: rest) =
      .put ((c :: rest).take (n + 1)) (write ((c :: rest).take (n + 1))) ::
        edits token write (some c) n rest := by
  rw [edits, h]

theorem edits_of_none {last : Option Char} {c : Char} {rest : Text}
    (h : ∀ n, token last (c :: rest) ≠ some (n + 1)) :
    edits token write last 0 (c :: rest) = .kept c :: edits token write (some c) 0 rest := by
  rw [edits]
  split
  · rename_i n htoken
    exact absurd htoken (h n)
  · rfl

/-- The edits make up the replaced text. -/
theorem flatMap_text_edits (last : Option Char) (skip : Nat) (s : Text) :
    (edits token write last skip s).flatMap Edit.text =
      (scan token write last skip s).flatMap Piece.text := by
  fun_induction edits token write last skip s with
  | case1 => rfl
  | case2 last skip c rest ih => exact ih
  | case3 last c rest n htoken ih =>
      rw [scan, htoken, List.flatMap_cons, ih]
      rfl
  | case4 last c rest hnone ih =>
      rw [scan]
      split
      · rename_i n htoken
        exact absurd htoken (hnone n)
      · rw [List.flatMap_cons, ih]
        rfl

/-- The edits are of the whole text. -/
theorem flatMap_source_edits (last : Option Char) (skip : Nat) (s : Text) :
    (edits token write last skip s).flatMap Edit.source = s.drop skip := by
  fun_induction edits token write last skip s with
  | case1 => simp
  | case2 last skip c rest ih => rw [ih, List.drop_succ_cons]
  | case3 last c rest n htoken ih =>
      rw [List.flatMap_cons, ih, Edit.source, List.take_succ_cons, List.cons_append,
        List.take_append_drop, List.drop_zero]
  | case4 last c rest hnone ih =>
      rw [List.flatMap_cons, ih]
      rfl

/-- Behind the first edits come those of the rest of the text. -/
theorem edits_eq_append {last : Option Char} {skip : Nat} {s : Text} {es es' : List Edit}
    (h : edits token write last skip s = es ++ es') :
    es' = edits token write (lastOf last (s.take skip ++ es.flatMap Edit.source)) 0
      (es'.flatMap Edit.source) := by
  fun_induction edits token write last skip s generalizing es with
  | case1 last skip =>
      obtain ⟨rfl, rfl⟩ := List.append_eq_nil_iff.mp h.symm
      rfl
  | case2 last skip c rest ih =>
      rw [List.take_succ_cons, List.cons_append, lastOf_cons]
      exact ih h
  | case3 last c rest n htoken ih =>
      cases es with
      | nil =>
          rw [List.nil_append, ← edits_of_token htoken] at h
          rw [← h, flatMap_source_edits]
          rfl
      | cons e es =>
          obtain ⟨rfl, htail⟩ := List.cons.inj h
          rw [ih htail, List.take_zero, List.nil_append, List.flatMap_cons, Edit.source,
            List.take_succ_cons, List.cons_append, lastOf_cons, flatMap_source_edits,
            List.drop_zero]
  | case4 last c rest hnone ih =>
      cases es with
      | nil =>
          rw [List.nil_append, ← edits_of_none hnone] at h
          rw [← h, flatMap_source_edits]
          rfl
      | cons e es =>
          obtain ⟨rfl, htail⟩ := List.cons.inj h
          have := ih htail
          simp only [List.take_zero, List.nil_append, List.flatMap_cons, Edit.source,
            List.singleton_append, lastOf_cons] at this ⊢
          exact this

/-- Edits behind skipped characters. -/
theorem edits_skip (last : Option Char) (skip : Nat) (s : Text) :
    edits token write last skip s =
      edits token write (lastOf last (s.take skip)) 0 (s.drop skip) := by
  have h := edits_eq_append (List.nil_append (edits token write last skip s)).symm
  rwa [List.flatMap_nil, List.append_nil, flatMap_source_edits] at h

/-- A text is written over a token. -/
theorem token_of_edits {s : Text} {es es' : List Edit} {old new : Text}
    (h : edits token write none 0 s = es ++ .put old new :: es') :
    ∃ n, token (lastOf none (es.flatMap Edit.source)) (old ++ es'.flatMap Edit.source) =
        some (n + 1) ∧ old = (old ++ es'.flatMap Edit.source).take (n + 1) ∧ new = write old := by
  have hrest := edits_eq_append h
  rw [List.take_zero, List.nil_append, List.flatMap_cons, Edit.source] at hrest
  generalize old ++ es'.flatMap Edit.source = u at hrest ⊢
  cases u with
  | nil => cases hrest
  | cons c rest =>
      rw [edits] at hrest
      split at hrest
      · rename_i n htoken
        obtain ⟨hedit, -⟩ := List.cons.inj hrest
        cases hedit
        exact ⟨n, htoken, rfl, rfl⟩
      · cases hrest

/-- Where nothing is put in, every character is kept. -/
theorem edits_eq_kept {s : Text} (h : puts token write s = []) :
    edits token write none 0 s = s.map .kept := by
  have hscan : ∀ last s, (∀ r, .put r ∉ scan token write last 0 s) →
      edits token write last 0 s = s.map .kept := by
    intro last s
    induction s generalizing last with
    | nil => exact fun _ => rfl
    | cons c s ih =>
        intro hnone
        rw [scan] at hnone
        split at hnone
        · exact absurd List.mem_cons_self (hnone _)
        · rename_i hplace
          rw [edits_of_none hplace, ih (some c) fun r hr => hnone r (List.mem_cons_of_mem _ hr),
            List.map_cons]
  apply hscan
  intro r hr
  rw [← mem_puts, h] at hr
  exact List.not_mem_nil hr

end Edits

/-! ## Parts of a text -/

/-- A part of a text, with what stands before and behind it. -/
@[ext]
structure Spot where
  before : Text
  part : Text
  behind : Text

def Spot.text (p : Spot) : Text :=
  p.before ++ (p.part ++ p.behind)

/-- A part within another one that is no longer is that one. -/
theorem Spot.eq_of_length {q r : Spot} (htext : r.text = q.text) (hbefore : q.before <+: r.before)
    (hbehind : q.behind <:+ r.behind) (hlength : q.part.length ≤ r.part.length) : r = q := by
  have hall := congrArg List.length htext
  simp only [Spot.text, List.length_append] at hall
  have hfirst := hbefore.length_le
  have hlast := hbehind.length_le
  have hb : r.before = q.before := (hbefore.eq_of_length (by omega)).symm
  have he : r.behind = q.behind := (hbehind.eq_of_length (by omega)).symm
  rw [Spot.text, Spot.text, hb, he] at htext
  exact Spot.ext hb (List.append_cancel_right (List.append_cancel_left htext)) he

/-- A replacement keeps the part, between what becomes of its surroundings. -/
def Keeps (token : Token) (write : Text → Text) (p q : Spot) : Prop :=
  ∃ es es', edits token write none 0 p.text = es ++ (p.part.map .kept ++ es') ∧
    es.flatMap Edit.source = p.before ∧ es'.flatMap Edit.source = p.behind ∧
      q = ⟨es.flatMap Edit.text, p.part, es'.flatMap Edit.text⟩

/-- A replacement writes the new part over a token that has the part in it. -/
def Overwrites (token : Token) (write : Text → Text) (p q : Spot) : Prop :=
  ∃ es es' x y,
    edits token write none 0 p.text = es ++ .put (x ++ (p.part ++ y)) q.part :: es' ∧
      es.flatMap Edit.source ++ x = p.before ∧ y ++ es'.flatMap Edit.source = p.behind ∧
        q.before = es.flatMap Edit.text ∧ q.behind = es'.flatMap Edit.text

section Spots

variable {token : Token} {write : Text → Text} {p q : Spot}

theorem Keeps.part_eq (h : Keeps token write p q) : q.part = p.part := by
  obtain ⟨es, es', -, -, -, rfl⟩ := h
  rfl

theorem Keeps.text_eq (h : Keeps token write p q) : q.text = replace token write p.text := by
  obtain ⟨es, es', hedits, -, -, rfl⟩ := h
  have hpart : (p.part.map Edit.kept).flatMap Edit.text = p.part := by
    rw [List.flatMap_map]
    exact List.flatMap_singleton' p.part
  rw [replace, ← flatMap_text_edits, hedits, List.flatMap_append, List.flatMap_append, hpart]
  rfl

theorem Overwrites.text_eq (h : Overwrites token write p q) :
    q.text = replace token write p.text := by
  obtain ⟨es, es', x, y, hedits, -, -, hbefore, hbehind⟩ := h
  rw [replace, ← flatMap_text_edits, hedits, List.flatMap_append, List.flatMap_cons, Spot.text,
    hbefore, hbehind]
  rfl

/-- Where nothing is put in, a part stays where it is. -/
theorem keeps_iff_of_puts_eq_nil (h : puts token write p.text = []) :
    Keeps token write p q ↔ q = p := by
  have hedits := edits_eq_kept h
  have hsource : ∀ t : Text, (t.map Edit.kept).flatMap Edit.source = t := by
    intro t
    rw [List.flatMap_map]
    exact List.flatMap_singleton' t
  have htext : ∀ t : Text, (t.map Edit.kept).flatMap Edit.text = t := by
    intro t
    rw [List.flatMap_map]
    exact List.flatMap_singleton' t
  constructor
  · rintro ⟨es, es', hall, hbefore, hbehind, rfl⟩
    rw [hedits] at hall
    -- all edits are of kept characters
    obtain ⟨a, rest, -, ha, hrest⟩ := List.map_eq_append_iff.mp hall
    obtain ⟨w, b, -, -, hb⟩ := List.map_eq_append_iff.mp hrest
    rw [← ha, hsource] at hbefore
    rw [← hb, hsource] at hbehind
    rw [← ha, ← hb, htext, htext, hbefore, hbehind]
  · rintro rfl
    refine ⟨q.before.map .kept, q.behind.map .kept, ?_, hsource _, hsource _, ?_⟩
    · rw [hedits, Spot.text, List.map_append, List.map_append]
    · rw [htext, htext]

end Spots

/-! ## Where a part comes from -/

/-- A part of the replaced text reaches into a text that was put in, or across a token that was
taken out. -/
def Touches (token : Token) (write : Text → Text) (u : Text) (q : Spot) : Prop :=
  q.text = replace token write u ∧ ∃ es old new es',
    edits token write none 0 u = es ++ .put old new :: es' ∧
      (es.flatMap Edit.text).length < (q.before ++ q.part).length ∧
        q.before.length < (es.flatMap Edit.text ++ new).length

/-- A part of what edits make is made of kept characters, or reaches into a text put in. -/
def KeptOrPut (l : List Edit) (q : Spot) : Prop :=
  (∃ es es', l = es ++ (q.part.map .kept ++ es') ∧ es.flatMap Edit.text = q.before ∧
      es'.flatMap Edit.text = q.behind) ∨
    ∃ es old new es', l = es ++ .put old new :: es' ∧
      (es.flatMap Edit.text).length < (q.before ++ q.part).length ∧
        q.before.length < (es.flatMap Edit.text ++ new).length

section Origin

variable {token : Token} {write : Text → Text} {u word : Text} {p q : Spot}

/-- Behind a further edit, a part is as it was. -/
theorem KeptOrPut.cons {e : Edit} {l : List Edit} {before part behind : Text}
    (h : KeptOrPut l ⟨before, part, behind⟩) :
    KeptOrPut (e :: l) ⟨e.text ++ before, part, behind⟩ := by
  rcases h with ⟨es, es', rfl, rfl, rfl⟩ | ⟨es, old, new, es', rfl, hstart, hend⟩
  · exact Or.inl ⟨e :: es, es', rfl, rfl, rfl⟩
  · refine Or.inr ⟨e :: es, old, new, es', rfl, ?_, ?_⟩
    · simpa using hstart
    · simpa using hend

/-- One of the two holds of every part of what edits make. -/
theorem kept_or_put {l : List Edit} (hq : q.text = l.flatMap Edit.text) : KeptOrPut l q := by
  induction l generalizing q with
  | nil =>
      obtain ⟨before, part, behind⟩ := q
      simp only [Spot.text, List.flatMap_nil, List.append_eq_nil_iff] at hq
      obtain ⟨rfl, rfl, rfl⟩ := hq
      exact Or.inl ⟨[], [], rfl, rfl, rfl⟩
  | cons e l ih =>
      obtain ⟨before, part, behind⟩ := q
      rw [List.flatMap_cons] at hq
      cases e with
      | kept c =>
          cases before with
          | cons b before =>
              -- the part stands behind the character
              obtain ⟨rfl, hrest⟩ := List.cons.inj hq
              exact (ih (q := ⟨before, part, behind⟩) hrest).cons
          | nil =>
              cases part with
              | nil => exact Or.inl ⟨[], .kept c :: l, rfl, rfl, hq.symm⟩
              | cons b part =>
                  obtain ⟨rfl, hrest⟩ := List.cons.inj hq
                  by_cases hpart : part = []
                  · subst hpart
                    exact Or.inl ⟨[], l, rfl, rfl, hrest.symm⟩
                  rcases ih (q := ⟨[], part, behind⟩) hrest with
                    ⟨es, es', rfl, hnil, rfl⟩ | ⟨es, old, new, es', rfl, hstart, hend⟩
                  · cases es with
                    | nil => exact Or.inl ⟨[], es', rfl, rfl, rfl⟩
                    | cons e es =>
                        -- a token was taken out behind the character
                        cases e with
                        | kept d => simp [Edit.text] at hnil
                        | put old new =>
                            refine Or.inr ⟨[.kept b], old, new, _, rfl, ?_, ?_⟩
                            · simpa [Edit.text] using List.length_pos_iff.mpr hpart
                            · simp [Edit.text]
                  · refine Or.inr ⟨.kept b :: es, old, new, es', rfl, ?_, ?_⟩
                    · simpa [Edit.text] using hstart
                    · simp [Edit.text]
      | put old new =>
          by_cases hlong : new.length ≤ before.length
          · -- the part stands behind the text put in
            have hboth : before ++ (part ++ behind) = new ++ l.flatMap Edit.text := hq
            obtain ⟨before, rfl⟩ : new <+: before :=
              List.prefix_of_prefix_length_le (hboth ▸ List.prefix_append new _)
                (List.prefix_append before _) hlong
            have hrest : Spot.text ⟨before, part, behind⟩ = l.flatMap Edit.text := by
              rw [Spot.text, List.append_assoc] at hq
              exact List.append_cancel_left hq
            exact (ih hrest).cons
          · by_cases hempty : before ++ part = []
            · obtain ⟨rfl, rfl⟩ := List.append_eq_nil_iff.mp hempty
              exact Or.inl ⟨[], .put old new :: l, rfl, rfl, hq.symm⟩
            · exact Or.inr ⟨[], old, new, l, rfl, List.length_pos_iff.mpr hempty, not_le.mp hlong⟩

/-- A part of the replaced text has been kept, or it reaches into a text put in. -/
theorem text_eq_replace_iff :
    q.text = replace token write u ↔
      (∃ p, p.text = u ∧ Keeps token write p q) ∨ Touches token write u q := by
  constructor
  · intro h
    have hedits : q.text = (edits token write none 0 u).flatMap Edit.text := by
      rw [h, replace, ← flatMap_text_edits]
    rcases kept_or_put hedits with ⟨es, es', hall, hbefore, hbehind⟩ | htouches
    · have htext : Spot.text ⟨es.flatMap Edit.source, q.part, es'.flatMap Edit.source⟩ = u := by
        have hsource : (edits token write none 0 u).flatMap Edit.source = u :=
          flatMap_source_edits none 0 u
        rw [hall, List.flatMap_append, List.flatMap_append, List.flatMap_map] at hsource
        rw [Spot.text, ← hsource]
        congr 2
        exact (List.flatMap_singleton' q.part).symm
      refine Or.inl ⟨_, htext, es, es', ?_, rfl, rfl, ?_⟩
      · rw [htext, hall]
      · rw [hbefore, hbehind]
    · exact Or.inr ⟨h, htouches⟩
  · rintro (⟨p, rfl, hkeeps⟩ | htouches)
    · exact hkeeps.text_eq
    · exact htouches.1

/-- No replacement of a word keeps it. -/
theorem not_keeps_word {f : Char → Char} (hword : word ≠ []) (hpart : p.part.map f = word.map f) :
    ¬ Keeps (wordToken f word) write p q := by
  rintro ⟨es, es', hedits, -, hbehind, -⟩
  have hrest := edits_eq_append hedits
  have hsource : (p.part.map Edit.kept ++ es').flatMap Edit.source = p.part ++ p.behind := by
    rw [List.flatMap_append, List.flatMap_map, hbehind]
    congr 1
    exact List.flatMap_singleton' p.part
  rw [hsource] at hrest
  generalize lastOf none (p.text.take 0 ++ es.flatMap Edit.source) = last at hrest
  generalize p.part = part at hpart hrest
  cases part with
  | nil =>
      rw [List.map_nil, eq_comm, List.map_eq_nil_iff] at hpart
      exact hword hpart
  | cons c part =>
      obtain ⟨n, hn⟩ := Nat.exists_eq_add_one_of_ne_zero (mt List.length_eq_zero_iff.mp hword)
      have htoken : ∀ last, wordToken f word last (c :: (part ++ p.behind)) = some (n + 1) := by
        intro last
        rw [wordToken, if_pos, hn]
        rw [← hpart, ← List.cons_append, List.map_append]
        exact List.prefix_append _ _
      rw [List.cons_append, edits_of_token (htoken _)] at hrest
      cases hrest

end Origin

/-! ## Several replacements in turn -/

/-- A replacement: its tokens, and what is written over them. -/
abbrev Pass := Token × (Text → Text)

/-- A text after several replacements in turn. -/
def replaceAll (passes : List Pass) (u : Text) : Text :=
  passes.foldl (fun u pass => replace pass.1 pass.2 u) u

/-- Every replacement keeps the part, between what becomes of its surroundings. -/
def KeepsAll : List Pass → Spot → Spot → Prop
  | [], p, q => q = p
  | pass :: passes, p, q => ∃ m, Keeps pass.1 pass.2 p m ∧ KeepsAll passes m q

/-- One of the replacements brings the part about, and the ones behind it keep it. -/
def Emerges : List Pass → Text → Spot → Prop
  | [], _, _ => False
  | pass :: passes, u, q =>
      (∃ m, Touches pass.1 pass.2 u m ∧ KeepsAll passes m q) ∨
        Emerges passes (replace pass.1 pass.2 u) q

/-- A part of a text after several replacements has been kept, or it emerges from one of them. -/
theorem text_eq_replaceAll_iff {passes : List Pass} {u : Text} {q : Spot} :
    q.text = replaceAll passes u ↔
      (∃ p, p.text = u ∧ KeepsAll passes p q) ∨ Emerges passes u q := by
  induction passes generalizing u with
  | nil =>
      constructor
      · exact fun h => Or.inl ⟨q, h, rfl⟩
      · rintro (⟨p, hp, rfl⟩ | hnone)
        · exact hp
        · exact hnone.elim
  | cons pass passes ih =>
      have hstep : q.text = replaceAll (pass :: passes) u ↔
          q.text = replaceAll passes (replace pass.1 pass.2 u) := Iff.rfl
      rw [hstep, ih]
      constructor
      · rintro (⟨m, hm, hkeeps⟩ | hemerges)
        · rcases text_eq_replace_iff.mp hm with ⟨p, hp, hfirst⟩ | htouches
          · exact Or.inl ⟨p, hp, m, hfirst, hkeeps⟩
          · exact Or.inr (Or.inl ⟨m, htouches, hkeeps⟩)
        · exact Or.inr (Or.inr hemerges)
      · rintro (⟨p, hp, m, hfirst, hkeeps⟩ | ⟨m, htouches, hkeeps⟩ | hemerges)
        · exact Or.inl ⟨m, text_eq_replace_iff.mpr (Or.inl ⟨p, hp, hfirst⟩), hkeeps⟩
        · exact Or.inl ⟨m, htouches.1, hkeeps⟩
        · exact Or.inr hemerges

theorem KeepsAll.part_eq {passes : List Pass} {p q : Spot} (h : KeepsAll passes p q) :
    q.part = p.part := by
  induction passes generalizing p with
  | nil => rw [h]
  | cons pass passes ih =>
      obtain ⟨m, hm, hkeeps⟩ := h
      rw [ih hkeeps, hm.part_eq]

/-! ## Runs of a class of characters -/

/-- The tokens are the whole runs of characters of a class that are good. -/
structure RunToken (token : Token) (accepts : Char → Bool) (good : Text → Prop) : Prop where
  iff_run : ∀ last s n, token last s = some (n + 1) ↔
    last.any accepts = false ∧ good (s.takeWhile accepts) ∧ (s.takeWhile accepts).length = n + 1

/-- The run of characters of a class that a part stands in. -/
def Spot.run (p : Spot) (accepts : Char → Bool) : Text :=
  p.before.rtakeWhile accepts ++ (p.part ++ p.behind.takeWhile accepts)

section Runs

variable {token : Token} {write : Text → Text} {accepts : Char → Bool} {good : Text → Prop}

/-- Behind a first run comes another character. -/
theorem any_head?_of_takeWhile {r b : Text} (h : (r ++ b).takeWhile accepts = r) :
    b.head?.any accepts = false := by
  have hr : ∀ c ∈ r, accepts c = true := by
    rw [← h]
    exact fun c hc => List.mem_takeWhile_imp hc
  cases b with
  | nil => rfl
  | cons c b =>
      rw [List.takeWhile_append_of_pos hr, List.append_right_eq_self] at h
      by_contra hc
      rw [List.head?_cons, Option.any_some, Bool.not_eq_false] at hc
      rw [List.takeWhile_cons_of_pos hc] at h
      cases h

theorem rtakeWhile_run {a r : Text} (hr : ∀ c ∈ r, accepts c = true)
    (ha : a.getLast?.any accepts = false) : (a ++ r).rtakeWhile accepts = r := by
  have hreverse : (r.reverse ++ a.reverse).takeWhile accepts = r.reverse :=
    takeWhile_run (by simpa using hr) (by simpa using ha)
  rw [List.rtakeWhile, List.reverse_append, hreverse, List.reverse_reverse]

/-- A text that ends with another character is longer than its first run. -/
theorem length_takeWhile_lt {a s : Text} (hne : a ≠ []) (ha : a.getLast?.any accepts = false) :
    ((a ++ s).takeWhile accepts).length < a.length := by
  by_contra hlong
  have hwhole : a <+: (a ++ s).takeWhile accepts :=
    List.prefix_of_prefix_length_le (List.prefix_append a s) (List.takeWhile_prefix accepts)
      (not_lt.mp hlong)
  have hlast : accepts (a.getLast hne) = true :=
    List.mem_takeWhile_imp (hwhole.subset (List.getLast_mem hne))
  rw [List.getLast?_eq_some_getLast hne, Option.any_some, hlast] at ha
  cases ha

/-- A good run is written over. -/
theorem RunToken.exists_edits (h : RunToken token accepts good) (last : Option Char)
    {a r b : Text} (hr : ∀ c ∈ r, accepts c = true) (hne : r ≠ []) (hgood : good r)
    (ha : (lastOf last a).any accepts = false) (hb : b.head?.any accepts = false) :
    ∃ es es', edits token write last 0 (a ++ (r ++ b)) = es ++ .put r (write r) :: es' ∧
      es.flatMap Edit.source = a ∧ es'.flatMap Edit.source = b := by
  match a with
  | [] =>
      cases r with
      | nil => exact absurd rfl hne
      | cons c r =>
          have hrun : (c :: (r ++ b)).takeWhile accepts = c :: r := takeWhile_run hr hb
          have htoken : token last (c :: (r ++ b)) = some (r.length + 1) := by
            rw [h.iff_run, hrun]
            exact ⟨by simpa [lastOf] using ha, hgood, rfl⟩
          refine ⟨[], edits token write (some c) r.length (r ++ b), ?_, rfl, ?_⟩
          · rw [List.nil_append, List.cons_append, edits_of_token htoken, List.take_succ_cons,
              List.take_left]
            rfl
          · rw [flatMap_source_edits, List.drop_left]
  | c :: a =>
      by_cases htoken : ∃ n, token last (c :: (a ++ (r ++ b))) = some (n + 1)
      · obtain ⟨n, htoken⟩ := htoken
        have hlast : (c :: a).getLast?.any accepts = false := by
          rw [lastOf, List.getLast?_eq_some_getLast (List.cons_ne_nil c a), Option.some_or] at ha
          rw [List.getLast?_eq_some_getLast (List.cons_ne_nil c a)]
          exact ha
        -- the token stops before the last character of `c :: a`
        have hshort : n < a.length := by
          have hlength := length_takeWhile_lt (s := r ++ b) (List.cons_ne_nil c a) hlast
          have hrun := ((h.iff_run _ _ _).mp htoken).2.2
          rw [List.cons_append, hrun, List.length_cons] at hlength
          omega
        have hlastOf : lastOf (lastOf (some c) (a.take n)) (a.drop n) = lastOf last (c :: a) := by
          rw [← lastOf_append, List.take_append_drop, lastOf_cons]
        obtain ⟨es, es', hedits, hsource, hsource'⟩ := h.exists_edits
          (lastOf (some c) (a.take n)) hr hne hgood (hlastOf ▸ ha) hb
        refine ⟨.put (c :: a.take n) (write (c :: a.take n)) :: es, es', ?_, ?_, hsource'⟩
        · rw [List.cons_append, edits_of_token htoken, edits_skip, List.take_succ_cons,
            List.take_append_of_le_length hshort.le, List.drop_append_of_le_length hshort.le,
            hedits, List.cons_append]
        · rw [List.flatMap_cons, hsource, Edit.source, List.cons_append, List.take_append_drop]
      · obtain ⟨es, es', hedits, hsource, hsource'⟩ := h.exists_edits (some c)
          hr hne hgood (by rwa [lastOf_cons] at ha) hb
        refine ⟨.kept c :: es, es', ?_, ?_, hsource'⟩
        · rw [List.cons_append, edits_of_none (not_exists.mp htoken), hedits]
          rfl
        · rw [List.flatMap_cons, hsource]
          rfl
termination_by a.length

/-- The tokens are good runs. -/
theorem RunToken.run_of_edits (h : RunToken token accepts good) {s : Text} {es es' : List Edit}
    {old new : Text} (hedits : edits token write none 0 s = es ++ .put old new :: es') :
    (∀ c ∈ old, accepts c = true) ∧ good old ∧ new = write old ∧
      (es.flatMap Edit.source).getLast?.any accepts = false ∧
        (es'.flatMap Edit.source).head?.any accepts = false := by
  obtain ⟨n, htoken, hold, hnew⟩ := token_of_edits hedits
  obtain ⟨hlast, hgood, hlength⟩ := (h.iff_run _ _ _).mp htoken
  have hrun : (old ++ es'.flatMap Edit.source).takeWhile accepts = old := by
    rw [List.prefix_iff_eq_take.mp (List.takeWhile_prefix accepts), hlength]
    exact hold.symm
  rw [hrun] at hgood
  refine ⟨?_, hgood, hnew, ?_, any_head?_of_takeWhile hrun⟩
  · rw [← hrun]
    exact fun c hc => List.mem_takeWhile_imp hc
  · rwa [lastOf, Option.or_none] at hlast

/-- A part of a run is written over if and only if the run is good. -/
theorem RunToken.overwrites_iff (h : RunToken token accepts good) {p : Spot}
    (hpart : ∀ c ∈ p.part, accepts c = true) (hne : p.part ≠ []) {new : Text} :
    (∃ q, Overwrites token write p q ∧ q.part = new) ↔
      good (p.run accepts) ∧ new = write (p.run accepts) := by
  constructor
  · rintro ⟨q, ⟨es, es', x, y, hedits, hbefore, hbehind, -, -⟩, rfl⟩
    obtain ⟨hall, hgood, hnew, hlast, hhead⟩ := h.run_of_edits hedits
    have hx : p.before.rtakeWhile accepts = x := by
      rw [← hbefore]
      exact rtakeWhile_run (fun c hc => hall c (List.mem_append_left _ hc)) hlast
    have hy : p.behind.takeWhile accepts = y := by
      rw [← hbehind]
      exact takeWhile_run (fun c hc => hall c (by simp [hc])) hhead
    rw [Spot.run, hx, hy]
    exact ⟨hgood, hnew⟩
  · rintro ⟨hgood, rfl⟩
    have hrun : ∀ c ∈ p.run accepts, accepts c = true := by
      intro c hc
      rcases List.mem_append.mp hc with hc | hc
      · exact List.mem_rtakeWhile_imp hc
      rcases List.mem_append.mp hc with hc | hc
      · exact hpart c hc
      · exact List.mem_takeWhile_imp hc
    have hrunne : p.run accepts ≠ [] := by simp [Spot.run, hne]
    have hlast : (lastOf none (p.before.rdropWhile accepts)).any accepts = false := by
      rw [lastOf, Option.or_none]
      by_cases hnil : p.before.rdropWhile accepts = []
      · rw [hnil]
        rfl
      · rw [List.getLast?_eq_some_getLast hnil, Option.any_some]
        simpa using List.rdropWhile_last_not accepts p.before hnil
    have hhead : (p.behind.dropWhile accepts).head?.any accepts = false :=
      any_head?_of_takeWhile (r := p.behind.takeWhile accepts) (by
        rw [List.takeWhile_append_dropWhile])
    have hparts : p.text = p.before.rdropWhile accepts ++
        (p.run accepts ++ p.behind.dropWhile accepts) := by
      rw [Spot.run, List.append_assoc, List.append_assoc, List.takeWhile_append_dropWhile,
        ← List.append_assoc, List.rdropWhile_append_rtakeWhile, Spot.text]
    obtain ⟨es, es', hedits, hsource, hsource'⟩ : ∃ es es',
        edits token write none 0 p.text = es ++ .put (p.run accepts) (write (p.run accepts)) :: es' ∧
          es.flatMap Edit.source = p.before.rdropWhile accepts ∧
            es'.flatMap Edit.source = p.behind.dropWhile accepts := by
      rw [hparts]
      exact h.exists_edits none hrun hrunne hgood hlast hhead
    refine ⟨⟨es.flatMap Edit.text, write (p.run accepts), es'.flatMap Edit.text⟩,
      ⟨es, es', p.before.rtakeWhile accepts, p.behind.takeWhile accepts, ?_, ?_, ?_, rfl, rfl⟩, rfl⟩
    · rw [hedits]
      rfl
    · rw [hsource, List.rdropWhile_append_rtakeWhile]
    · rw [hsource', List.takeWhile_append_dropWhile]

end Runs

end Tokens
