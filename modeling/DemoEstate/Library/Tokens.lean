import DemoEstate.Library.Text
import Mathlib.Data.List.Infix
import Mathlib.Data.List.TakeWhile

/-!
# Replacing the tokens of a text

Patterns made of greedy runs, and the scan that replaces the tokens of a text from left to right.

Main definitions:

- Definition {lit}`matchLength`: the first match of a pattern, with backtracking.
- Definition {lit}`replace`: a text with its tokens replaced.

Main results:

- Theorem {lit}`replace_eq_self`: a text without tokens stays as it is.
-/

namespace Tokens

/-! ## Patterns -/

/-- An element of a pattern. -/
inductive Atom where
  /-- A greedy run of characters of a class. -/
  | run (accepts : Char → Bool) (least : Nat) (most : Option Nat)
  /-- No character of a class stands before. -/
  | notBehind (rejects : Char → Bool)
  /-- No character of a class comes next. -/
  | notAhead (rejects : Char → Bool)
  /-- One side is inside a word, the other is not. -/
  | boundary (word : Char → Bool)

/-- One character. -/
def Atom.char (c : Char) : Atom :=
  .run (· == c) 1 (some 1)

/-- The last character before a place, of a text that comes after one character. -/
def lastOf (last : Option Char) (s : Text) : Option Char :=
  s.getLast?.or last

theorem lastOf_cons (last : Option Char) (c : Char) (s : Text) :
    lastOf last (c :: s) = lastOf (some c) s := by
  rw [lastOf, lastOf, List.getLast?_cons]
  cases s.getLast? <;> rfl

theorem lastOf_append (last : Option Char) (a b : Text) :
    lastOf last (a ++ b) = lastOf (lastOf last a) b := by
  rw [lastOf, lastOf, lastOf, List.getLast?_append, Option.or_assoc]

/-- The length of the first match of a pattern.  A run takes as many characters as it can and
gives them back one by one. -/
def matchLength : List Atom → Option Char → Text → Option Nat
  | [], _, _ => some 0
  | .run accepts least most :: p, last, rest =>
      let taken := (rest.takeWhile accepts).length
      let longest := most.elim taken (min taken)
      ((List.range (longest + 1)).reverse.filter (least ≤ ·)).findSome? fun k =>
        (matchLength p (lastOf last (rest.take k)) (rest.drop k)).map (k + ·)
  | .notBehind rejects :: p, last, rest =>
      if last.any rejects then none else matchLength p last rest
  | .notAhead rejects :: p, last, rest =>
      if rest.head?.any rejects then none else matchLength p last rest
  | .boundary word :: p, last, rest =>
      if last.any word = rest.head?.any word then none else matchLength p last rest

section Run

variable {accepts : Char → Bool} {least : Nat} {most : Option Nat} {p : List Atom}
  {last : Option Char}

theorem takeWhile_run {r b : Text} (hr : ∀ c ∈ r, accepts c = true)
    (hb : b.head?.any accepts = false) : (r ++ b).takeWhile accepts = r := by
  rw [List.takeWhile_append_of_pos hr]
  cases b with
  | nil => simp
  | cons c b => rw [List.takeWhile_cons_of_neg (by simpa using hb), List.append_nil]

/-- What a run takes of a match. -/
theorem exists_run {rest : Text} {n : Nat}
    (h : matchLength (.run accepts least most :: p) last rest = some n) :
    ∃ g rest' m, rest = g ++ rest' ∧ (∀ c ∈ g, accepts c = true) ∧ least ≤ g.length ∧
      (∀ k ∈ most, g.length ≤ k) ∧ matchLength p (lastOf last g) rest' = some m ∧
        n = g.length + m := by
  obtain ⟨k, hk, hmatch⟩ := List.exists_of_findSome?_eq_some h
  obtain ⟨m, hm, rfl⟩ := Option.map_eq_some_iff.mp hmatch
  simp only [List.mem_filter, List.mem_reverse, List.mem_range, decide_eq_true_eq] at hk
  have htaken : k ≤ (rest.takeWhile accepts).length := by
    cases most with
    | none => exact Nat.lt_succ_iff.mp hk.1
    | some most => exact (Nat.lt_succ_iff.mp hk.1).trans (min_le_left _ _)
  have hlength : (rest.take k).length = k :=
    List.length_take_of_le (htaken.trans (List.takeWhile_prefix accepts).length_le)
  refine ⟨rest.take k, rest.drop k, m, (List.take_append_drop k rest).symm, ?_, ?_, ?_, hm, ?_⟩
  · intro c hc
    have htake : rest.take k <+: rest.takeWhile accepts :=
      List.prefix_of_prefix_length_le (List.take_prefix k rest) (List.takeWhile_prefix accepts)
        (hlength.trans_le htaken)
    exact List.mem_takeWhile_imp (htake.subset hc)
  · rw [hlength]
    exact hk.2
  · rintro most' hmost
    cases hmost
    rw [hlength]
    exact (Nat.lt_succ_iff.mp hk.1).trans (min_le_right _ _)
  · rw [hlength]

/-- A run takes the characters of its class up to the next other one. -/
theorem matchLength_run {g rest : Text} {m : Nat} (hg : ∀ c ∈ g, accepts c = true)
    (hleast : least ≤ g.length) (hmost : ∀ k ∈ most, g.length ≤ k)
    (hstop : rest.head?.any accepts = false) (h : matchLength p (lastOf last g) rest = some m) :
    matchLength (.run accepts least most :: p) last (g ++ rest) = some (g.length + m) := by
  have htaken : (g ++ rest).takeWhile accepts = g := takeWhile_run hg hstop
  have hlongest : most.elim g.length (min g.length) = g.length := by
    cases most with
    | none => rfl
    | some k => exact min_eq_left (hmost k rfl)
  have hfirst : (List.range (g.length + 1)).reverse.filter (least ≤ ·) =
      g.length :: (List.range g.length).reverse.filter (least ≤ ·) := by
    rw [List.range_succ, List.reverse_append, List.reverse_singleton, List.singleton_append,
      List.filter_cons_of_pos (by simpa using hleast)]
  rw [matchLength, htaken, hlongest, hfirst, List.findSome?_cons, List.take_left, List.drop_left, h]
  rfl

end Run

/-- A match has a character of each class of which it needs one. -/
theorem exists_accepted {p : List Atom} {accepts : Char → Bool} {least : Nat} {most : Option Nat}
    (hrun : .run accepts least most ∈ p) (hleast : 0 < least) {last : Option Char} {rest : Text}
    {n : Nat} (h : matchLength p last rest = some n) : ∃ c ∈ rest.take n, accepts c = true := by
  induction p generalizing last rest n with
  | nil => exact absurd hrun List.not_mem_nil
  | cons atom p ih =>
      cases atom with
      | run accepts' least' most' =>
          obtain ⟨g, rest', m, rfl, hg, hlong, -, hm, rfl⟩ := exists_run h
          rw [List.take_length_add_append]
          rcases List.mem_cons.mp hrun with heq | hrun
          · cases heq
            obtain ⟨c, hc⟩ := List.exists_mem_of_length_pos (hleast.trans_le hlong)
            exact ⟨c, List.mem_append_left _ hc, hg c hc⟩
          · obtain ⟨c, hc, haccepts⟩ := ih hrun hm
            exact ⟨c, List.mem_append_right _ hc, haccepts⟩
      | notBehind rejects =>
          rw [matchLength] at h
          split at h
          · cases h
          · exact ih ((List.mem_cons.mp hrun).resolve_left Atom.noConfusion) h
      | notAhead rejects =>
          rw [matchLength] at h
          split at h
          · cases h
          · exact ih ((List.mem_cons.mp hrun).resolve_left Atom.noConfusion) h
      | boundary word =>
          rw [matchLength] at h
          split at h
          · cases h
          · exact ih ((List.mem_cons.mp hrun).resolve_left Atom.noConfusion) h

/-! ## Scanning -/

/-- The length of the token at a place, after the character before it.  A token is not empty. -/
abbrev Token := Option Char → Text → Option Nat

/-- A piece of a text after the replacement. -/
inductive Piece where
  | kept (c : Char)
  | put (text : Text)

/-- The text of a piece. -/
def Piece.text : Piece → Text
  | .kept c => [c]
  | .put text => text

/-- The text that a piece puts in. -/
def Piece.put? : Piece → Option Text
  | .kept _ => none
  | .put text => some text

/-- Replace the tokens from left to right.  The first `skip` characters belong to the token that
has just been replaced. -/
def scan (token : Token) (write : Text → Text) : Option Char → Nat → Text → List Piece
  | _, _, [] => []
  | _, skip + 1, c :: rest => scan token write (some c) skip rest
  | last, 0, c :: rest =>
      match token last (c :: rest) with
      | some (n + 1) =>
          .put (write ((c :: rest).take (n + 1))) :: scan token write (some c) n rest
      | _ => .kept c :: scan token write (some c) 0 rest

/-- A text with its tokens replaced. -/
def replace (token : Token) (write : Text → Text) (s : Text) : Text :=
  (scan token write none 0 s).flatMap Piece.text

/-- The texts that are put in. -/
def puts (token : Token) (write : Text → Text) (s : Text) : List Text :=
  (scan token write none 0 s).filterMap Piece.put?

/-- The token is a word, up to a folding of characters. -/
def wordToken (fold : Char → Char) (word : Text) : Token := fun _ rest =>
  if word.map fold <+: rest.map fold then some word.length else none

section Scan

variable {token : Token} {write : Text → Text} {last : Option Char} {s u : Text}

/-- After a token the scan goes on behind it. -/
theorem scan_skip (skip : Nat) :
    scan token write last skip s =
      scan token write (lastOf last (s.take skip)) 0 (s.drop skip) := by
  induction s generalizing last skip with
  | nil => simp [scan]
  | cons c s ih =>
      cases skip with
      | zero => rfl
      | succ skip =>
          rw [scan, ih, ← lastOf_cons last, List.take_succ_cons, List.drop_succ_cons]

/-- Every text put in is written for a token. -/
theorem exists_token {skip : Nat} {r : Text} (h : .put r ∈ scan token write last skip s) :
    ∃ last' s' n, s' <:+ s ∧ token last' s' = some (n + 1) ∧ r = write (s'.take (n + 1)) := by
  fun_induction scan token write last skip s with
  | case1 => exact absurd h List.not_mem_nil
  | case2 last skip c s ih =>
      obtain ⟨last', s', n, hs, htoken, hr⟩ := ih h
      exact ⟨last', s', n, hs.trans (List.suffix_cons c s), htoken, hr⟩
  | case3 last c s n htoken ih =>
      rcases List.mem_cons.mp h with heq | h
      · cases heq
        exact ⟨last, c :: s, n, List.suffix_rfl, htoken, rfl⟩
      · obtain ⟨last', s', n, hs, htoken, hr⟩ := ih h
        exact ⟨last', s', n, hs.trans (List.suffix_cons c s), htoken, hr⟩
  | case4 last c s hnone ih =>
      rcases List.mem_cons.mp h with heq | h
      · cases heq
      · obtain ⟨last', s', n, hs, htoken, hr⟩ := ih h
        exact ⟨last', s', n, hs.trans (List.suffix_cons c s), htoken, hr⟩

theorem mem_puts {r : Text} : r ∈ puts token write u ↔ .put r ∈ scan token write none 0 u := by
  rw [puts, List.mem_filterMap]
  constructor
  · rintro ⟨piece, hpiece, hr⟩
    cases piece with
    | kept c => cases hr
    | put text => cases hr; exact hpiece
  · exact fun h => ⟨.put r, h, rfl⟩

/-- A text put in is part of the result. -/
theorem infix_replace {r : Text} (h : r ∈ puts token write u) : r <:+: replace token write u := by
  rw [replace, List.flatMap_def]
  exact List.infix_of_mem_flatten (List.mem_map.mpr ⟨.put r, mem_puts.mp h, rfl⟩)

/-- Where no token is, nothing is put in. -/
theorem puts_eq_nil (h : ∀ last s, s <:+ u → ∀ n, token last s ≠ some (n + 1)) :
    puts token write u = [] := by
  apply List.eq_nil_iff_forall_not_mem.mpr
  intro r hr
  obtain ⟨last, s, n, hs, htoken, -⟩ := exists_token (mem_puts.mp hr)
  exact h last s hs n htoken

/-- Every character of the result is kept or put in. -/
theorem forall_mem_replace {P : Char → Prop} (hu : ∀ c ∈ u, P c)
    (hput : ∀ r ∈ puts token write u, ∀ c ∈ r, P c) : ∀ c ∈ replace token write u, P c := by
  have hscan : ∀ last skip s, (∀ c ∈ s, P c) →
      (∀ r, .put r ∈ scan token write last skip s → ∀ c ∈ r, P c) →
      ∀ c ∈ (scan token write last skip s).flatMap Piece.text, P c := by
    intro last skip s
    fun_induction scan token write last skip s with
    | case1 => exact fun _ _ c hc => absurd hc List.not_mem_nil
    | case2 last skip c s ih => exact fun hs hr => ih (fun d hd => hs d (List.mem_cons_of_mem _ hd)) hr
    | case3 last c s n htoken ih =>
        intro hs hr d hd
        rcases List.mem_append.mp hd with hd | hd
        · exact hr _ List.mem_cons_self d hd
        · exact ih (fun d hd => hs d (List.mem_cons_of_mem _ hd))
            (fun r hput => hr r (List.mem_cons_of_mem _ hput)) d hd
    | case4 last c s hnone ih =>
        intro hs hr d hd
        rcases List.mem_append.mp hd with hd | hd
        · exact hs d (List.mem_singleton.mp hd ▸ List.mem_cons_self)
        · exact ih (fun d hd => hs d (List.mem_cons_of_mem _ hd))
            (fun r hput => hr r (List.mem_cons_of_mem _ hput)) d hd
  exact hscan none 0 u hu fun r hr => hput r (mem_puts.mpr hr)

/-- A text without tokens stays as it is. -/
theorem replace_eq_self (h : puts token write u = []) : replace token write u = u := by
  have hscan : ∀ last s, (∀ r, .put r ∉ scan token write last 0 s) →
      (scan token write last 0 s).flatMap Piece.text = s := by
    intro last s
    induction s generalizing last with
    | nil => exact fun _ => rfl
    | cons c s ih =>
        intro hnone
        rw [scan] at hnone ⊢
        split at hnone
        · exact absurd List.mem_cons_self (hnone _)
        · have hrest := ih (some c) fun r hr => hnone r (List.mem_cons_of_mem _ hr)
          rw [List.flatMap_cons, hrest]
          rfl
  apply hscan
  intro r hr
  rw [← mem_puts, h] at hr
  exact List.not_mem_nil hr

/-- A part in which no token starts is kept. -/
theorem flatMap_scan_append {a rest : Text}
    (h : ∀ last s, s <:+ a → s ≠ [] → ∀ n, token last (s ++ rest) ≠ some (n + 1)) :
    (scan token write last 0 (a ++ rest)).flatMap Piece.text =
      a ++ (scan token write (lastOf last a) 0 rest).flatMap Piece.text := by
  induction a generalizing last with
  | nil => rfl
  | cons c a ih =>
      have hrest : (scan token write (some c) 0 (a ++ rest)).flatMap Piece.text =
          a ++ (scan token write (lastOf (some c) a) 0 rest).flatMap Piece.text :=
        ih fun last s hs => h last s (hs.trans (List.suffix_cons c a))
      rw [List.cons_append, scan]
      split
      · rename_i n htoken
        exact absurd htoken (h last (c :: a) List.suffix_rfl (by simp) n)
      · rw [List.flatMap_cons, hrest, lastOf_cons]
        rfl

/-- A text in which everything put in would show stays as it is. -/
theorem replace_eq_self_of_forall {P : Char → Prop} (hreplace : ∀ c ∈ replace token write u, P c)
    (hput : ∀ r ∈ puts token write u, ∃ c ∈ r, ¬ P c) : replace token write u = u := by
  apply replace_eq_self
  apply List.eq_nil_iff_forall_not_mem.mpr
  intro r hr
  obtain ⟨c, hc, hP⟩ := hput r hr
  exact hP (hreplace c ((infix_replace hr).subset hc))

end Scan

section Word

variable {word a b : Text} {write : Text → Text} {c : Char}

/-- A word does not start in a part without its first character. -/
theorem flatMap_scan_word (ha : c ∉ a) (rest : Text) (last : Option Char) :
    (scan (wordToken id (c :: word)) write last 0 (a ++ rest)).flatMap Piece.text =
      a ++ (scan (wordToken id (c :: word)) write (lastOf last a) 0 rest).flatMap Piece.text := by
  apply flatMap_scan_append
  intro last s hs hne n
  cases s with
  | nil => exact absurd rfl hne
  | cons d s =>
      have hd : c ≠ d := fun heq => ha (heq ▸ hs.subset List.mem_cons_self)
      rw [wordToken, if_neg]
      · simp
      · simp [List.cons_prefix_cons, hd]

theorem flatMap_scan_of_absent (ha : c ∉ a) (last : Option Char) :
    (scan (wordToken id (c :: word)) write last 0 a).flatMap Piece.text = a := by
  rw [← List.append_nil a, flatMap_scan_word ha [] last]
  rfl

/-- A text without the first character of a word stays as it is. -/
theorem replace_word_of_absent (ha : c ∉ a) : replace (wordToken id (c :: word)) write a = a :=
  flatMap_scan_of_absent ha none

/-- A word whose first character stands nowhere else is replaced once. -/
theorem replace_word (ha : c ∉ a) (hb : c ∉ b) :
    replace (wordToken id (c :: word)) write (a ++ (c :: word ++ b)) =
      a ++ (write (c :: word) ++ b) := by
  have hword : ∀ last, wordToken id (c :: word) last (c :: word ++ b) = some (word.length + 1) := by
    intro last
    rw [wordToken, if_pos (by simp), List.length_cons]
  rw [replace, flatMap_scan_word ha]
  congr 1
  rw [List.cons_append, scan, ← List.cons_append, hword]
  simp only [List.flatMap_cons, Piece.text]
  rw [scan_skip, ← List.length_cons, List.take_left, List.drop_left' rfl, flatMap_scan_of_absent hb]

/-- Where only another word starts, nothing is replaced. -/
theorem replace_word_of_ne {other : Text} (ha : c ∉ a) (hother : c ∉ other)
    (hne : ¬ word <+: other) : replace (wordToken id (c :: word)) write (a ++ c :: other) =
      a ++ c :: other := by
  have hat : ∀ last, wordToken id (c :: word) last (c :: other) = none := by
    intro last
    rw [wordToken, if_neg]
    simpa [List.cons_prefix_cons] using hne
  rw [replace, flatMap_scan_word ha]
  congr 1
  rw [scan, hat]
  exact congrArg (c :: ·) (flatMap_scan_of_absent hother (some c))

end Word

end Tokens
