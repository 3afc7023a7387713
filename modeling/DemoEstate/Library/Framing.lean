import Mathlib.Data.List.Basic

/-!
# Lines and the markers among them

A sequence is cut into lines behind every feed, and the lines that are markers divide it into
pieces.

Main definitions:

- Definition {lit}`lines`: the lines of a sequence, each with its feed.
- Definition {lit}`split`: what stands in front of the first marker, and behind each of them.

Main results:

- Theorem {lit}`lines_append`: the lines of a closed sequence are lines of every longer one.
- Theorem {lit}`lines_close`: closing a sequence changes only its last line.
- Theorem {lit}`split_append`: lines without markers belong to the piece before.
-/

namespace Framing

variable {α ν : Type} {feed : α}

/-! ## Lines -/

/-- The last line has its feed. -/
def Closed (feed : α) (s : List α) : Prop :=
  ∀ a ∈ s.getLast?, a = feed

theorem Closed.tail {a : α} {s : List α} (h : Closed feed (a :: s)) : Closed feed s := by
  cases s with
  | nil => simp [Closed]
  | cons b s =>
      rw [Closed, List.getLast?_cons_cons] at h
      exact h

theorem closed_append_feed (s : List α) : Closed feed (s ++ [feed]) := by
  simp [Closed]

section Lines

variable [DecidableEq α]

/-- The lines of a sequence, each with its feed; the last one may have none. -/
def lines (feed : α) : List α → List (List α)
  | [] => []
  | a :: s =>
      if a = feed then [a] :: lines feed s
      else
        match lines feed s with
        | [] => [[a]]
        | line :: rest => (a :: line) :: rest

theorem lines_feed (s : List α) : lines feed (feed :: s) = [feed] :: lines feed s := by
  rw [lines, if_pos rfl]

theorem lines_ne_nil {s : List α} (h : s ≠ []) : lines feed s ≠ [] := by
  cases s with
  | nil => exact absurd rfl h
  | cons a s =>
      rw [lines]
      split
      · exact List.cons_ne_nil _ _
      · split <;> exact List.cons_ne_nil _ _

/-- An element that is no feed belongs to the line behind it. -/
theorem lines_cons {a : α} (ha : a ≠ feed) {s line : List α} {rest : List (List α)}
    (h : lines feed s = line :: rest) : lines feed (a :: s) = (a :: line) :: rest := by
  rw [lines, if_neg ha, h]

@[simp]
theorem flatten_lines (s : List α) : (lines feed s).flatten = s := by
  induction s with
  | nil => rfl
  | cons a s ih =>
      rw [lines]
      split
      · simp [ih]
      · split
        · rename_i hnil
          rw [hnil] at ih
          simp [← ih]
        · rename_i line rest hlines
          rw [hlines] at ih
          simp [← ih]

/-- The lines of a closed sequence are lines of every longer one. -/
theorem lines_append {s : List α} (h : Closed feed s) (t : List α) :
    lines feed (s ++ t) = lines feed s ++ lines feed t := by
  induction s with
  | nil => rfl
  | cons a s ih =>
      by_cases ha : a = feed
      · rw [ha, List.cons_append, lines_feed, lines_feed, ih h.tail, List.cons_append]
      · have hs : s ≠ [] := by
          rintro rfl
          exact ha (h a rfl)
        have hlinesne : lines feed s ≠ [] := lines_ne_nil hs
        rcases List.exists_cons_of_ne_nil hlinesne with ⟨line, rest, hlines⟩
        have hlonger := ih h.tail
        rw [hlines, List.cons_append] at hlonger
        rw [List.cons_append, lines_cons ha hlonger, lines_cons ha hlines, List.cons_append]

/-- A sequence without feeds is one line, with a feed behind it. -/
theorem lines_line {line : List α} (h : feed ∉ line) : lines feed (line ++ [feed]) =
    [line ++ [feed]] := by
  induction line with
  | nil => exact lines_feed []
  | cons a line ih =>
      rcases not_or.mp (mt List.mem_cons.mpr h) with ⟨ha, hline⟩
      exact lines_cons (Ne.symm ha) (ih hline)

/-- Closing a sequence gives its last line a feed. -/
theorem lines_close {s : List α} (h : ¬ Closed feed s) :
    ∃ front line, lines feed s = front ++ [line] ∧ feed ∉ line ∧
      lines feed (s ++ [feed]) = front ++ [line ++ [feed]] := by
  induction s with
  | nil => exact absurd (by simp [Closed]) h
  | cons a s ih =>
      by_cases hs : s = []
      · have ha : a ≠ feed := fun ha => h (by simp [Closed, hs, ha])
        have hline : feed ∉ [a] := by simpa using Ne.symm ha
        refine ⟨[], [a], ?_, hline, ?_⟩
        · rw [hs, lines, if_neg ha]
          rfl
        · rw [hs]
          exact lines_line hline
      · have hrest : ¬ Closed feed s := by
          rcases List.exists_cons_of_ne_nil hs with ⟨b, t, rfl⟩
          rw [Closed, List.getLast?_cons_cons] at h
          exact h
        rcases ih hrest with ⟨front, line, hlines, hline, hclosed⟩
        by_cases ha : a = feed
        · refine ⟨[feed] :: front, line, ?_, hline, ?_⟩
          · rw [ha, lines_feed, hlines, List.cons_append]
          · rw [ha, List.cons_append, lines_feed, hclosed, List.cons_append]
        · cases front with
          | nil =>
              refine ⟨[], a :: line, lines_cons ha hlines, ?_, lines_cons ha hclosed⟩
              exact mt List.mem_cons.mp (not_or.mpr ⟨Ne.symm ha, hline⟩)
          | cons first front =>
              exact ⟨(a :: first) :: front, line, lines_cons ha hlines, hline, lines_cons ha hclosed⟩

end Lines

/-! ## Markers -/

/-- What stands in front of the first marker, and each marker's name with what stands behind it up
to the next one. -/
def split (marker : List α → Option ν) : List (List α) → List α × List (ν × List α)
  | [] => ([], [])
  | line :: rest =>
      match marker line with
      | some name => ([], (name, (split marker rest).1) :: (split marker rest).2)
      | none => (line ++ (split marker rest).1, (split marker rest).2)

variable {marker : List α → Option ν}

theorem split_marker {line : List α} {name : ν} (h : marker line = some name)
    (rest : List (List α)) : split marker (line :: rest) =
      ([], (name, (split marker rest).1) :: (split marker rest).2) := by
  rw [split, h]

/-- Lines without markers belong to the piece before. -/
theorem split_append {front : List (List α)} (h : ∀ line ∈ front, marker line = none)
    (rest : List (List α)) : split marker (front ++ rest) =
      (front.flatten ++ (split marker rest).1, (split marker rest).2) := by
  induction front with
  | nil => rfl
  | cons line front ih =>
      have hfront := ih fun l hl => h l (List.mem_cons_of_mem line hl)
      rw [List.cons_append, split, h line List.mem_cons_self, hfront]
      simp

end Framing
