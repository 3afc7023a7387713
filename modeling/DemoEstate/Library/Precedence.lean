import Mathlib.Data.List.Nodup
import Mathlib.Data.List.Perm.Basic

/-!
# Lists in which everything follows what it needs

Every element of a list has a key and needs some keys.  The list respects the needs when each
element is preceded by elements with all the keys it needs.

Main results:

- Theorem {lit}`respects_append`: two lists one after the other.
- Theorem {lit}`filter_eq_append_cons_iff`: what precedes an element among the selected elements.
-/

namespace Precedence

variable {α β γ : Type}

/-- Each element follows elements with the keys it needs. -/
def Respects (key : α → β) (needs : α → β → Prop) (l : List α) : Prop :=
  ∀ pre a post, l = pre ++ a :: post → ∀ b, needs a b → b ∈ pre.map key

section Append

variable {key : α → β} {needs : α → β → Prop} {l l' : List α}

theorem respects_nil : Respects key needs [] := by
  intro pre a post h
  simp at h

/-- Of two lists one after the other, the second also follows the first. -/
theorem respects_append :
    Respects key needs (l ++ l') ↔
      Respects key needs l ∧ ∀ pre a post, l' = pre ++ a :: post → ∀ b, needs a b →
        b ∈ l.map key ∨ b ∈ pre.map key := by
  constructor
  · intro h
    constructor
    · rintro pre a post rfl b hb
      exact h pre a (post ++ l') (by simp) b hb
    · rintro pre a post rfl b hb
      rw [← List.mem_append, ← List.map_append]
      exact h (l ++ pre) a post (by simp) b hb
  · rintro ⟨hleft, hright⟩ pre a post heq b hb
    rcases List.append_eq_append_iff.mp heq with ⟨mid, rfl, hmid⟩ | ⟨mid, rfl, hmid⟩
    · rw [List.map_append, List.mem_append]
      exact hright mid a post hmid b hb
    · cases mid with
      | nil =>
          rw [List.nil_append] at hmid
          have hfirst := hright [] a post hmid.symm b hb
          simpa using hfirst
      | cons c mid =>
          rw [List.cons_append, List.cons.injEq] at hmid
          obtain ⟨rfl, -⟩ := hmid
          exact hleft pre a mid rfl b hb

/-- Elements that need nothing follow whatever precedes them. -/
theorem respects_of_free (h : ∀ a ∈ l, ∀ b, ¬ needs a b) : Respects key needs l := by
  rintro pre a post rfl b hb
  exact absurd hb (h a (by simp) b)

/-- A list of keys respects what some element with the key needs. -/
theorem respects_map (hkey : ∀ a ∈ l, ∀ a' ∈ l, key a = key a' → a = a') :
    Respects id (fun k b => ∃ a ∈ l, key a = k ∧ needs a b) (l.map key) ↔
      Respects key needs l := by
  constructor
  · rintro h pre a post rfl b hb
    have hneeds : ∃ a' ∈ pre ++ a :: post, key a' = key a ∧ needs a' b := ⟨a, by simp, rfl, hb⟩
    have hmem := h (pre.map key) (key a) (post.map key) (by simp) b hneeds
    rwa [List.map_id] at hmem
  · rintro h pre k post heq b ⟨a', ha', rfl, hb⟩
    obtain ⟨pre', rest, rfl, rfl, hrest⟩ := List.map_eq_append_iff.mp heq
    obtain ⟨a, post', rfl, hsame, rfl⟩ := List.map_eq_cons_iff.mp hrest
    obtain rfl : a = a' := hkey a (by simp) a' ha' hsame
    rw [List.map_id]
    exact h pre' a post' rfl b hb

end Append

/-- The selected elements before a selected one are those before it in the list. -/
theorem filter_eq_append_cons_iff {p : α → Bool} {l pre post : List α} {a : α} :
    l.filter p = pre ++ a :: post ↔
      ∃ pre' post', l = pre' ++ a :: post' ∧ p a = true ∧ pre'.filter p = pre ∧
        post'.filter p = post := by
  constructor
  · intro h
    obtain ⟨l₁, l₂, rfl, rfl, hl₂⟩ := List.filter_eq_append_iff.mp h
    obtain ⟨skipped, post', rfl, hskipped, ha, rfl⟩ := List.filter_eq_cons_iff.mp hl₂
    refine ⟨l₁ ++ skipped, post', by simp, ha, ?_, rfl⟩
    have hnone : skipped.filter p = [] := List.filter_eq_nil_iff.mpr fun b hb => hskipped b hb
    rw [List.filter_append, hnone, List.append_nil]
  · rintro ⟨pre', post', rfl, ha, rfl, rfl⟩
    rw [List.filter_append, List.filter_cons_of_pos ha]

end Precedence
