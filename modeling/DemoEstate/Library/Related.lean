import Mathlib.Data.List.Forall2

/-!
# Lists related element by element

Main results:

- Theorems {lit}`exists_right` and {lit}`exists_left`: every element of one list has a
  partner in the other.
- Theorem {lit}`eq_map`: a list related by a function is its image.
- Theorem {lit}`eq_of_key`: partners of elements with distinct keys are told apart.
-/

namespace List.Forall₂

variable {α β : Type} {R : α → β → Prop} {as : List α} {bs : List β}

/-- Every element on the left has a partner on the right. -/
theorem exists_right (h : List.Forall₂ R as bs) {a : α} (ha : a ∈ as) : ∃ b ∈ bs, R a b := by
  induction h with
  | nil => cases ha
  | cons hr _ ih =>
      rcases List.mem_cons.mp ha with rfl | ha
      · exact ⟨_, List.mem_cons_self, hr⟩
      · rcases ih ha with ⟨b, hb, hab⟩
        exact ⟨b, List.mem_cons_of_mem _ hb, hab⟩

/-- Every element on the right has a partner on the left. -/
theorem exists_left (h : List.Forall₂ R as bs) {b : β} (hb : b ∈ bs) : ∃ a ∈ as, R a b :=
  h.flip.exists_right hb

/-- The partners in a list of pairs whose left parts are images. -/
theorem exists_of_mem_zip {γ : Type} {f : α → γ} (h : List.Forall₂ R as bs) {p : γ × β}
    (hp : p ∈ (as.map f).zip bs) : ∃ a ∈ as, f a = p.1 ∧ R a p.2 := by
  rw [List.zip_map_left, List.mem_map] at hp
  rcases hp with ⟨⟨a, b⟩, hmem, rfl⟩
  exact ⟨a, (List.of_mem_zip hmem).1, rfl, (List.forall₂_iff_zip.mp h).2 hmem⟩

/-- A key of the partners is the same. -/
theorem map_eq_map {κ : Type} {f : α → κ} {g : β → κ} (h : List.Forall₂ R as bs)
    (hkey : ∀ a b, R a b → g b = f a) : bs.map g = as.map f := by
  rw [← List.forall₂_eq_eq_eq, List.forall₂_map_left_iff, List.forall₂_map_right_iff]
  exact h.flip.imp fun b a => hkey a b

/-- Related elements put at one place keep lists related. -/
theorem set (h : List.Forall₂ R as bs) {a : α} {b : β} (hab : R a b) (i : Nat) :
    List.Forall₂ R (as.set i a) (bs.set i b) := by
  induction h generalizing i with
  | nil => exact .nil
  | cons hr hrest ih =>
      cases i with
      | zero => exact .cons hab hrest
      | succ i => exact .cons hr (ih i)

/-- A list that is mapped to its end is related to its images. -/
theorem of_mapM {f : α → Option β} {as : List α} {bs : List β} (h : as.mapM f = some bs) :
    List.Forall₂ (fun a b => f a = some b) as bs := by
  induction as generalizing bs with
  | nil =>
      cases h
      exact .nil
  | cons a as ih =>
      simp only [List.mapM_cons, Option.bind_eq_bind, Option.bind_eq_some_iff, Option.pure_def,
        Option.some.injEq] at h
      rcases h with ⟨b, hb, rest, hrest, rfl⟩
      exact .cons hb (ih hrest)

/-- A list related by a function is its image. -/
theorem eq_map {f : α → β} (h : List.Forall₂ R as bs) (hf : ∀ a ∈ as, ∀ b, R a b → b = f a) :
    bs = as.map f := by
  induction h with
  | nil => rfl
  | cons hr _ ih =>
      rw [List.map_cons, hf _ List.mem_cons_self _ hr,
        ih fun a ha => hf a (List.mem_cons_of_mem _ ha)]

/-- Where the elements on the left have distinct keys, elements on the right whose
partners share a key are equal. -/
theorem eq_of_key {κ : Type} {key : α → κ} (h : List.Forall₂ R as bs)
    (hnodup : (as.map key).Nodup) {b b' : β} (hb : b ∈ bs) (hb' : b' ∈ bs) :
    ∃ a ∈ as, ∃ a' ∈ as, R a b ∧ R a' b' ∧ (key a = key a' → b = b') := by
  induction h with
  | nil => cases hb
  | @cons a b₀ as bs hr hrest ih =>
      rcases List.nodup_cons.mp hnodup with ⟨hfresh, hnodup'⟩
      have hother : ∀ a' ∈ as, key a ≠ key a' := fun a' ha' heq =>
        hfresh (heq ▸ List.mem_map_of_mem ha')
      rcases List.mem_cons.mp hb with rfl | hbs
      · rcases List.mem_cons.mp hb' with rfl | hbs'
        · exact ⟨a, List.mem_cons_self, a, List.mem_cons_self, hr, hr, fun _ => rfl⟩
        · rcases hrest.exists_left hbs' with ⟨a', ha', hr'⟩
          exact ⟨a, List.mem_cons_self, a', List.mem_cons_of_mem _ ha', hr, hr',
            fun heq => absurd heq (hother a' ha')⟩
      · rcases List.mem_cons.mp hb' with rfl | hbs'
        · rcases hrest.exists_left hbs with ⟨a', ha', hr'⟩
          exact ⟨a', List.mem_cons_of_mem _ ha', a, List.mem_cons_self, hr', hr,
            fun heq => absurd heq.symm (hother a' ha')⟩
        · rcases ih hnodup' hbs hbs' with ⟨a₁, ha₁, a₂, ha₂, hr₁, hr₂, heq⟩
          exact ⟨a₁, List.mem_cons_of_mem _ ha₁, a₂, List.mem_cons_of_mem _ ha₂, hr₁, hr₂, heq⟩

end List.Forall₂
