import DemoEstate.Library.Program

/-!
# Total correctness of interaction programs

A program completes in an environment if it returns whatever the environment answers: it comes to
no operation that has no answers, and its result meets a condition.  Programs are finite trees, so
that nothing else can keep them from returning.

Main definitions:

- Definition {lit}`Completes`: every execution returns, and the results meet a condition.

Main results:

- Theorem {lit}`completes_bind`: a sequence completes if its first part does, with results from
  which the second part does.
- Theorems {lit}`Completes.seq` and {lit}`completes_seq_iff`: the same with what is known of the
  executions of the first part.
- Theorem {lit}`Completes.exists_runs`: in an environment that always answers there is an execution.
- Theorem {lit}`Completes.ends`: an execution that ends has returned.
-/

namespace Interaction
namespace Program

variable {σ Op : Type} {Ans : Op → Type} {α β : Type} {env : Env σ Op Ans}

/-- From `s` the program returns, whatever the environment answers, and the result meets a
condition. -/
def Completes (env : Env σ Op Ans) : Program Op Ans α → σ → (α → σ → Prop) → Prop
  | done a, s, post => post a s
  | ask op next, s, post =>
      Nonempty (Ans op) ∧ ∀ ans s', env s op ans s' → (next ans).Completes env s' post

@[simp]
theorem completes_done {a : α} {s : σ} {post : α → σ → Prop} :
    (done a).Completes env s post ↔ post a s :=
  Iff.rfl

@[simp]
theorem completes_pure {a : α} {s : σ} {post : α → σ → Prop} :
    (pure a : Program Op Ans α).Completes env s post ↔ post a s :=
  Iff.rfl

theorem completes_ask {op : Op} {next : Ans op → Program Op Ans α} {s : σ} {post : α → σ → Prop} :
    (ask op next).Completes env s post ↔
      Nonempty (Ans op) ∧ ∀ ans s', env s op ans s' → (next ans).Completes env s' post :=
  Iff.rfl

theorem completes_call {op : Op} {f : Ans op → Program Op Ans β} {s : σ} {post : β → σ → Prop} :
    (call op >>= f).Completes env s post ↔
      Nonempty (Ans op) ∧ ∀ ans s', env s op ans s' → (f ans).Completes env s' post :=
  Iff.rfl

/-- Nothing completes that comes to an operation without answers. -/
theorem not_completes_of_isEmpty {op : Op} {next : Ans op → Program Op Ans α} {s : σ}
    {post : α → σ → Prop} (hop : IsEmpty (Ans op)) : ¬ (ask op next).Completes env s post :=
  fun h => h.1.elim hop.elim

/-- A sequence completes if its first part does, with results from which the second part does. -/
theorem completes_bind {p : Program Op Ans α} {f : α → Program Op Ans β} {s : σ}
    {post : β → σ → Prop} :
    (p >>= f).Completes env s post ↔ p.Completes env s fun a t => (f a).Completes env t post := by
  induction p generalizing s with
  | done a => rfl
  | ask op next ih =>
      rw [ask_bind, completes_ask, completes_ask]
      exact and_congr_right fun _ => forall₃_congr fun ans s' _ => ih ans

theorem Completes.mono {p : Program Op Ans α} {s : σ} {post post' : α → σ → Prop}
    (h : p.Completes env s post) (hpost : ∀ a t, post a t → post' a t) :
    p.Completes env s post' := by
  induction p generalizing s with
  | done a => exact hpost a s h
  | ask op next ih => exact ⟨h.1, fun ans s' henv => ih ans (h.2 ans s' henv)⟩

/-- The results of a program that completes are those of its executions. -/
theorem Completes.of_runs {p : Program Op Ans α} {s : σ} {post : α → σ → Prop}
    (h : p.Completes env s post) :
    p.Completes env s fun a t => p.Runs env s a t ∧ post a t := by
  induction p generalizing s with
  | done a => exact ⟨⟨rfl, rfl⟩, h⟩
  | ask op next ih =>
      refine ⟨h.1, fun ans s' henv => (ih ans (h.2 ans s' henv)).mono ?_⟩
      rintro a t ⟨hrun, hpost⟩
      exact ⟨⟨ans, s', henv, hrun⟩, hpost⟩

/-- An execution of a program that completes meets the condition. -/
theorem Completes.apply {p : Program Op Ans α} {s t : σ} {a : α} {post : α → σ → Prop}
    (h : p.Completes env s post) (hrun : p.Runs env s a t) : post a t := by
  induction p generalizing s with
  | done b =>
      rcases hrun with ⟨rfl, rfl⟩
      exact h
  | ask op next ih =>
      rcases hrun with ⟨ans, s', henv, hrest⟩
      exact ih ans (h.2 ans s' henv) hrest

/-- If the first part of a sequence completes, and after each of its executions the second part
does, then the sequence completes. -/
theorem Completes.seq {p : Program Op Ans α} {f : α → Program Op Ans β} {s : σ}
    {post : β → σ → Prop} (h : p.Completes env s fun _ _ => True)
    (hrest : ∀ a t, p.Runs env s a t → (f a).Completes env t post) :
    (p >>= f).Completes env s post :=
  completes_bind.mpr (h.of_runs.mono fun a t ht => hrest a t ht.1)

/-- The first part of a sequence that completes does so too. -/
theorem Completes.left {p : Program Op Ans α} {f : α → Program Op Ans β} {s : σ}
    {post : β → σ → Prop} (h : (p >>= f).Completes env s post) :
    p.Completes env s fun _ _ => True :=
  (completes_bind.mp h).mono fun _ _ _ => trivial

/-- The second part of a sequence that completes does so from wherever the first part ends. -/
theorem Completes.right {p : Program Op Ans α} {f : α → Program Op Ans β} {s t : σ} {a : α}
    {post : β → σ → Prop} (h : (p >>= f).Completes env s post) (hrun : p.Runs env s a t) :
    (f a).Completes env t post :=
  (completes_bind.mp h).apply hrun

/-- In an environment that always answers, a program that completes has an execution. -/
theorem Completes.exists_runs (henv : ∀ s op, Nonempty (Ans op) → ∃ ans t, env s op ans t)
    {p : Program Op Ans α} {s : σ} {post : α → σ → Prop} (h : p.Completes env s post) :
    ∃ a t, p.Runs env s a t ∧ post a t := by
  induction p generalizing s with
  | done a => exact ⟨a, s, ⟨rfl, rfl⟩, h⟩
  | ask op next ih =>
      rcases henv s op h.1 with ⟨ans, s', hans⟩
      rcases ih ans (h.2 ans s' hans) with ⟨a, t, hrun, hpost⟩
      exact ⟨a, t, ⟨ans, s', hans, hrun⟩, hpost⟩

/-- A sequence whose second part completes on one condition from wherever the first part ends. -/
theorem completes_seq_iff (henv : ∀ s op, Nonempty (Ans op) → ∃ ans t, env s op ans t)
    {p : Program Op Ans α} {f : α → Program Op Ans β} {s : σ} {post : β → σ → Prop} {A C : Prop}
    (hp : (p.Completes env s fun _ _ => True) ↔ A)
    (hrest : ∀ a t, p.Runs env s a t → ((f a).Completes env t post ↔ C)) :
    (p >>= f).Completes env s post ↔ A ∧ C := by
  constructor
  · intro h
    rcases h.left.exists_runs henv with ⟨a, t, hrun, -⟩
    exact ⟨hp.mp h.left, (hrest a t hrun).mp (h.right hrun)⟩
  · rintro ⟨hA, hC⟩
    exact (hp.mpr hA).seq fun a t hrun => (hrest a t hrun).mpr hC

/-- An execution of a program that completes does not end before it returns. -/
theorem Completes.ends {p : Program Op Ans α} {s t : σ} {log : List (Exchange Op Ans)}
    {out : Option α} {post : α → σ → Prop} (h : p.Completes env s post)
    (hends : p.Ends env s log out t) : ∃ a, out = some a ∧ post a t := by
  induction p generalizing s log with
  | done a =>
      rcases hends with ⟨-, rfl, rfl⟩
      exact ⟨a, rfl, h⟩
  | ask op next ih =>
      rcases hends with ⟨hempty, -⟩ | ⟨ans, s', rest, -, henv, hrest⟩
      · exact absurd h (not_completes_of_isEmpty hempty)
      · exact ih ans (h.2 ans s' henv) hrest

end Program

end Interaction
