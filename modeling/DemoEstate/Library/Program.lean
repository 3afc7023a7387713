import Mathlib.Data.List.Basic

/-!
# Programs that talk to an environment

A program either returns a value or performs an operation and continues with
the environment's answer.  The operations, their answer types and the
environment are parameters.  An operation with an empty answer type ends the
program.  A handler answers every operation by a function of its state; an
environment answers by a relation and so leaves room for failure and choice.

Main results:

- Theorems {lit}`runs_bind` and {lit}`traces_bind`: a sequence of two programs is
  executed by executing one after the other.
- Theorem {lit}`runs_of_run`: a handled execution is one the handler's graph
  allows.
- Theorem {lit}`Runs.invariant`: what every answer preserves, a program
  preserves.
- Theorem {lit}`Asks.invariant`: what the answers to the operations a program may ask
  preserve, its execution preserves.
- Theorems {lit}`Ensures.of_runs` and {lit}`Ensures.run`: under a contract with
  its environment or handler, a program returns what it ensures.
-/

namespace Interaction

/-- A program over operations `Op` with answers `Ans`, returning an `α`. -/
inductive Program (Op : Type) (Ans : Op → Type) (α : Type) : Type
  | done (value : α)
  | ask (op : Op) (next : Ans op → Program Op Ans α)

variable {Op : Type} {Ans : Op → Type} {α β γ σ : Type}

namespace Program

/-- Run the second program on the value the first one returns. -/
def bind : Program Op Ans α → (α → Program Op Ans β) → Program Op Ans β
  | done a, f => f a
  | ask op next, f => ask op fun ans => (next ans).bind f

instance : Monad (Program Op Ans) where
  pure := done
  bind := bind

/-- Perform one operation and return its answer. -/
def call (op : Op) : Program Op Ans (Ans op) :=
  ask op done

@[simp]
theorem pure_eq_done (a : α) : (pure a : Program Op Ans α) = done a :=
  rfl

@[simp]
theorem done_bind (a : α) (f : α → Program Op Ans β) : (done a >>= f) = f a :=
  rfl

@[simp]
theorem ask_bind (op : Op) (next : Ans op → Program Op Ans α) (f : α → Program Op Ans β) :
    (ask op next >>= f) = ask op fun ans => next ans >>= f :=
  rfl

@[simp]
theorem call_bind (op : Op) (f : Ans op → Program Op Ans β) :
    (call op >>= f) = ask op f :=
  rfl

theorem bind_done (p : Program Op Ans α) : (p >>= done) = p := by
  induction p with
  | done a => rfl
  | ask op next ih => exact congrArg (ask op) (funext ih)

theorem bind_assoc (p : Program Op Ans α) (f : α → Program Op Ans β)
    (g : β → Program Op Ans γ) : (p >>= f) >>= g = p >>= fun a => f a >>= g := by
  induction p with
  | done a => rfl
  | ask op next ih => exact congrArg (ask op) (funext ih)

instance : LawfulMonad (Program Op Ans) :=
  LawfulMonad.mk' (Program Op Ans) bind_done (fun _ _ => rfl) bind_assoc

/-! ## Handled executions -/

/-- A handler answers an operation from its state, or refuses it. -/
abbrev Handler (σ Op : Type) (Ans : Op → Type) :=
  σ → (op : Op) → Option (Ans op × σ)

/-- Execute a program under a handler. -/
def run (h : Handler σ Op Ans) : Program Op Ans α → σ → Option (α × σ)
  | done a, s => some (a, s)
  | ask op next, s =>
      match h s op with
      | none => none
      | some (ans, s') => (next ans).run h s'

@[simp]
theorem run_done (h : Handler σ Op Ans) (a : α) (s : σ) :
    (done a).run h s = some (a, s) :=
  rfl

theorem run_ask (h : Handler σ Op Ans) (op : Op) (next : Ans op → Program Op Ans α)
    (s : σ) :
    (ask op next).run h s = (h s op).bind fun r => (next r.1).run h r.2 := by
  simp only [run]
  cases h s op <;> rfl

/-! ## Executions in an environment -/

/-- An environment relates a state, an operation, an answer and the next state. -/
abbrev Env (σ Op : Type) (Ans : Op → Type) :=
  σ → (op : Op) → Ans op → σ → Prop

/-- The executions of a program that return. -/
def Runs (env : Env σ Op Ans) : Program Op Ans α → σ → α → σ → Prop
  | done a, s, b, t => b = a ∧ t = s
  | ask op next, s, b, t => ∃ ans s', env s op ans s' ∧ (next ans).Runs env s' b t

variable {env : Env σ Op Ans}

@[simp]
theorem runs_done {a b : α} {s t : σ} :
    (done a).Runs env s b t ↔ b = a ∧ t = s :=
  Iff.rfl

@[simp]
theorem runs_ask {op : Op} {next : Ans op → Program Op Ans α} {s t : σ} {b : α} :
    (ask op next).Runs env s b t ↔
      ∃ ans s', env s op ans s' ∧ (next ans).Runs env s' b t :=
  Iff.rfl

theorem runs_call {op : Op} {f : Ans op → Program Op Ans β} {s t : σ} {b : β} :
    (call op >>= f).Runs env s b t ↔ ∃ ans s', env s op ans s' ∧ (f ans).Runs env s' b t :=
  Iff.rfl

/-- A sequence returns when both parts do, the second from where the first ended. -/
theorem runs_bind {p : Program Op Ans α} {f : α → Program Op Ans β} {s t : σ} {b : β} :
    (p >>= f).Runs env s b t ↔ ∃ a u, p.Runs env s a u ∧ (f a).Runs env u b t := by
  induction p generalizing s with
  | done a => simp
  | ask op next ih =>
      simp only [ask_bind, runs_ask, ih]
      constructor
      · rintro ⟨ans, s', henv, a, u, hp, hf⟩
        exact ⟨a, u, ⟨ans, s', henv, hp⟩, hf⟩
      · rintro ⟨a, u, ⟨ans, s', henv, hp⟩, hf⟩
        exact ⟨ans, s', henv, a, u, hp, hf⟩

/-- The environment that answers as a handler does. -/
def Answering (h : Handler σ Op Ans) : Env σ Op Ans :=
  fun s op ans s' => h s op = some (ans, s')

/-- A handled execution is one the handler's environment allows. -/
theorem runs_of_run {h : Handler σ Op Ans} {p : Program Op Ans α} {s t : σ} {a : α}
    (hrun : p.run h s = some (a, t)) : p.Runs (Answering h) s a t := by
  induction p generalizing s with
  | done b =>
      simp only [run_done, Option.some.injEq, Prod.mk.injEq] at hrun
      exact ⟨hrun.1.symm, hrun.2.symm⟩
  | ask op next ih =>
      rw [run_ask, Option.bind_eq_some_iff] at hrun
      rcases hrun with ⟨⟨ans, s'⟩, hans, hnext⟩
      exact ⟨ans, s', hans, ih ans hnext⟩

/-- More answers allow more executions. -/
theorem Runs.mono {env' : Env σ Op Ans} (henv : ∀ s op ans t, env s op ans t → env' s op ans t)
    {p : Program Op Ans α} {s t : σ} {a : α} (h : p.Runs env s a t) : p.Runs env' s a t := by
  induction p generalizing s with
  | done b => exact h
  | ask op next ih =>
      rcases h with ⟨ans, s', hstep, hrest⟩
      exact ⟨ans, s', henv _ _ _ _ hstep, ih ans hrest⟩

/-- What every answer preserves, an execution preserves. -/
theorem Runs.invariant {I : σ → Prop}
    (hstep : ∀ s op ans t, I s → env s op ans t → I t)
    {p : Program Op Ans α} {s t : σ} {a : α} (h : p.Runs env s a t) (hs : I s) : I t := by
  induction p generalizing s with
  | done b =>
      rcases h with ⟨_, rfl⟩
      exact hs
  | ask op next ih =>
      rcases h with ⟨ans, s', henv, hrest⟩
      exact ih ans hrest (hstep _ _ _ _ hs henv)

/-! ## What a program ensures under a contract -/

/-- What a program may ask, and what it is answered. -/
structure Contract (Op : Type) (Ans : Op → Type) where
  asks : Op → Prop
  answers : (op : Op) → Ans op → Prop

/-- The program keeps to the contract as long as its answers do, and what it then
returns satisfies `post`. -/
def Ensures (c : Contract Op Ans) (post : α → Prop) : Program Op Ans α → Prop
  | done a => post a
  | ask op next => c.asks op ∧ ∀ ans, c.answers op ans → (next ans).Ensures c post

variable {c : Contract Op Ans}

@[simp]
theorem ensures_done {post : α → Prop} {a : α} :
    (done a : Program Op Ans α).Ensures c post ↔ post a :=
  Iff.rfl

/-- A sequence ensures what its second part ensures of the values the first returns. -/
theorem ensures_bind {post : β → Prop} {p : Program Op Ans α} {f : α → Program Op Ans β} :
    (p >>= f).Ensures c post ↔ p.Ensures c fun a => (f a).Ensures c post := by
  induction p with
  | done a => rfl
  | ask op next ih =>
      exact and_congr_right fun _ => forall_congr' fun ans => imp_congr_right fun _ => ih ans

/-- The first operation of a sequence. -/
theorem ensures_call {post : β → Prop} {op : Op} {f : Ans op → Program Op Ans β}
    (hasks : c.asks op) (h : ∀ ans, c.answers op ans → (f ans).Ensures c post) :
    (call op >>= f).Ensures c post :=
  ⟨hasks, h⟩

/-- A program ensures everything that follows from what it ensures. -/
theorem Ensures.mono {post post' : α → Prop} (hpost : ∀ a, post a → post' a)
    {p : Program Op Ans α} (h : p.Ensures c post) : p.Ensures c post' := by
  induction p with
  | done a => exact hpost a h
  | ask op next ih => exact ⟨h.1, fun ans hans => ih ans (h.2 ans hans)⟩

/-- In an environment that answers by the contract, a program returns what it ensures. -/
theorem Ensures.of_runs {post : α → Prop} {I : σ → Prop}
    (henv : ∀ s op ans t, I s → c.asks op → env s op ans t → c.answers op ans ∧ I t)
    {p : Program Op Ans α} (h : p.Ensures c post) {s t : σ} {a : α} (hrun : p.Runs env s a t)
    (hs : I s) : post a ∧ I t := by
  induction p generalizing s with
  | done b =>
      rcases hrun with ⟨rfl, rfl⟩
      exact ⟨h, hs⟩
  | ask op next ih =>
      rcases hrun with ⟨ans, s', hans, hrest⟩
      rcases henv _ _ _ _ hs h.1 hans with ⟨hgood, hs'⟩
      exact ih ans (h.2 ans hgood) hrest hs'

/-- A handler that answers whatever may be asked executes the program to its end. -/
theorem Ensures.run {post : α → Prop} {handler : Handler σ Op Ans} {I : σ → Prop}
    (hhandler : ∀ s op, I s → c.asks op →
      ∃ ans s', handler s op = some (ans, s') ∧ c.answers op ans ∧ I s')
    {p : Program Op Ans α} (h : p.Ensures c post) {s : σ} (hs : I s) :
    ∃ a t, p.run handler s = some (a, t) ∧ post a ∧ I t := by
  induction p generalizing s with
  | done a => exact ⟨a, s, rfl, h, hs⟩
  | ask op next ih =>
      rcases hhandler s op hs h.1 with ⟨ans, s', hans, hgood, hs'⟩
      rcases ih ans (h.2 ans hgood) hs' with ⟨a, t, hrun, hpost, ht⟩
      refine ⟨a, t, ?_, hpost, ht⟩
      rw [run_ask, hans]
      exact hrun

/-! ## What a program may ask at all -/

/-- Every operation that the program may perform meets a condition. -/
def Asks (P : Op → Prop) : Program Op Ans α → Prop
  | done _ => True
  | ask op next => P op ∧ ∀ ans, (next ans).Asks P

section Asks

variable {P : Op → Prop}

@[simp]
theorem asks_done (a : α) : (done a : Program Op Ans α).Asks P :=
  trivial

@[simp]
theorem asks_ask {op : Op} {next : Ans op → Program Op Ans α} :
    (ask op next).Asks P ↔ P op ∧ ∀ ans, (next ans).Asks P :=
  Iff.rfl

/-- A sequence asks what its parts ask. -/
theorem Asks.bind {p : Program Op Ans α} {f : α → Program Op Ans β} (hp : p.Asks P)
    (hf : ∀ a, (f a).Asks P) : (p >>= f).Asks P := by
  induction p with
  | done a => exact hf a
  | ask op next ih => exact ⟨hp.1, fun ans => ih ans (hp.2 ans)⟩

/-- The first operation of a sequence. -/
theorem asks_call {op : Op} {f : Ans op → Program Op Ans β} (hop : P op)
    (hf : ∀ ans, (f ans).Asks P) : (call op >>= f).Asks P :=
  ⟨hop, hf⟩

theorem Asks.mono {Q : Op → Prop} (hPQ : ∀ op, P op → Q op) {p : Program Op Ans α}
    (h : p.Asks P) : p.Asks Q := by
  induction p with
  | done a => trivial
  | ask op next ih => exact ⟨hPQ op h.1, fun ans => ih ans (h.2 ans)⟩

/-- Under a contract that allows every answer, a program asks what the contract allows. -/
theorem Ensures.asks {post : α → Prop} (hanswers : ∀ op ans, c.answers op ans)
    {p : Program Op Ans α} (h : p.Ensures c post) : p.Asks c.asks := by
  induction p with
  | done a => trivial
  | ask op next ih => exact ⟨h.1, fun ans => ih ans (h.2 ans (hanswers op ans))⟩

/-- An environment that answers whatever may be asked executes the program to its end. -/
theorem Asks.exists_runs (henv : ∀ s op, P op → ∃ ans t, env s op ans t) {p : Program Op Ans α}
    (h : p.Asks P) (s : σ) : ∃ a t, p.Runs env s a t := by
  induction p generalizing s with
  | done a => exact ⟨a, s, rfl, rfl⟩
  | ask op next ih =>
      rcases henv s op h.1 with ⟨ans, s', hans⟩
      rcases ih ans (h.2 ans) s' with ⟨a, t, hrest⟩
      exact ⟨a, t, ans, s', hans, hrest⟩

/-- Two environments that answer alike what a program may ask execute it alike. -/
theorem Asks.runs_mono {env' : Env σ Op Ans}
    (henv : ∀ s op ans t, P op → env s op ans t → env' s op ans t) {p : Program Op Ans α}
    (h : p.Asks P) {s t : σ} {a : α} (hrun : p.Runs env s a t) : p.Runs env' s a t := by
  induction p generalizing s with
  | done b => exact hrun
  | ask op next ih =>
      rcases hrun with ⟨ans, s', hstep, hrest⟩
      exact ⟨ans, s', henv s op ans s' h.1 hstep, ih ans (h.2 ans) hrest⟩

/-- What the answers to the operations a program may ask preserve, its execution preserves. -/
theorem Asks.invariant {I : σ → Prop} {p : Program Op Ans α} (h : p.Asks P)
    (hstep : ∀ s op ans t, P op → I s → env s op ans t → I t) {s t : σ} {a : α}
    (hrun : p.Runs env s a t) (hs : I s) : I t := by
  induction p generalizing s with
  | done b =>
      rcases hrun with ⟨-, rfl⟩
      exact hs
  | ask op next ih =>
      rcases hrun with ⟨ans, s', hans, hrest⟩
      exact ih ans (h.2 ans) hrest (hstep s op ans s' h.1 hs hans)

end Asks

/-! ## Logged executions, complete or cut short -/

/-- One operation with its answer. -/
abbrev Exchange (Op : Type) (Ans : Op → Type) :=
  (op : Op) × Ans op

/-- From `s` the program exchanges `log` with its environment and is then in
`t`; it has returned `some a`, or was cut short there with `none`. -/
def Traces (env : Env σ Op Ans) :
    Program Op Ans α → σ → List (Exchange Op Ans) → Option α → σ → Prop
  | done a, s, log, out, t => log = [] ∧ t = s ∧ (out = some a ∨ out = none)
  | ask op next, s, log, out, t =>
      (log = [] ∧ t = s ∧ out = none) ∨
        ∃ ans s' rest, log = ⟨op, ans⟩ :: rest ∧ env s op ans s' ∧
          (next ans).Traces env s' rest out t

/-- A logged execution of a sequence is cut short in the first part, or runs
through it into a logged execution of the second. -/
theorem traces_bind {p : Program Op Ans α} {f : α → Program Op Ans β} {s t : σ}
    {log : List (Exchange Op Ans)} {out : Option β} :
    (p >>= f).Traces env s log out t ↔
      (out = none ∧ p.Traces env s log none t) ∨
        ∃ a u log₁ log₂, log = log₁ ++ log₂ ∧ p.Traces env s log₁ (some a) u ∧
          (f a).Traces env u log₂ out t := by
  induction p generalizing s log with
  | done a =>
      constructor
      · intro h
        exact Or.inr ⟨a, s, [], log, rfl, ⟨rfl, rfl, Or.inl rfl⟩, h⟩
      · rintro (⟨hout, hlog, hst, -⟩ | ⟨a', u, log₁, log₂, hlog, ⟨h₁, hu, ha⟩, h⟩)
        · subst hlog hst hout
          cases hf : f a with
          | done b => simp [hf, Traces]
          | ask op next => simp [hf, Traces]
        · simp only [Option.some.injEq, reduceCtorEq, or_false] at ha
          subst h₁ hu ha hlog
          simpa using h
  | ask op next ih =>
      simp only [ask_bind, Traces, ih]
      constructor
      · rintro (⟨hlog, hst, hout⟩ | ⟨ans, s', rest, hlog, henv, h⟩)
        · exact Or.inl ⟨hout, Or.inl ⟨hlog, hst, trivial⟩⟩
        · rcases h with ⟨hout, hcut⟩ | ⟨a, u, log₁, log₂, hrest, hp, hf⟩
          · exact Or.inl ⟨hout, Or.inr ⟨ans, s', rest, hlog, henv, hcut⟩⟩
          · refine Or.inr ⟨a, u, ⟨op, ans⟩ :: log₁, log₂, ?_, ?_, hf⟩
            · rw [hlog, hrest, List.cons_append]
            · exact Or.inr ⟨ans, s', log₁, rfl, henv, hp⟩
      · rintro (⟨hout, hcut⟩ | ⟨a, u, log₁, log₂, hlog, hp, hf⟩)
        · rcases hcut with ⟨hlog, hst, -⟩ | ⟨ans, s', rest, hlog, henv, h⟩
          · exact Or.inl ⟨hlog, hst, hout⟩
          · exact Or.inr ⟨ans, s', rest, hlog, henv, Or.inl ⟨hout, h⟩⟩
        · rcases hp with ⟨-, -, hnone⟩ | ⟨ans, s', rest, hrest, henv, h⟩
          · exact absurd hnone (by simp)
          · refine Or.inr ⟨ans, s', rest ++ log₂, ?_, henv, Or.inr ⟨a, u, rest, log₂, rfl, h, hf⟩⟩
            rw [hlog, hrest, List.cons_append]

/-- A logged execution performs only operations that the program may ask. -/
theorem Asks.log {P : Op → Prop} {p : Program Op Ans α} (h : p.Asks P) {s t : σ}
    {log : List (Exchange Op Ans)} {out : Option α} (htraces : p.Traces env s log out t)
    {e : Exchange Op Ans} (he : e ∈ log) : P e.1 := by
  induction p generalizing s log with
  | done b =>
      rcases htraces with ⟨rfl, -⟩
      exact absurd he List.not_mem_nil
  | ask op next ih =>
      rcases htraces with ⟨rfl, -⟩ | ⟨ans, s', rest, rfl, -, hrest⟩
      · exact absurd he List.not_mem_nil
      · rcases List.mem_cons.mp he with rfl | he
        · exact h.1
        · exact ih ans (h.2 ans) hrest he

/-- A complete logged execution is an execution that returns. -/
theorem runs_of_traces {p : Program Op Ans α} {s t : σ} {log : List (Exchange Op Ans)}
    {a : α} (h : p.Traces env s log (some a) t) : p.Runs env s a t := by
  induction p generalizing s log with
  | done b =>
      rcases h with ⟨-, rfl, hout⟩
      simp only [Option.some.injEq, reduceCtorEq, or_false] at hout
      exact ⟨hout, rfl⟩
  | ask op next ih =>
      rcases h with ⟨-, -, hnone⟩ | ⟨ans, s', rest, -, henv, hrest⟩
      · exact absurd hnone (by simp)
      · exact ⟨ans, s', henv, ih ans hrest⟩

/-- An execution that returns has a complete log. -/
theorem exists_traces_of_runs {p : Program Op Ans α} {s t : σ} {a : α}
    (h : p.Runs env s a t) : ∃ log, p.Traces env s log (some a) t := by
  induction p generalizing s with
  | done b =>
      rcases h with ⟨rfl, rfl⟩
      exact ⟨[], rfl, rfl, Or.inl rfl⟩
  | ask op next ih =>
      rcases h with ⟨ans, s', henv, hrest⟩
      rcases ih ans hrest with ⟨log, hlog⟩
      exact ⟨⟨op, ans⟩ :: log, Or.inr ⟨ans, s', log, rfl, henv, hlog⟩⟩

/-- A complete logged execution of a sequence, split where the second part begins. -/
theorem traces_bind_some {p : Program Op Ans α} {f : α → Program Op Ans β} {s t : σ}
    {log : List (Exchange Op Ans)} {b : β} (h : (p >>= f).Traces env s log (some b) t) :
    ∃ a u log₁ log₂, log = log₁ ++ log₂ ∧ p.Traces env s log₁ (some a) u ∧
      (f a).Traces env u log₂ (some b) t := by
  rcases traces_bind.mp h with ⟨hnone, -⟩ | hrest
  · exact nomatch hnone
  · exact hrest

/-- A logged execution is cut short at once, or begins with the first operation. -/
theorem traces_call {op : Op} {f : Ans op → Program Op Ans β} {s t : σ}
    {log : List (Exchange Op Ans)} {out : Option β} :
    (call op >>= f).Traces env s log out t ↔
      (log = [] ∧ t = s ∧ out = none) ∨
        ∃ ans s' rest, log = ⟨op, ans⟩ :: rest ∧ env s op ans s' ∧
          (f ans).Traces env s' rest out t :=
  Iff.rfl

/-- A complete logged execution begins with the first operation of the program. -/
theorem traces_call_some {op : Op} {f : Ans op → Program Op Ans β} {s t : σ}
    {log : List (Exchange Op Ans)} {b : β} (h : (call op >>= f).Traces env s log (some b) t) :
    ∃ ans s' rest, log = ⟨op, ans⟩ :: rest ∧ env s op ans s' ∧
      (f ans).Traces env s' rest (some b) t := by
  rcases h with ⟨-, -, hnone⟩ | hrest
  · exact nomatch hnone
  · exact hrest

/-- From `s` the program comes to the program `q` in the state `u` by exchanging `log`. -/
def Reaches (env : Env σ Op Ans) (p : Program Op Ans α) (s : σ) (log : List (Exchange Op Ans))
    (q : Program Op Ans α) (u : σ) : Prop :=
  ∀ rest out t, q.Traces env u rest out t → p.Traces env s (log ++ rest) out t

theorem Reaches.trans {p q r : Program Op Ans α} {s u v : σ} {log log' : List (Exchange Op Ans)}
    (h : Reaches env p s log q u) (h' : Reaches env q u log' r v) :
    Reaches env p s (log ++ log') r v := by
  intro rest out t hrest
  rw [List.append_assoc]
  exact h _ _ _ (h' _ _ _ hrest)

/-- A sequence comes to its second part by executing the first. -/
theorem reaches_bind {p : Program Op Ans α} {f : α → Program Op Ans β} {s u : σ}
    {log : List (Exchange Op Ans)} {a : α} (h : p.Traces env s log (some a) u) :
    Reaches env (p >>= f) s log (f a) u :=
  fun rest _ _ hrest => traces_bind.mpr (Or.inr ⟨a, u, log, rest, rfl, h, hrest⟩)

/-- A logged operation that the first part of a sequence may not ask belongs to the second. -/
theorem Asks.skip {P : Op → Prop} {p : Program Op Ans α} {f : α → Program Op Ans β} (hp : p.Asks P)
    {s t : σ} {log : List (Exchange Op Ans)} {out : Option β}
    (h : (p >>= f).Traces env s log out t) {e : Exchange Op Ans} (he : e ∈ log) (hnot : ¬ P e.1) :
    ∃ a u log₁ log₂, log = log₁ ++ log₂ ∧ e ∈ log₂ ∧ p.Traces env s log₁ (some a) u ∧
      (f a).Traces env u log₂ out t := by
  rcases traces_bind.mp h with ⟨-, hfirst⟩ | ⟨a, u, log₁, log₂, rfl, hfirst, hsecond⟩
  · exact absurd (hp.log hfirst he) hnot
  · refine ⟨a, u, log₁, log₂, rfl, ?_, hfirst, hsecond⟩
    rcases List.mem_append.mp he with he | he
    · exact absurd (hp.log hfirst he) hnot
    · exact he

/-- An execution with a last operation was cut short before it. -/
theorem traces_concat {p : Program Op Ans α} {s t : σ} {log : List (Exchange Op Ans)} {op : Op}
    {ans : Ans op} {out : Option α} (h : p.Traces env s (log ++ [⟨op, ans⟩]) out t) :
    ∃ u, p.Traces env s log none u ∧ env u op ans t := by
  induction p generalizing s log with
  | done a => exact absurd h.1 (by simp)
  | ask op' next ih =>
      rcases h with ⟨hnil, -⟩ | ⟨ans', s', rest, hlog, henv, hrest⟩
      · exact absurd hnil (by simp)
      · cases log with
        | nil =>
            obtain ⟨heq, rfl⟩ := List.cons.inj hlog
            cases heq
            refine ⟨s, Or.inl ⟨rfl, rfl, rfl⟩, ?_⟩
            have hend : t = s' := by
              cases hnext : next ans with
              | done a => rw [hnext] at hrest; exact hrest.2.1
              | ask op'' next' =>
                  rw [hnext] at hrest
                  rcases hrest with ⟨-, hend, -⟩ | ⟨_, _, _, hno, -⟩
                  · exact hend
                  · cases hno
            rw [hend]
            exact henv
        | cons e log =>
            obtain ⟨rfl, rfl⟩ := List.cons.inj hlog
            obtain ⟨u, hu, hlast⟩ := ih ans' hrest
            exact ⟨u, Or.inr ⟨ans', s', log, rfl, henv, hu⟩, hlast⟩

/-- What every answer preserves, also an execution cut short preserves. -/
theorem Traces.invariant {I : σ → Prop}
    (hstep : ∀ s op ans t, I s → env s op ans t → I t)
    {p : Program Op Ans α} {s t : σ} {log : List (Exchange Op Ans)} {out : Option α}
    (h : p.Traces env s log out t) (hs : I s) : I t := by
  induction p generalizing s log with
  | done b =>
      rcases h with ⟨-, rfl, -⟩
      exact hs
  | ask op next ih =>
      rcases h with ⟨-, rfl, -⟩ | ⟨ans, s', rest, -, henv, hrest⟩
      · exact hs
      · exact ih ans hrest (hstep _ _ _ _ hs henv)

/-- What the answers to the operations a program may ask preserve, also an execution cut short
preserves. -/
theorem Asks.traces_invariant {P : Op → Prop} {I : σ → Prop} {p : Program Op Ans α} (h : p.Asks P)
    (hstep : ∀ s op ans t, P op → I s → env s op ans t → I t) {s t : σ}
    {log : List (Exchange Op Ans)} {out : Option α} (htraces : p.Traces env s log out t)
    (hs : I s) : I t := by
  induction p generalizing s log with
  | done b =>
      rcases htraces with ⟨-, rfl, -⟩
      exact hs
  | ask op next ih =>
      rcases htraces with ⟨-, rfl, -⟩ | ⟨ans, s', rest, -, henv, hrest⟩
      · exact hs
      · exact ih ans (h.2 ans) hrest (hstep s op ans s' h.1 hs henv)

/-! ## Executions that end -/

/-- From `s` the program exchanges `log` with its environment until it returns `some a`, or comes
to an operation without an answer and ends with `none`. -/
def Ends (env : Env σ Op Ans) :
    Program Op Ans α → σ → List (Exchange Op Ans) → Option α → σ → Prop
  | done a, s, log, out, t => log = [] ∧ t = s ∧ out = some a
  | ask op next, s, log, out, t =>
      (IsEmpty (Ans op) ∧ log = [] ∧ t = s ∧ out = none) ∨
        ∃ ans s' rest, log = ⟨op, ans⟩ :: rest ∧ env s op ans s' ∧
          (next ans).Ends env s' rest out t

theorem ends_done {a : α} {s t : σ} {log : List (Exchange Op Ans)} {out : Option α} :
    (done a : Program Op Ans α).Ends env s log out t ↔ log = [] ∧ t = s ∧ out = some a :=
  Iff.rfl

/-- An execution that ends begins with the answer to its first operation, if that has answers. -/
theorem ends_call {op : Op} {f : Ans op → Program Op Ans β} {s t : σ}
    {log : List (Exchange Op Ans)} {out : Option β} (hop : Nonempty (Ans op)) :
    (call op >>= f).Ends env s log out t ↔
      ∃ ans s' rest, log = ⟨op, ans⟩ :: rest ∧ env s op ans s' ∧
        (f ans).Ends env s' rest out t := by
  constructor
  · rintro (⟨hempty, -⟩ | h)
    · obtain ⟨ans⟩ := hop
      exact hempty.elim ans
    · exact h
  · exact Or.inr

/-- An operation without an answer ends the program. -/
theorem ends_of_isEmpty {op : Op} {next : Ans op → Program Op Ans α} {s t : σ}
    {log : List (Exchange Op Ans)} {out : Option α} (hop : IsEmpty (Ans op)) :
    (ask op next).Ends env s log out t ↔ log = [] ∧ t = s ∧ out = none := by
  constructor
  · rintro (⟨-, h⟩ | ⟨ans, -⟩)
    · exact h
    · exact hop.elim ans
  · exact fun h => Or.inl ⟨hop, h⟩

end Program

end Interaction
