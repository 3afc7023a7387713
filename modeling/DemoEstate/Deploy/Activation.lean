import DemoEstate.Deploy.Effects

/-!
# The end of an activation

An activation starts a run on the server and polls it once a second until the server reports its
end or the time is up.  In either case the tool goes on, as it does when the server accepts the
activation without naming a run.

Main definitions:

- Definition {lit}`Completes`: the server had nothing to activate, or the run has completed.
- Definition {lit}`Decides`: an answer that settles the activation.

Main results:

- Theorem {lit}`truthful_iff`: an activation returns only after it completes exactly if one of
  the answers settles it.
-/

namespace DemoEstate
namespace Deploy

open Interaction
open Interaction.Program

/-- The server answered that there is nothing to activate, or a poll of the run it started
answered that it has completed. -/
def Completes (log : List (Exchange Request Ans)) : Prop :=
  ∃ force started, ⟨.activateChanges force, started⟩ ∈ log ∧
    (started.1 = 422 ∨ started.1 = 200 ∧
      ∃ run, given started.2 = some run ∧ ⟨.waitActivation run, (204 : Status)⟩ ∈ log)

/-- The activation returns only after it completes. -/
def Truthful (log : List (Exchange Request Ans)) (out : Option Unit) : Prop :=
  out = some () → Completes log

/-- The answer does not leave the activation open: the start is not accepted, or a poll answers
with something other than a redirect. -/
def Decides : Exchange Request Ans → Prop
  | ⟨.activateChanges _, started⟩ => started.1 ≠ 200
  | ⟨.waitActivation _, status⟩ => status ≠ (302 : Nat) ∧ status ≠ (303 : Nat)
  | _ => False

section Ends

variable {σ : Type} {env : Env σ Request Ans} {s t : σ} {log : List (Exchange Request Ans)}
  {out : Option Unit}

/-- An error ends the tool at once. -/
theorem ends_die {error : Failure} :
    (die error : Setup Unit).Ends env s log out t ↔ log = [] ∧ t = s ∧ out = none :=
  ends_of_isEmpty (inferInstanceAs (IsEmpty Empty))

/-- The wait comes to its end with an answer: it was the success of the run, or an error that
ends the tool. -/
theorem ends_waitForActivation {run : Text} {n : Nat}
    (h : (waitForActivation run n).Ends env s log out t) :
    ((∀ e ∈ log, ¬ Decides e) ∧ out = some ()) ∨
      (⟨.waitActivation run, (204 : Status)⟩ ∈ log ∧ out = some ()) ∨
        ((∃ e ∈ log, Decides e) ∧ out = none) := by
  induction n generalizing s log with
  | zero =>
      obtain ⟨rfl, -, rfl⟩ := ends_done.mp h
      exact Or.inl ⟨fun e he => absurd he List.not_mem_nil, rfl⟩
  | succ n ih =>
      obtain ⟨before, s₁, rest, rfl, -, hrest⟩ := (ends_call ⟨true⟩).mp h
      cases before with
      | false =>
          obtain ⟨rfl, -, rfl⟩ := ends_done.mp hrest
          left
          refine ⟨fun e he => ?_, rfl⟩
          rw [List.mem_singleton.mp he]
          exact id
      | true =>
          obtain ⟨status, s₂, rest₂, rfl, -, hend⟩ := (ends_call ⟨(0 : Nat)⟩).mp hrest
          by_cases hdone : status = (204 : Nat)
          · subst hdone
            obtain ⟨rfl, -, rfl⟩ := ends_done.mp hend
            right
            left
            exact ⟨by simp, rfl⟩
          · rw [if_neg hdone] at hend
            by_cases hredirect : status = (302 : Nat) ∨ status = (303 : Nat)
            · -- the poll leaves the run open, and the wait goes on
              rw [if_pos hredirect] at hend
              have hopen : ¬ Decides ⟨.waitActivation run, status⟩ := by
                rintro ⟨hfound, hother⟩
                exact hredirect.elim hfound hother
              rcases ih hend with ⟨hnone, hout⟩ | ⟨hmem, hout⟩ | ⟨⟨e, he, hdecides⟩, hout⟩
              · left
                refine ⟨fun e he => ?_, hout⟩
                rcases List.mem_cons.mp he with rfl | he
                · exact id
                · rcases List.mem_cons.mp he with rfl | he
                  · exact hopen
                  · exact hnone e he
              · right
                left
                exact ⟨List.mem_cons_of_mem _ (List.mem_cons_of_mem _ hmem), hout⟩
              · right
                right
                exact ⟨⟨e, List.mem_cons_of_mem _ (List.mem_cons_of_mem _ he), hdecides⟩, hout⟩
            · rw [if_neg hredirect] at hend
              obtain ⟨rfl, -, rfl⟩ := ends_die.mp hend
              right
              right
              exact ⟨⟨⟨.waitActivation run, status⟩, by simp, not_or.mp hredirect⟩, rfl⟩

/-- An activation returns only after it completes exactly if one of the answers settles it: where
none does, it returns all the same. -/
theorem truthful_iff {force : Bool} (h : (activate force).Ends env s log out t) :
    Truthful log out ↔ ∃ e ∈ log, Decides e := by
  obtain ⟨started, s₁, rest, rfl, -, hrest⟩ := (ends_call ⟨((0 : Nat), none)⟩).mp h
  have hmem : ⟨.activateChanges force, started⟩ ∈
      (⟨.activateChanges force, started⟩ :: rest : List (Exchange Request Ans)) :=
    List.mem_cons_self
  by_cases hnothing : started.1 = (422 : Nat)
  · refine iff_of_true (fun _ => ⟨force, started, hmem, Or.inl hnothing⟩) ⟨_, hmem, ?_⟩
    simp [Decides, hnothing]
  · rw [if_neg hnothing] at hrest
    by_cases hok : started.1 = (200 : Nat)
    · have hopen : ¬ Decides ⟨.activateChanges force, started⟩ := fun hdecides => hdecides hok
      rw [if_pos hok] at hrest
      cases hrun : given started.2 with
      | none =>
          simp only [hrun] at hrest
          obtain ⟨rfl, -, rfl⟩ := ends_done.mp hrest
          apply iff_of_false
          · intro htrue
            obtain ⟨force', started', hstart, hend⟩ := htrue rfl
            cases List.mem_singleton.mp hstart
            rcases hend with hend | ⟨-, run, hgiven, -⟩
            · exact hnothing hend
            · rw [hrun] at hgiven
              cases hgiven
          · rintro ⟨e, he, hdecides⟩
            rw [List.mem_singleton.mp he] at hdecides
            exact hopen hdecides
      | some run =>
          simp only [hrun] at hrest
          rcases ends_waitForActivation hrest with ⟨hnone, rfl⟩ | ⟨hdone, rfl⟩ | ⟨hsome, rfl⟩
          · apply iff_of_false
            · intro htrue
              obtain ⟨force', started', hstart, hend⟩ := htrue rfl
              rcases hend with hend | ⟨-, run', -, hpoll⟩
              · rcases List.mem_cons.mp hstart with heq | hstart
                · cases heq
                  exact hnothing hend
                · apply hnone _ hstart
                  simp [Decides, hend]
              · rcases List.mem_cons.mp hpoll with heq | hpoll
                · cases heq
                · apply hnone _ hpoll
                  simp [Decides]
            · rintro ⟨e, he, hdecides⟩
              rcases List.mem_cons.mp he with rfl | he
              · exact hopen hdecides
              · exact hnone e he hdecides
          · apply iff_of_true
            · intro _
              exact ⟨force, started, hmem, Or.inr ⟨hok, run, hrun, List.mem_cons_of_mem _ hdone⟩⟩
            · refine ⟨_, List.mem_cons_of_mem _ hdone, ?_⟩
              simp [Decides]
          · obtain ⟨e, he, hdecides⟩ := hsome
            exact iff_of_true (fun hout => nomatch hout) ⟨e, List.mem_cons_of_mem _ he, hdecides⟩
    · -- every other status ends the tool
      have hout : out = none := by
        rw [if_neg hok] at hrest
        split at hrest
        · exact (ends_die.mp hrest).2.2
        · exact (ends_die.mp hrest).2.2
      subst hout
      exact iff_of_true (fun hout => nomatch hout) ⟨_, hmem, hok⟩

end Ends

/-! ## Two activations -/

/-- The server and the clock give any answer. -/
def anyAnswer : Env Unit Request Ans :=
  fun _ _ _ _ => True

/-- The start of a run, and a poll that finds it running. -/
def startedAndPolled : List (Exchange Request Ans) :=
  [⟨.activateChanges false, ((200 : Nat), some "run".toList)⟩, ⟨.beforeDeadline, true⟩,
    ⟨.waitActivation "run".toList, (302 : Nat)⟩]

theorem ends_startedAndPolled {log : List (Exchange Request Ans)} {out : Option Unit}
    (h : (waitForActivation "run".toList 119).Ends anyAnswer () log out ()) :
    (activate false).Ends anyAnswer () (startedAndPolled ++ log) out () :=
  Or.inr ⟨_, (), _, rfl, trivial, Or.inr ⟨_, (), _, rfl, trivial, Or.inr ⟨_, (), _, rfl, trivial, h⟩⟩⟩

theorem truthful_iff_completed : ∃ log, (activate false).Ends anyAnswer () log (some ()) () ∧
    (Truthful log (some ()) ↔ ∃ e ∈ log, Decides e) := by
  have hwait : (waitForActivation "run".toList 119).Ends anyAnswer ()
      [⟨.beforeDeadline, true⟩, ⟨.waitActivation "run".toList, (204 : Nat)⟩] (some ()) () :=
    Or.inr ⟨_, (), _, rfl, trivial, Or.inr ⟨_, (), _, rfl, trivial, rfl, rfl, rfl⟩⟩
  exact ⟨_, ends_startedAndPolled hwait, truthful_iff (ends_startedAndPolled hwait)⟩

/-- The tool also goes on when the time is up before the run has completed. -/
theorem not_truthful_late :
    ¬ ∀ (force : Bool) (log : List (Exchange Request Ans)) (out : Option Unit),
      (activate force).Ends anyAnswer () log out () → Truthful log out := by
  intro hclaim
  have hwait : (waitForActivation "run".toList 119).Ends anyAnswer ()
      [⟨.beforeDeadline, false⟩] (some ()) () :=
    Or.inr ⟨_, (), _, rfl, trivial, rfl, rfl, rfl⟩
  obtain ⟨force, started, hstart, hend⟩ := hclaim false _ _ (ends_startedAndPolled hwait) rfl
  simp only [startedAndPolled, List.cons_append, List.nil_append, List.mem_cons, List.not_mem_nil,
    or_false, reduceCtorEq, Sigma.mk.injEq, false_and] at hstart
  rcases hend with hend | ⟨-, run, -, hpoll⟩
  · obtain ⟨hop, hans⟩ := hstart
    cases hop
    cases hans
    cases hend
  · simp [startedAndPolled] at hpoll

end Deploy
end DemoEstate
