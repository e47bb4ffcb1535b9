import Mathlib.Data.List.Basic
import Mathlib.Tactic.SplitIfs

/-!
# Runs of a system given by a step function

A system is a function `step : σ → α → Option σ`: the action says who moves and what the
environment answers, `none` that the action is not enabled. `Reach step C s₀` holds of the states
of the runs from `s₀` whose steps all meet the condition `C`, a condition on the state before the
step and the action; `Reachable` is the case without a condition.

`Reach.invariant` is the induction rule of a run, `Reach.simulate` carries a run of one system to
a run of another, and `Reach.of_run` and `Reach.of_runIf` make a list of actions, which the kernel
can evaluate, a run.
-/

namespace Runs

variable {σ τ α β : Type*} {step : σ → α → Option σ} {C : σ → α → Prop} {s₀ s s' : σ}

/-- The states of the runs from `s₀` whose steps all meet `C`. -/
inductive Reach (step : σ → α → Option σ) (C : σ → α → Prop) (s₀ : σ) : σ → Prop
  | start : Reach step C s₀ s₀
  | step {s s' : σ} {a : α} :
      Reach step C s₀ s → C s a → step s a = some s' → Reach step C s₀ s'

/-- The states of all runs from `s₀`. -/
abbrev Reachable (step : σ → α → Option σ) (s₀ s : σ) : Prop :=
  Reach step (fun _ _ => True) s₀ s

/-- Take the actions of a list in order. -/
def run (step : σ → α → Option σ) : σ → List α → Option σ
  | s, [] => some s
  | s, a :: as => (step s a).bind fun s' => run step s' as

@[simp] theorem run_nil (s : σ) : run step s [] = some s := rfl

@[simp] theorem run_cons (s : σ) (a : α) (as : List α) :
    run step s (a :: as) = (step s a).bind fun s' => run step s' as := rfl

/-- **Induction over a run.** What holds at the start and is kept by every step holds of every
state reached. -/
theorem Reach.invariant {I : σ → Prop} (h : Reach step C s₀ s) (h₀ : I s₀)
    (hstep : ∀ s a s', I s → C s a → step s a = some s' → I s') : I s := by
  induction h with
  | start => exact h₀
  | step _ hC hs ih => exact hstep _ _ _ ih hC hs

theorem Reach.mono {C' : σ → α → Prop} (h : Reach step C s₀ s)
    (hC : ∀ s a, C s a → C' s a) : Reach step C' s₀ s := by
  induction h with
  | start => exact .start
  | step _ hc hs ih => exact .step ih (hC _ _ hc) hs

theorem Reach.reachable (h : Reach step C s₀ s) : Reachable step s₀ s :=
  h.mono fun _ _ _ => trivial

theorem Reach.trans {s₁ : σ} (h : Reach step C s₀ s₁) (h' : Reach step C s₁ s) :
    Reach step C s₀ s := by
  induction h' with
  | start => exact h
  | step _ hc hs ih => exact .step ih hc hs

theorem Reach.single {a : α} (hC : C s a) (h : step s a = some s') : Reach step C s s' :=
  .step .start hC h

/-- A list of actions that can be taken is a run. -/
theorem Reach.of_run : ∀ {as : List α} {s₀ s : σ},
    Runs.run step s₀ as = some s → Reachable step s₀ s
  | [], s₀, s, h => by
    rw [run_nil, Option.some.injEq] at h
    rw [h]; exact .start
  | a :: as, s₀, s, h => by
    rw [run_cons, Option.bind_eq_some_iff] at h
    obtain ⟨s₁, h₁, h₂⟩ := h
    exact (Reach.single trivial h₁).trans (Reach.of_run h₂)

/-- Take the actions of a list in order, as long as the steps meet `C`. -/
def runIf (step : σ → α → Option σ) (C : σ → α → Prop) [∀ s a, Decidable (C s a)] :
    σ → List α → Option σ
  | s, [] => some s
  | s, a :: as => if C s a then (step s a).bind fun s' => runIf step C s' as else none

/-- A list of actions that can be taken, and meet the condition, is a run. -/
theorem Reach.of_runIf [∀ s a, Decidable (C s a)] : ∀ {as : List α} {s₀ s : σ},
    runIf step C s₀ as = some s → Reach step C s₀ s
  | [], s₀, s, h => by
    rw [runIf, Option.some.injEq] at h
    rw [h]; exact .start
  | a :: as, s₀, s, h => by
    rw [runIf] at h
    split_ifs at h with hC
    obtain ⟨s₁, h₁, h₂⟩ := Option.bind_eq_some_iff.1 h
    exact (Reach.single hC h₁).trans (Reach.of_runIf h₂)

/-- **Simulation.** If each step of the upper system is a run of the lower one between the images
of its two states, each run of the upper system is a run of the lower one. -/
theorem Reach.simulate {step' : τ → β → Option τ} {C' : τ → β → Prop} (f : σ → τ)
    (h : Reach step C s₀ s)
    (hstep : ∀ s a s', Reach step C s₀ s → C s a → step s a = some s' →
      Reach step' C' (f s) (f s')) :
    Reach step' C' (f s₀) (f s) := by
  induction h with
  | start => exact .start
  | step hr hc hs ih => exact ih.trans (hstep _ _ _ hr hc hs)

end Runs
