/-
# `Lib.Machine` — a system whose steps are programs

A `Machine` starts in one state and takes a step by running the program of an
enabled action.  A step exists only when the program returns; a stop ends the
run.  A run may be restricted to steps that meet a condition on the state
before the step and the action.

The rule for runs is `Machine.invariant`: what holds at the start and is kept
by every program, in the sense of `wp`, holds in every state of every run.
-/
import TX2SecureUart.Lib.Prog
import Mathlib

namespace TX2SecureUart.Prog

universe u

structure Machine (ε σ : Type) (α : Type u) where
  init : σ
  run : α → EStateM ε σ PUnit
  Enabled : σ → α → Prop

namespace Machine

variable {ε σ : Type} {α : Type u} {M : Machine ε σ α} {ok ok' : σ → α → Prop} {s t : σ} {a : α}

/-- One step that meets the condition. -/
def Step (M : Machine ε σ α) (ok : σ → α → Prop) (s t : σ) : Prop :=
  ∃ a, M.Enabled s a ∧ ok s a ∧ M.run a s = .ok ⟨⟩ t

/-- The states of all runs whose steps meet the condition. -/
def Reachable (M : Machine ε σ α) (ok : σ → α → Prop) : σ → Prop :=
  Relation.ReflTransGen (M.Step ok) M.init

theorem Reachable.init : M.Reachable ok M.init := Relation.ReflTransGen.refl

/-- A run goes on with an action whose program returns. -/
theorem Reachable.step (h : M.Reachable ok s) (hen : M.Enabled s a) (hok : ok s a)
    (hret : returns (M.run a s) = true) : M.Reachable ok (stateOf (M.run a s)) := by
  obtain ⟨⟨⟩, hrun⟩ := eq_ok_of_returns hret
  exact Relation.ReflTransGen.tail h ⟨a, hen, hok, hrun⟩

/-- A weaker condition allows more runs. -/
theorem Reachable.mono (h : M.Reachable ok s) (hok : ∀ s a, ok s a → ok' s a) :
    M.Reachable ok' s :=
  Relation.ReflTransGen.mono (r := M.Step ok) (p := M.Step ok')
    (fun _ _ ⟨a, hen, h, hrun⟩ => ⟨a, hen, hok _ a h, hrun⟩) _ _ h

/-- What holds at the start and is kept by every step holds in every state. -/
theorem invariant {I : σ → Prop} {E : σ → α → ε → σ → Prop} (hinit : I M.init)
    (hstep : ∀ s a, I s → M.Enabled s a → ok s a → wp (M.run a) (fun _ => I) (E s a) s)
    (h : M.Reachable ok s) : I s := by
  induction h with
  | refl => exact hinit
  | tail _ hst ih =>
      obtain ⟨a, hen, hok, hrun⟩ := hst
      exact wp_ok (hstep _ a ih hen hok) hrun

end Machine

end TX2SecureUart.Prog
