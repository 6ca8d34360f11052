import Mathlib.Computability.StateTransition
import Mathlib.Tactic.Common

namespace StateTransition

variable {σ τ : Type*} {step : σ → Option σ} {step' : τ → Option τ}

/-- The state after a number of steps. -/
def after (step : σ → Option σ) (s : σ) : Nat → Option σ
  | 0 => some s
  | n + 1 => (after step s n).bind step

theorem reaches_of_after {s t : σ} {n : Nat} (ran : after step s n = some t) : Reaches step s t := by
  induction n generalizing t with
  | zero =>
    cases ran
    exact .refl
  | succ n ih =>
    obtain ⟨before, reached, last⟩ := Option.bind_eq_some_iff.mp ran
    exact (ih reached).tail last

/-- The first step apart. -/
theorem after_succ (s : σ) (n : Nat) : after step s (n + 1) = (step s).bind (fun t => after step t n) := by
  induction n with
  | zero =>
    show (some s).bind step = (step s).bind some
    rw [Option.bind_some, Option.bind_fun_some]
  | succ n ih =>
    rw [after, ih, Option.bind_assoc]
    rfl

/-- A run has only one end. -/
theorem reaches_end_unique {s t u : σ} (first : Reaches step s t) (ends : step t = none) (second : Reaches step s u)
    (ends' : step u = none) : t = u :=
  Part.mem_unique (mem_eval.mpr ⟨first, ends⟩) (mem_eval.mpr ⟨second, ends'⟩)

/-- What the first machine does from a state, the second does from a related one;
where the first stops, the second may go on. -/
def LockStep (step : σ → Option σ) (step' : τ → Option τ) (related : σ → τ → Prop) : Prop :=
  ∀ s s', related s s' → ∀ t, step s = some t → ∃ t', step' s' = some t' ∧ related t t'

namespace LockStep

variable {related : σ → τ → Prop} {s t : σ} {s' : τ}

/-- Whatever the first machine comes to, the second comes to in as many steps. -/
theorem after (lock : LockStep step step' related) (start : related s s') {n : Nat}
    (ran : StateTransition.after step s n = some t) :
    ∃ t', StateTransition.after step' s' n = some t' ∧ related t t' := by
  induction n generalizing t with
  | zero =>
    cases ran
    exact ⟨s', rfl, start⟩
  | succ n ih =>
    obtain ⟨before, reached, last⟩ := Option.bind_eq_some_iff.mp ran
    obtain ⟨before', reached', same⟩ := ih reached
    obtain ⟨t', taken, related⟩ := lock before before' same t last
    exact ⟨t', by rw [StateTransition.after, reached']; exact taken, related⟩

end LockStep

/-- Two machines that agree on each step from inside some set of states agree on
every number of steps that does not take the first out of it. -/
theorem after_rel_or_leaves {related : σ → τ → Prop} {inside : σ → Prop}
    (agree : ∀ s s', related s s' → inside s → Option.Rel related (step s) (step' s')) {s : σ} {s' : τ}
    (start : related s s')
    (n : Nat) :
    Option.Rel related (after step s n) (after step' s' n) ∨ ∃ k < n, ∃ t, after step s k = some t ∧ ¬ inside t := by
  induction n with
  | zero => exact Or.inl (.some start)
  | succ n ih =>
    rcases ih with together | ⟨k, before, left⟩
    · rw [after, after]
      cases reached : after step s n with
      | none =>
        rw [reached] at together
        cases reached' : after step' s' n with
        | none => exact Or.inl .none
        | some t' =>
          rw [reached'] at together
          cases together
      | some t =>
        rw [reached] at together
        cases reached' : after step' s' n with
        | none =>
          rw [reached'] at together
          cases together
        | some t' =>
          rw [reached'] at together
          cases together with
          | some same =>
            by_cases stays : inside t
            · exact Or.inl (agree t t' same stays)
            · exact Or.inr ⟨n, Nat.lt_succ_self n, t, reached, stays⟩
    · exact Or.inr ⟨k, Nat.lt_succ_of_lt before, left⟩

end StateTransition
