import VirtualMachine.Os.ProcessRefinement

namespace VirtualMachine

open StateTransition

namespace SameView

variable {a b : ExecutionContext}

/-- The next instruction of a process is the same in both places. -/
theorem fetched (same : SameView a b) (contained : b.NextContained) (fitting : a.process.layout.Fitting) :
    a.fetch? = b.fetch? := by
  refine same.fetch? fitting ?_
  rw [same.registers, same.layout]
  exact contained.1

/-- It does the same in both. -/
theorem step (same : SameView a b) (contained : b.NextContained) (fitting : a.process.layout.Fitting) :
    SameStep a b (VirtualMachine.beginInstruction a) (VirtualMachine.beginInstruction b) := by
  have fetched := same.fetched contained fitting
  refine same.beginInstruction fitting fetched fun scan => contained.2.1 ?_
  obtain ⟨instruction, here, calls⟩ := scan
  exact ⟨instruction, fetched ▸ here, calls⟩

theorem not_loading (same : SameView a b) (contained : b.NextContained) (fitting : a.process.layout.Fitting) :
    a.loadPath? = none := by
  refine ExecutionContext.loadPath?_of_not_calls fun load => contained.2.2 ?_
  obtain ⟨instruction, here, calls⟩ := load
  exact ⟨instruction, same.fetched contained fitting ▸ here, calls⟩

end SameView

namespace ExecutionContext

/-- The process, executed alone, ends after this many instructions. -/
def EndsAfter (ctx : ExecutionContext) (n : Nat) : Prop := ∃ last final, ctx.alone n = some (last, final) ∧ last.Ends

variable {ctx a b : ExecutionContext} {n : Nat}

theorem aloneStep_congr {last other : ExecutionResult} (alive : ¬ last.Ends) (alive' : ¬ other.Ends) :
    aloneStep (last, ctx) = aloneStep (other, ctx) := by
  rw [aloneStep, aloneStep, if_neg alive, if_neg alive']

theorem not_ends_continue : ¬ ExecutionResult.Continue.Ends := by
  rintro (impossible | impossible) <;> cases impossible

/-- The first instruction apart. -/
theorem alone_succ_of_finished {result : ExecutionResult} (began : beginInstruction ctx = (.ok (.finished result), b))
    (alive : ¬ result.Ends) : ctx.alone (n + 1 + 1) = b.alone (n + 1) := by
  rw [alone_eq_after, alone_eq_after, after_succ, aloneStep_finished not_ends_continue began, Option.bind_some,
    after_succ, after_succ, aloneStep_congr alive not_ends_continue]

theorem alone_one_of_finished {result : ExecutionResult} (began : beginInstruction ctx = (.ok (.finished result), b)) :
    ctx.alone 1 = some (result, b) := by
  rw [alone, alone, Option.bind_some, aloneStep_finished not_ends_continue began]

namespace EndsAfter

theorem positive (ends : ctx.EndsAfter n) : 0 < n := by
  obtain ⟨last, final, ran, ended⟩ := ends
  cases n with
  | zero =>
    cases ran
    exact absurd ended not_ends_continue
  | succ n => exact Nat.succ_pos n

/-- The next instruction neither throws nor loads another program. -/
theorem finishes (ends : ctx.EndsAfter n) : ∃ result after, beginInstruction ctx = (.ok (.finished result), after) := by
  obtain ⟨k, rfl⟩ := Nat.exists_eq_succ_of_ne_zero ends.positive.ne'
  obtain ⟨last, final, ran, -⟩ := ends
  rw [alone_eq_after, after_succ] at ran
  obtain ⟨next, first, -⟩ := Option.bind_eq_some_iff.mp ran
  rw [aloneStep, if_neg not_ends_continue] at first
  split at first
  · rename_i result after began
    exact ⟨result, after, began⟩
  · cases first

/-- One instruction less. -/
theorem next {result : ExecutionResult} (ends : ctx.EndsAfter n)
    (began : beginInstruction ctx = (.ok (.finished result), b))
    (alive : ¬ result.Ends) : b.EndsAfter (n - 1) := by
  obtain ⟨k, rfl⟩ := Nat.exists_eq_succ_of_ne_zero ends.positive.ne'
  obtain ⟨last, final, ran, ended⟩ := ends
  cases k with
  | zero =>
    rw [alone_one_of_finished began] at ran
    cases ran
    exact absurd ended alive
  | succ k => exact ⟨last, final, (alone_succ_of_finished began alive).symm.trans ran, ended⟩

end EndsAfter

/-- After its next instruction a process is still self-contained. -/
theorem SelfContained.next {result : ExecutionResult} (contained : ctx.SelfContained)
    (began : beginInstruction ctx = (.ok (.finished result), b)) (alive : ¬ result.Ends) : b.SelfContained := by
  intro k last reached ran goes
  cases k with
  | zero =>
    cases ran
    exact contained 1 result b (alone_one_of_finished began) alive
  | succ k => exact contained (k + 1 + 1) last reached ((alone_succ_of_finished began alive).trans ran) goes

theorem SelfContained.now (contained : ctx.SelfContained) :
    ctx.NextContained := contained 0 .Continue ctx rfl not_ends_continue

/-- Wherever in the memory it is, the process is self-contained, and ends after this many instructions. -/
def WillEnd (ctx : ExecutionContext) (n : Nat) : Prop :=
  ∃ elsewhere, SameView ctx elsewhere ∧ elsewhere.EndsAfter n ∧ elsewhere.SelfContained

namespace WillEnd

theorem of_view (ends : b.WillEnd n) (view : SameView a b) : a.WillEnd n := by
  obtain ⟨elsewhere, same, ends, contained⟩ := ends
  exact ⟨elsewhere, view.trans same, ends, contained⟩

theorem positive (ends : ctx.WillEnd n) : 0 < n := by
  obtain ⟨_, _, ends, _⟩ := ends
  exact ends.positive

theorem finishes (ends : ctx.WillEnd n) (fitting : ctx.process.layout.Fitting) :
    ∃ result after, beginInstruction ctx = (.ok (.finished result), after) := by
  obtain ⟨elsewhere, same, ends, contained⟩ := ends
  obtain ⟨result, after, began⟩ := ends.finishes
  have step := same.step contained.now fitting
  rw [began] at step
  exact ⟨result, (beginInstruction ctx).2, Prod.ext step.outcome rfl⟩

theorem next {result : ExecutionResult} (ends : ctx.WillEnd n) (fitting : ctx.process.layout.Fitting)
    (began : beginInstruction ctx = (.ok (.finished result), b)) (alive : ¬ result.Ends) : b.WillEnd (n - 1) := by
  obtain ⟨elsewhere, same, ends, contained⟩ := ends
  obtain ⟨other, after, began'⟩ := ends.finishes
  have step := same.step contained.now fitting
  rw [began, began'] at step
  cases step.outcome
  exact ⟨after, step.view, ends.next began' alive, contained.next began' alive⟩

end WillEnd

end ExecutionContext

end VirtualMachine
