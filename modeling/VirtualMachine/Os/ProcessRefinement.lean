import VirtualMachine.Cpu.Realization
import VirtualMachine.Isa.CommandRun
import VirtualMachine.Os.Alone

namespace VirtualMachine

open StateTransition ExecutionContext

/-- The same result, and the same process in some place of the memory. -/
def SameProcess (code : List Word) (abstract_ : CommandState) (real : ExecutionResult × ExecutionContext) : Prop :=
  abstract_.1 = real.1 ∧ Realizes code abstract_.2 real.2

variable {code : List Word} {m : ProcessModel} {ctx : ExecutionContext}

theorem Realizes.pc (realizes : Realizes code m ctx) : ctx.registers.pc = m.pc := by
  cases realizes
  rfl

theorem Realizes.refines (realizes : Realizes code m ctx) {command : Command}
    (here : (Command.decodeAll code)[m.pc.toNat]? = some command) :
    Refines code (m.perform command) (beginInstruction ctx) := by
  rw [decodeAll_getElem?] at here
  obtain ⟨word, stored, rfl⟩ := Option.map_eq_some_iff.mp here
  cases realizes with
  | intro holds => exact holds.refines stored

theorem alone_eq_after (ctx : ExecutionContext) (n : Nat) : ctx.alone n = after aloneStep (.Continue, ctx) n := by
  induction n with
  | zero => rfl
  | succ n ih => rw [alone, after, ih]

/-- One more instruction of a process is one more command of its program. -/
theorem sameProcess_step {abstract_ : CommandState} {real : ExecutionResult × ExecutionContext}
    (same : SameProcess code abstract_ real) (inCode : ¬ abstract_.1.Ends → abstract_.2.pc.toNat < code.length) :
    Option.Rel (SameProcess code) (ProcessModel.advance (Command.decodeAll code) abstract_) (aloneStep real) := by
  obtain ⟨last, m⟩ := abstract_
  obtain ⟨_, ctx⟩ := real
  obtain ⟨rfl, realizes⟩ := same
  by_cases ends : last.Ends
  · rw [ProcessModel.advance_ended ends, aloneStep, if_pos ends]
    exact .none
  · have inside : m.pc.toNat < code.length := inCode ends
    have here := decodeAll_of_lt inside
    have refines := realizes.refines here
    rw [ProcessModel.advance_command ends here, aloneStep, if_neg ends]
    generalize m.perform (Command.decode code[m.pc.toNat]) = outcome at refines
    generalize beginInstruction ctx = ran at refines
    obtain ⟨_, final⟩ := outcome
    obtain ⟨ended, reached⟩ := ran
    obtain ⟨rfl, kept⟩ := refines
    cases ended with
    | error e => exact .none
    | ok progress =>
      cases progress with
      | loading path => exact .none
      | finished result => exact .some ⟨rfl, kept⟩

/-- The process and the commands of its program come equally far, until PC leaves the code. -/
theorem Realizes.after_rel_or_leaves (realizes : Realizes code m ctx) (n : Nat) :
    Option.Rel (SameProcess code) (after (ProcessModel.advance (Command.decodeAll code)) (.Continue, m) n)
    (ctx.alone n) ∨
      ∃ k < n, ∃ last left, after (ProcessModel.advance (Command.decodeAll code)) (.Continue, m) k = some (last, left) ∧
        ¬ last.Ends ∧ code.length ≤ left.pc.toNat := by
  rw [alone_eq_after]
  refine (StateTransition.after_rel_or_leaves (fun _ _ same inside => sameProcess_step same inside)
    ⟨rfl, realizes⟩ n).imp_right ?_
  rintro ⟨k, before, ⟨last, left⟩, ran, outside⟩
  obtain ⟨alive, beyond⟩ := Classical.not_imp.mp outside
  exact ⟨k, before, last, left, ran, alive, Nat.not_lt.mp beyond⟩

theorem Realizes.after_rel (realizes : Realizes code m ctx)
    (stays : ProcessModel.StaysInCode (Command.decodeAll code) m)
    (n : Nat) :
    Option.Rel (SameProcess code) (after (ProcessModel.advance (Command.decodeAll code)) (.Continue, m) n)
    (ctx.alone n) := by
  refine (realizes.after_rel_or_leaves n).resolve_right ?_
  rintro ⟨k, -, last, left, ran, alive, outside⟩
  have inside := stays k last left ran alive
  rw [Command.decodeAll, List.length_map] at inside
  exact Nat.not_lt.mpr outside inside

/-- What a process comes to, the commands of its program come to. -/
theorem Realizes.of_alone (realizes : Realizes code m ctx) (stays : ProcessModel.StaysInCode (Command.decodeAll code) m)
    {n : Nat} {last : ExecutionResult} {reached : ExecutionContext} (ran : ctx.alone n = some (last, reached)) :
    ∃ after_, after (ProcessModel.advance (Command.decodeAll code)) (.Continue, m) n = some (last, after_) ∧
      Realizes code after_ reached := by
  have agree := realizes.after_rel stays n
  rw [ran] at agree
  cases here : after (ProcessModel.advance (Command.decodeAll code)) (.Continue, m) n with
  | none =>
    rw [here] at agree
    cases agree
  | some state =>
    rw [here] at agree
    cases agree with
    | some same =>
      obtain ⟨last', after_⟩ := state
      obtain ⟨rfl, kept⟩ := same
      exact ⟨after_, rfl, kept⟩

end VirtualMachine
