import VirtualMachine.Isa.Command
import VirtualMachine.Library.LockStep
import VirtualMachine.Os.StepCalls

namespace VirtualMachine

open StateTransition

/-- The commands of a program, word by word. -/
def Command.decodeAll (code : List Word) : List Command := code.map Command.decode

theorem decodeAll_getElem? (code : List Word) (i : Nat) : (Command.decodeAll code)[i]? = code[i]?.map Command.decode :=
  List.getElem?_map

theorem decodeAll_of_lt {code : List Word} {i : Nat} (inside : i < code.length) :
    (Command.decodeAll code)[i]? = some (Command.decode code[i]) := by
  rw [decodeAll_getElem?, List.getElem?_eq_getElem inside, Option.map_some]

/-- A process between two commands, and how the last one ended. -/
abbrev CommandState := ExecutionResult × ProcessModel

namespace ProcessModel

/-- The end of a command that neither throws nor loads another program. -/
def Outcome.state? : Outcome → Option CommandState
  | (.ok (.finished result), after) => some (result, after)
  | _ => none

/-- One more command of a program that has come this far. -/
def advance (commands : List Command) : CommandState → Option CommandState
  | (last, m) => if last.Ends then none else (commands[m.pc.toNat]?).bind (fun command => (m.perform command).state?)

/-- The program, from its first command, comes to this end. -/
def Finishes (commands : List Command) (m : ProcessModel) (last : ExecutionResult) (final : ProcessModel) : Prop :=
  Reaches (advance commands) (.Continue, m) (last, final) ∧ last.Ends

/-- PC stays in the code as long as the program has not ended. -/
def StaysInCode (commands : List Command) (m : ProcessModel) : Prop :=
  ∀ n last reached, after (advance commands) (.Continue, m) n = some (last, reached) → ¬ last.Ends →
    reached.pc.toNat < commands.length

variable {commands : List Command} {m final other : ProcessModel} {last result : ExecutionResult} {command : Command}

theorem advance_ended (ends : last.Ends) : advance commands (last, m) = none := if_pos ends

theorem advance_alive (alive : ¬ last.Ends) :
    advance commands (last, m) = (commands[m.pc.toNat]?).bind (fun command => (m.perform command).state?) :=
      if_neg alive

theorem advance_command (alive : ¬ last.Ends) (here : commands[m.pc.toNat]? = some command) :
    advance commands (last, m) = (m.perform command).state? := by
  rw [advance_alive alive, here, Option.bind_some]

/-- A program ends in one way at most. -/
theorem Finishes.unique (first : Finishes commands m last final) (second : Finishes commands m result other) :
    last = result ∧ final = other :=
  Prod.mk.inj (reaches_end_unique first.1 (advance_ended first.2) second.1 (advance_ended second.2))

/-- There is nothing after the end of a program. -/
theorem after_ended {n k : Nat} (ran : after (advance commands) (.Continue, m) n = some (last, final))
    (ends : last.Ends) :
    after (advance commands) (.Continue, m) (n + k + 1) = none := by
  induction k with
  | zero => rw [Nat.add_zero, after, ran, Option.bind_some, advance_ended ends]
  | succ k ih => rw [← Nat.add_assoc, after, ih, Option.bind_none]

/-- To look at the commands up to the end is enough. -/
theorem StaysInCode.of_ends {n : Nat} (ends : ∃ state ∈ after (advance commands) (.Continue, m) n, state.1.Ends)
    (each : ∀ k < n, ∀ state ∈ after (advance commands) (.Continue, m) k, state.2.pc.toNat < commands.length) :
    StaysInCode commands m := by
  intro k last reached ran alive
  obtain ⟨⟨other, final⟩, atEnd, ends⟩ := ends
  rcases Nat.lt_trichotomy k n with below | rfl | above
  · exact each k below _ ran
  · cases ran.symm.trans atEnd
    exact absurd ends alive
  · obtain ⟨j, rfl⟩ := Nat.exists_eq_add_of_lt above
    exact nomatch (after_ended atEnd ends).symm.trans ran

end ProcessModel

end VirtualMachine
