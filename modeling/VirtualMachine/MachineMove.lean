import VirtualMachine.Cpu.CoreMove
import VirtualMachine.Machine

namespace VirtualMachine

/-- The actions of a machine by what they do. -/
inductive MachineMove {κ : Type} [DecidableEq κ] [Fintype κ] (files : FileSystem) (machine : Machine κ) :
    Action κ → Machine κ → Prop
  | load (source : Text) (idle : machine.phase = .idle) :
      MachineMove files machine (.load source) { machine with os := (machine.os.loadProgramFromSource source).2 }
  | step (id : ProcessId) (steps : Nat) (idle : machine.phase = .idle) :
      MachineMove files machine (.step id steps) { machine with os := (machine.os.step files id steps).2 }
  | start (idle : machine.phase = .idle) :
      MachineMove files machine .start
        { machine with
          os := { machine.os.notifyProcessReady with running := true }
          cores := fun _ => .seeking
          phase := .waiting
          stopRequested := false }
  | stop (waiting : machine.phase = .waiting) (halted : machine.os.processTable.allHalted = true) :
      MachineMove files machine .stop
        { machine with
          os := { machine.os with scheduler := machine.os.scheduler.stop, running := false }
          phase := .stopping
          stopRequested := true }
  | join (stopping : machine.phase = .stopping) (exited : ∀ c, machine.cores c = .exited) :
      MachineMove files machine .join { machine with phase := .idle }
  | core (c : κ) {state : CoreState} {os : VirtualOS}
      (move : CoreMove files machine.stopRequested machine.os (machine.cores c) state os) :
      MachineMove files machine (.core c)
        { machine with
          os := os
          cores := Function.update machine.cores c state
          terminated := decide (state = .terminated) }

namespace Machine

variable {κ : Type} [DecidableEq κ] [Fintype κ] {files : FileSystem} {machine next : Machine κ} {action : Action κ}

/-- Everything a machine can do in one step. -/
theorem step_move (taken : machine.step files action = some next) : MachineMove files machine action next := by
  unfold step at taken
  split at taken
  · cases taken
  · cases action with
    | load source =>
      obtain ⟨idle, same⟩ := Option.ite_none_right_eq_some.mp taken
      cases same
      exact .load source idle
    | step id steps =>
      obtain ⟨idle, same⟩ := Option.ite_none_right_eq_some.mp taken
      cases same
      exact .step id steps idle
    | start =>
      obtain ⟨idle, same⟩ := Option.ite_none_right_eq_some.mp taken
      cases same
      exact .start idle
    | stop =>
      obtain ⟨⟨waiting, halted⟩, same⟩ := Option.ite_none_right_eq_some.mp taken
      cases same
      exact .stop waiting halted
    | join =>
      obtain ⟨⟨stopping, exited⟩, same⟩ := Option.ite_none_right_eq_some.mp taken
      cases same
      exact .join stopping exited
    | core c =>
      obtain ⟨⟨state, os⟩, moved, rfl⟩ := Option.map_eq_some_iff.mp taken
      exact .core c (CoreLoop.step_move moved)

/-- The core itself makes its step. -/
theorem core_step {c : κ} (taken : machine.step files (.core c) = some next) :
    CoreLoop.step files machine.stopRequested machine.os (machine.cores c) = some (next.cores c, next.os) := by
  unfold Machine.step at taken
  split at taken
  · cases taken
  · obtain ⟨⟨state, os⟩, moved, rfl⟩ := Option.map_eq_some_iff.mp taken
    rw [moved]
    dsimp only
    rw [Function.update_self]

theorem core_move {c : κ} (taken : machine.step files (.core c) = some next) :
    CoreMove files machine.stopRequested machine.os (machine.cores c) (next.cores c) next.os :=
  CoreLoop.step_move (core_step taken)

/-- The other cores stay where they are. -/
theorem cores_step_other {c d : κ} (taken : machine.step files (.core c) = some next) (other : d ≠ c) :
    next.cores d = machine.cores d := by
  cases step_move taken with
  | core c move => exact Function.update_of_ne other _ machine.cores

omit [Fintype κ] in
theorem holds_update_same {c : κ} {state : CoreState} {os : VirtualOS} {terminated : Bool} {p : ProcessRef} :
    ({ machine with os := os, cores := Function.update machine.cores c state, terminated := terminated } :
        Machine κ).Holds c p ↔ state.held = some p := by
  simp [Holds]

omit [Fintype κ] in
theorem holds_update_other {c d : κ} {state : CoreState} {os : VirtualOS} {terminated : Bool} {p : ProcessRef}
    (other : d ≠ c) :
    ({ machine with os := os, cores := Function.update machine.cores c state, terminated := terminated } :
        Machine κ).Holds d p ↔ machine.Holds d p := by
  simp [Holds, other]

end Machine

end VirtualMachine
