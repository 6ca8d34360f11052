import VirtualMachine.Cpu.CoreLoop
import VirtualMachine.Library.TransitionSystem
import Mathlib.Data.Fintype.Basic

namespace VirtualMachine

/-- How far a call of `VirtualOS::run` has got. -/
inductive RunPhase
  /-- No call is under way. -/
  | idle
  /-- The cores are started and the caller waits for all processes to halt. -/
  | waiting
  /-- The cores have been told to stop and are being joined. -/
  | stopping
  deriving DecidableEq, Repr

/-- A machine with one core for every element of `κ`. -/
structure Machine (κ : Type) where
  os : VirtualOS
  cores : κ → CoreState := fun _ => .exited
  phase : RunPhase := .idle
  stopRequested : Bool := false
  terminated : Bool := false

/-- One caller uses the interface of the machine, and the cores run. -/
inductive Action (κ : Type)
  /-- `loadProgramFromSource`. -/
  | load (source : Text)
  /-- `VirtualMachine::step`. -/
  | step (id : ProcessId) (steps : Nat)
  /-- `run`, up to the wait. -/
  | start
  /-- `run`, from the end of the wait to the joining of the cores. -/
  | stop
  /-- `run`, from there on. -/
  | join
  /-- The next atomic step of a core. -/
  | core (c : κ)

namespace Machine

variable {κ : Type} [DecidableEq κ] [Fintype κ]

/-- A machine as the constructor leaves it. -/
def boot (quantum : Nat) (input : List Word) : Machine κ := { os := VirtualOS.create quantum input }

def process? (machine : Machine κ) (p : ProcessRef) : Option ProcessControlBlock := machine.os.process? p

/-- The state of a process. -/
def stateOf (machine : Machine κ) (p : ProcessRef) : Option ProcessState :=
  (machine.process? p).map (fun process => process.state)

/-- Core `c` holds process `p`. -/
def Holds (machine : Machine κ) (c : κ) (p : ProcessRef) : Prop := (machine.cores c).held = some p

instance (machine : Machine κ) (c : κ) (p : ProcessRef) : Decidable (machine.Holds c p) :=
  inferInstanceAs (Decidable (_ = _))

def coreStep (files : FileSystem) (machine : Machine κ) (c : κ) : Option (Machine κ) :=
  (CoreLoop.step files machine.stopRequested machine.os (machine.cores c)).map (fun (state, os) =>
    { machine with
      os := os
      cores := Function.update machine.cores c state
      terminated := decide (state = .terminated) })

/-- An interface call that throws returns to its caller; only an exception in a
core's thread ends the program. -/
def step (files : FileSystem) (machine : Machine κ) (action : Action κ) : Option (Machine κ) :=
  if machine.terminated then none
  else
    match action with
    | .load source =>
      if machine.phase = .idle then some { machine with os := (machine.os.loadProgramFromSource source).2 } else none
    | .step id steps =>
      if machine.phase = .idle then some { machine with os := (machine.os.step files id steps).2 } else none
    | .start =>
      if machine.phase = .idle then
        some { machine with
          os := { machine.os.notifyProcessReady with running := true }
          cores := fun _ => .seeking
          phase := .waiting
          stopRequested := false }
      else none
    | .stop =>
      if machine.phase = .waiting ∧ machine.os.processTable.allHalted then
        some { machine with
          os := { machine.os with scheduler := machine.os.scheduler.stop, running := false }
          phase := .stopping
          stopRequested := true }
      else none
    | .join =>
      if machine.phase = .stopping ∧ ∀ c, machine.cores c = .exited then some { machine with phase := .idle } else none
    | .core c => machine.coreStep files c

/-- Where a list of actions leads, from any machine. -/
abbrev run (files : FileSystem) (machine : Machine κ) (actions : List (Action κ)) : Option (Machine κ) :=
  TransitionSystem.run (step files) machine actions

end Machine

end VirtualMachine
