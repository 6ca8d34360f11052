import VirtualMachine.MachineMove
import VirtualMachine.Os.Stepping

namespace VirtualMachine

/-- A preemption does not look at whether the scheduler runs. -/
theorem PreemptiveScheduler.onPreempt_keeps_running {scheduler : PreemptiveScheduler} {table : ProcessTable}
    (p : ProcessRef) :
    (scheduler.onPreempt table p).1.running = scheduler.running := by
  unfold onPreempt
  split
  · rfl
  · split <;> rfl

namespace VirtualOS

/-- `running_` of the machine and of its scheduler. -/
def flags (os : VirtualOS) : Bool × Bool := (os.running, os.scheduler.running)

variable {files : FileSystem} {os after : VirtualOS} {p : ProcessRef}

theorem finishLoad_flags (os : VirtualOS) (p : ProcessRef) :
    (os.finishLoad p).flags = os.flags := by
  unfold finishLoad
  split <;> rfl

/-- The calls of the interface other than `run` and `stop` leave both flags alone,
whatever they return. -/
theorem emplaceFile_flags (files : FileSystem) (os : VirtualOS) (path : List Byte) :
    (os.emplaceFile files path).2.flags = os.flags := by
  rcases emplaceFile_cases files os path with ⟨_, _, _, failed⟩ | ⟨_, _, _, _, _, _, _, emplaced⟩
  · rw [failed]
    rfl
  · rw [emplaced]
    rfl

theorem loadProgramFromSource_flags (os : VirtualOS) (source : Text) :
    (os.loadProgramFromSource source).2.flags = os.flags := by
  rcases os.loadProgramFromSource_cases source with ⟨_, _, same⟩ | ⟨_, _, _, _, _, same⟩
  · rw [same]
    rfl
  · rw [same]
    rfl

theorem stepProcess_flags (files : FileSystem) (os : VirtualOS) (id : ProcessId) :
    (os.stepProcess files id).2.flags = os.flags := by
  cases known : os.processTable.find id with
  | none => rw [stepProcess_of_find_none known]
  | some p =>
    obtain ⟨process, here⟩ := process?_of_find known
    rw [stepProcess_of_find known here]
    have execution := executeInstruction_execution files (os.setState p .Running) p (process.setState .Running)
    generalize (os.setState p .Running).executeInstruction files p (process.setState .Running) = outcome at execution
    cases execution with
    | threw | finished | loadFailed => rfl
    | loaded => exact finishLoad_flags _ p

theorem step_flags (files : FileSystem) (os : VirtualOS) (id : ProcessId) (steps : Nat) :
    (os.step files id steps).2.flags = os.flags := by
  have kept : ∀ after : VirtualOS, after.flags = os.flags → (after.stepProcess files id).2.flags = os.flags :=
    fun after same => (stepProcess_flags files after id).trans same
  exact stepLoop_invariant kept rfl steps .Continue

end VirtualOS

namespace CoreLoop

variable {files : FileSystem} {stopRequested : Bool} {os after : VirtualOS} {state next : CoreState} {p : ProcessRef}
  {process : ProcessControlBlock}

/-- Nor does a core write them: only `stop` ends the scheduler, and nothing starts
it again. -/
theorem acquire_flags (taken : acquire os = some (next, after)) : after.flags = os.flags := by
  unfold acquire at taken
  split at taken
  · cases taken
  · rename_i found scheduler table acquired
    have kept := (PreemptiveScheduler.acquireProcess_cases acquired).1.2
    dsimp only at taken
    split at taken <;> cases taken <;> exact congrArg (Prod.mk os.running) kept

theorem execute_flags : (execute files os p process).2.flags = os.flags := by
  unfold execute VirtualOS.beginInstruction
  rcases beginInstruction (os.context process) with ⟨_ | result | path, ctx⟩
  · rfl
  · rfl
  · have kept := VirtualOS.emplaceFile_flags files (os.update p ctx) path
    dsimp only
    unfold startLoad
    revert kept
    rcases (os.update p ctx).emplaceFile files path with ⟨_ | child, loaded⟩
    · exact fun kept => kept
    · exact fun kept => kept

theorem dispose_flags (result : ExecutionResult) :
    (dispose os p process result).2.flags = os.flags := by
  unfold dispose
  repeat' split
  all_goals rfl

theorem release_flags (preempt : Bool) : (release os p process preempt).2.flags = os.flags := by
  unfold release
  split
  · exact congrArg (Prod.mk os.running) (PreemptiveScheduler.onPreempt_keeps_running p)
  · split <;> rfl

/-- No core changes the flags. -/
theorem step_flags (taken : step files stopRequested os state = some (next, after)) :
    after.flags = os.flags := by
  cases state with
  | seeking =>
    simp only [step] at taken
    split at taken
    · cases taken
      rfl
    · exact acquire_flags taken
  | idle =>
    simp only [step] at taken
    split at taken <;> cases taken <;> rfl
  | holding p =>
    simp only [step] at taken
    split at taken
    · cases taken
      rfl
    · obtain ⟨process, found, moved⟩ := Option.map_eq_some_iff.mp taken
      split at moved
      · cases moved
        rfl
      · obtain ⟨-, rfl⟩ := Prod.ext_iff.mp moved
        exact execute_flags
  | loading p child stage =>
    cases stage with
    | emplaced =>
      cases taken
      rfl
    | ready =>
      cases taken
      exact VirtualOS.finishLoad_flags _ p
  | executed p result =>
    obtain ⟨process, found, moved⟩ := Option.map_eq_some_iff.mp taken
    obtain ⟨-, rfl⟩ := Prod.ext_iff.mp moved
    exact dispose_flags result
  | releasing p preempt =>
    obtain ⟨process, found, moved⟩ := Option.map_eq_some_iff.mp taken
    obtain ⟨-, rfl⟩ := Prod.ext_iff.mp moved
    exact release_flags preempt
  | notifying =>
    cases taken
    rfl
  | exited => cases taken
  | terminated => cases taken

end CoreLoop

namespace Machine

variable {κ : Type} [DecidableEq κ] [Fintype κ] {files : FileSystem} {machine next : Machine κ}

/-- No step of a core changes the flags, in any state of the loop. -/
theorem flags_of_core {c : κ} (taken : machine.step files (.core c) = some next) :
    next.os.flags = machine.os.flags := by
  unfold step at taken
  split at taken
  · cases taken
  · obtain ⟨⟨state, os⟩, moved, rfl⟩ := Option.map_eq_some_iff.mp taken
    exact CoreLoop.step_flags moved

end Machine

end VirtualMachine
