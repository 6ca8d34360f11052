import VirtualMachine.MachineMove
import VirtualMachine.Os.Stepping

namespace VirtualMachine

namespace VirtualOS

/-- Processes are numbered from one in the order of the table. -/
structure Numbered (os : VirtualOS) : Prop where
  ids : ∀ p process, os.process? p = some process → process.id = p + 1
  nextId : os.processTable.nextProcessId = os.processTable.processes.length + 1

namespace Numbered

variable {os after : VirtualOS} {p : ProcessRef} {process : ProcessControlBlock}

/-- An empty table is numbered, and the first process gets the number one. -/
theorem create (quantum : Nat) (input : List Word) : (VirtualOS.create quantum input).Numbered where
  ids := by
    intro p process found
    cases found
  nextId := rfl

/-- Writes into processes leave the numbers alone. -/
theorem of_map (numbered : os.Numbered)
    (ids : after.processTable.processes.map (fun process => process.id) =
      os.processTable.processes.map (fun process => process.id))
    (nextId : after.processTable.nextProcessId = os.processTable.nextProcessId) : after.Numbered where
  ids := by
    intro p process found
    have here : (after.processTable.processes.map (fun process => process.id))[p]? = some process.id :=
      List.getElem?_map.trans (congrArg _ found)
    rw [ids, List.getElem?_map] at here
    obtain ⟨same, before, id⟩ := Option.map_eq_some_iff.mp here
    exact id.symm.trans (numbered.ids p same before)
  nextId := by
    have length := congrArg List.length ids
    rw [List.length_map, List.length_map] at length
    rw [nextId, length, numbered.nextId]

/-- A write that leaves the id alone. -/
theorem modifyProcess (numbered : os.Numbered) (p : ProcessRef) {f : ProcessControlBlock → ProcessControlBlock}
    (id : ∀ process, (f process).id = process.id) : (os.modifyProcess p f).Numbered :=
  numbered.of_map (os.processTable.map_modify p f (fun process => process.id) id) rfl

/-- An instruction writes no id. -/
theorem update (numbered : os.Numbered) (found : os.process? p = some process) {ctx : ExecutionContext}
    (frame : InstructionFrame (os.context process) ctx) : (os.update p ctx).Numbered :=
  numbered.of_map (os.map_update (fun process => process.id) found frame.id) rfl

/-- A new process gets the next number and goes to the end of the table, also while
its load is still under way. -/
theorem emplaced (numbered : os.Numbered) (physical : PhysicalMemory) (layout : MemoryRegionLayout) :
    (os.emplaced physical layout).Numbered where
  ids := by
    intro p process found
    have bound := lt_length_of_process? found
    rw [length_emplaced] at bound
    by_cases old : p < os.processTable.processes.length
    · rw [process?_emplaced_old _ _ _ old] at found
      exact numbered.ids p process found
    · obtain rfl : p = os.processTable.processes.length :=
        Nat.le_antisymm (Nat.lt_succ_iff.mp bound) (Nat.le_of_not_lt old)
      rw [process?_emplaced_new] at found
      cases found
      exact numbered.nextId
  nextId := by
    rw [length_emplaced, VirtualOS.emplaced, ProcessTable.emplace]
    exact congrArg (fun n => n + 1) numbered.nextId

/-- Making it ready writes no id. -/
theorem published (numbered : os.Numbered) (physical : PhysicalMemory) (layout : MemoryRegionLayout) :
    (os.published physical layout).Numbered := by
  have ready : ((os.emplaced physical layout).setState os.processTable.processes.length .Ready).Numbered :=
    (numbered.emplaced physical layout).modifyProcess _ (fun _ => rfl)
  exact ⟨ready.ids, ready.nextId⟩

/-- Whether the load succeeds or not. -/
theorem loadProgramFromSource (numbered : os.Numbered) (source : Text) :
    (os.loadProgramFromSource source).2.Numbered := by
  rcases os.loadProgramFromSource_cases source with ⟨physical, -, same⟩ | ⟨program, layout, physical, -, -, published⟩
  · rw [same]
    exact ⟨numbered.ids, numbered.nextId⟩
  · rw [published]
    exact numbered.published physical layout

/-- One whole instruction, the load system call included. -/
theorem execution {files : FileSystem} {outcome : Except Exception ExecutionResult × VirtualOS} (numbered : os.Numbered)
    (execution : Execution files os p process outcome) (found : os.process? p = some process) : outcome.2.Numbered := by
  have frame := beginInstruction_frame (os.context process)
  cases execution with
  | threw began =>
    rw [began] at frame
    exact numbered.update found frame
  | finished began =>
    rw [began] at frame
    exact numbered.update found frame
  | loadFailed =>
    have updated := numbered.update found (.refl (os.context process))
    exact ⟨updated.ids, updated.nextId⟩
  | @loaded path source program layout physical =>
    have published := (numbered.update found (.refl (os.context process))).published physical layout
    have current := Execution.published_process? found physical layout
    dsimp only
    rw [finishLoad_eq current]
    exact published.update current (finishCall_frame (some .Load) _)

/-- And so a call of `step` keeps the numbers, whatever it does. -/
theorem stepProcess (numbered : os.Numbered) (files : FileSystem) (id : ProcessId) :
    (os.stepProcess files id).2.Numbered := by
  cases known : os.processTable.find id with
  | none => rwa [stepProcess_of_find_none known]
  | some p =>
    obtain ⟨process, found⟩ := process?_of_find known
    have running : (os.setState p .Running).process? p = some (process.setState .Running) := by
      rw [process?_setState_same, found]
      rfl
    rw [stepProcess_of_find known found]
    have set : (os.setState p .Running).Numbered := numbered.modifyProcess p (fun _ => rfl)
    exact set.execution (executeInstruction_execution files _ p _) running

theorem step (numbered : os.Numbered) (files : FileSystem) (id : ProcessId) (steps : Nat) :
    (os.step files id steps).2.Numbered :=
  stepLoop_invariant (fun _ numbered => numbered.stepProcess files id) numbered steps .Continue

end Numbered

end VirtualOS

namespace CoreMove

variable {files : FileSystem} {stopRequested : Bool} {os after : VirtualOS} {state next : CoreState}

/-- A core writes ids only through the load system call, which gives the next one. -/
theorem numbered (move : CoreMove files stopRequested os state next after) (numbered : os.Numbered) :
    after.Numbered := by
  cases move with
  | leave | discard | expire | keep | pass => exact numbered
  | starve | look | drop | announce => exact ⟨numbered.ids, numbered.nextId⟩
  | @acquire p process scheduler found ready =>
    have taken : (os.modifyProcess p
        (fun process => (process.setState .Running).resetTimeSlice os.scheduler.quantum)).Numbered :=
      numbered.modifyProcess p (fun _ => rfl)
    exact ⟨taken.ids, taken.nextId⟩
  | @throw p process e ctx found alive began =>
    have frame := beginInstruction_frame (os.context process)
    rw [began] at frame
    exact numbered.update found frame
  | @finish p process result ctx found alive began =>
    have frame := beginInstruction_frame (os.context process)
    rw [began] at frame
    exact numbered.update found frame
  | loadFails found alive load left =>
    have updated := numbered.update found (.refl _)
    exact ⟨updated.ids, updated.nextId⟩
  | emplace found alive load opened accepted loaded => exact (numbered.update found (.refl _)).emplaced _ _
  | publish => exact numbered.modifyProcess _ (fun _ => rfl)
  | @finishLoad p child =>
    have notified : os.notifyProcessReady.Numbered := ⟨numbered.ids, numbered.nextId⟩
    cases here : os.notifyProcessReady.process? p with
    | none => rwa [VirtualOS.finishLoad, here]
    | some process =>
      rw [VirtualOS.finishLoad_eq here]
      exact notified.update here (finishCall_frame (some .Load) _)
  | halt | fail | yield | giveBack => exact numbered.modifyProcess _ (fun _ => rfl)
  | @preempt p process found running scheduler =>
    have ready : (os.setState p .Ready).Numbered := numbered.modifyProcess p (fun _ => rfl)
    exact ⟨ready.ids, ready.nextId⟩

end CoreMove

namespace Machine

open TransitionSystem

variable {κ : Type} [DecidableEq κ] [Fintype κ] {files : FileSystem} {machine next : Machine κ} {action : Action κ}

/-- The numbers hold along every interleaving: the calls of the interface and the
cores keep them. -/
theorem numbered_step (numbered : machine.os.Numbered) (taken : machine.step files action = some next) :
    next.os.Numbered := by
  cases step_move taken with
  | load source idle => exact numbered.loadProgramFromSource source
  | step id steps idle => exact numbered.step files id steps
  | start idle => exact ⟨numbered.ids, numbered.nextId⟩
  | stop waiting halted => exact ⟨numbered.ids, numbered.nextId⟩
  | join stopping exited => exact numbered
  | core c move => exact move.numbered numbered

end Machine

end VirtualMachine
