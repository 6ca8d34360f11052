import VirtualMachine.Cpu.TimeSlice

namespace VirtualMachine

open ProgramLoader

/-- Nothing that a core does changes the quantum. -/
theorem CoreLoop.step_quantum {files : FileSystem} {stopRequested : Bool} {os after : VirtualOS}
    {state next : CoreState} (taken : step files stopRequested os state = some (next, after)) :
    after.scheduler.quantum = os.scheduler.quantum := by
  have move := step_move taken
  cases move with
  | leave | look | discard | throw | finish | loadFails | emplace | publish | halt | fail | yield | expire | keep
  | pass | giveBack | drop | announce => rfl
  | finishLoad =>
    unfold VirtualOS.finishLoad
    split <;> rfl
  | starve | acquire =>
    simp only [step] at taken
    split at taken
    · cases taken
    · unfold acquire at taken
      split at taken
      · cases taken
      · rename_i acquired
        have same := (PreemptiveScheduler.acquireProcess_cases acquired).1.1
        dsimp only at taken
        split at taken <;> cases taken
        exact same
  | preempt found running scheduler =>
    simp only [step, found, Option.map_some, release_preempt found running] at taken
    cases taken
    rfl

namespace VirtualOS

/-- The scheduler hands out this quantum, and no ready process is about to be given up. -/
structure Metered (quantum : Nat) (os : VirtualOS) : Prop where
  scheduler : os.scheduler.quantum = quantum
  ready : ∀ p process, os.process? p = some process → process.state = .Ready → process.context.Clear

namespace Metered

variable {quantum : Nat} {os after : VirtualOS} {p : ProcessRef} {process : ProcessControlBlock}

theorem create (quantum : Nat) (input : List Word) : (VirtualOS.create quantum input).Metered quantum where
  scheduler := rfl
  ready p process found := by
    cases found

theorem congr (metered : os.Metered quantum) (table : after.processTable = os.processTable)
    (scheduler : after.scheduler.quantum = os.scheduler.quantum) : after.Metered quantum where
  scheduler := scheduler.trans metered.scheduler
  ready p process found := by
    rw [VirtualOS.process?, table] at found
    exact metered.ready p process found

/-- One process is written, and it is not ready then unless its flags are clear. -/
theorem modifyProcess (metered : os.Metered quantum) {f : ProcessControlBlock → ProcessControlBlock}
    (written : ∀ process, os.process? p = some process → (f process).state = .Ready → (f process).context.Clear) :
    (os.modifyProcess p f).Metered quantum where
  scheduler := metered.scheduler
  ready q process found state := by
    by_cases same : q = p
    · subst same
      rw [os.process?_modifyProcess_same] at found
      obtain ⟨old, here, rfl⟩ := Option.map_eq_some_iff.mp found
      exact written old here state
    · rw [os.process?_modifyProcess_other f same] at found
      exact metered.ready q process found state

theorem sets (metered : os.Metered quantum) {f : ProcessControlBlock → ProcessControlBlock} {state : ProcessState}
    (state_eq : ∀ process, (f process).state = state) (other : state ≠ .Ready) :
    (os.modifyProcess p f).Metered quantum :=
  metered.modifyProcess (fun process _ ready => absurd ((state_eq process).symm.trans ready) other)

theorem update (metered : os.Metered quantum) {ctx : ExecutionContext}
    (written : ctx.process.state = .Ready → ctx.process.context.Clear) : (os.update p ctx).Metered quantum := by
  have wrote : (os.modifyProcess p (fun _ => ctx.process)).Metered quantum := metered.modifyProcess (fun _ _ => written)
  exact wrote.congr rfl rfl

/-- An instruction of a running process does not make it ready. -/
theorem instruction (metered : os.Metered quantum) (running : process.state = .Running) {ctx : ExecutionContext}
    (frame : InstructionFrame (os.context process) ctx) : (os.update p ctx).Metered quantum := by
  refine metered.update fun ready => ?_
  rcases frame.state with same | ⟨halted, -⟩
  · exact absurd (ready.symm.trans (same.trans running)) (by decide)
  · exact absurd (ready.symm.trans halted) (by decide)

theorem emplaced (metered : os.Metered quantum) (physical : PhysicalMemory) (layout : MemoryRegionLayout) :
    (os.emplaced physical layout).Metered quantum where
  scheduler := metered.scheduler
  ready q process found state := by
    rcases Nat.lt_or_ge q os.processTable.processes.length with old | new
    · rw [os.process?_emplaced_old physical layout old] at found
      exact metered.ready q process found state
    · have bound := VirtualOS.lt_length_of_process? found
      rw [os.length_emplaced] at bound
      obtain rfl : q = os.processTable.processes.length := Nat.le_antisymm (Nat.lt_succ_iff.mp bound) new
      rw [os.process?_emplaced_new] at found
      cases found
      exact ⟨rfl, rfl⟩

theorem published (metered : os.Metered quantum) (physical : PhysicalMemory) (layout : MemoryRegionLayout) :
    (os.published physical layout).Metered quantum := by
  have already : (os.emplaced physical layout).setState os.processTable.processes.length .Ready =
      os.emplaced physical layout := setState_eq_self (os.process?_emplaced_new physical layout) rfl
  rw [VirtualOS.published, already]
  exact (metered.emplaced physical layout).congr rfl rfl

theorem finishLoad (metered : os.Metered quantum) (p : ProcessRef) : (os.finishLoad p).Metered quantum := by
  cases found : os.process? p with
  | none =>
    rw [VirtualOS.finishLoad, found]
    exact metered
  | some process =>
    rw [VirtualOS.finishLoad_eq found]
    exact metered.update (fun ready => metered.ready p process found ready)

theorem loadProgramFromSource (metered : os.Metered quantum) (source : Text) :
    (os.loadProgramFromSource source).2.Metered quantum := by
  rcases os.loadProgramFromSource_cases source with ⟨physical, _, same⟩ | ⟨program, layout, physical, _, _, same⟩
  · rw [same]
    exact metered.congr rfl rfl
  · rw [same]
    exact metered.published physical layout

/-- An instruction is executed to its end, its load callback included. -/
theorem execution (metered : os.Metered quantum) (running : process.state = .Running) {files : FileSystem}
    {outcome : Except Exception ExecutionResult × VirtualOS} (execution : Execution files os p process outcome) :
    outcome.2.Metered quantum := by
  have context : (os.update p (os.context process)).Metered quantum := metered.instruction running (.refl _)
  have frame := beginInstruction_frame (os.context process)
  cases execution with
  | threw began fails =>
    rw [began] at frame
    exact metered.instruction running frame
  | finished began =>
    rw [began] at frame
    exact metered.instruction running frame
  | loadFailed load left failed => exact context.congr rfl rfl
  | loaded completes load opened accepted ran => exact (context.published _ _).finishLoad p

theorem stepProcess (metered : os.Metered quantum) (files : FileSystem) (id : ProcessId) :
    (os.stepProcess files id).2.Metered quantum := by
  cases known : os.processTable.find id with
  | none =>
    rw [stepProcess_of_find_none known]
    exact metered
  | some p =>
    obtain ⟨process, here⟩ := process?_of_find known
    have running : (os.setState p .Running).Metered quantum := metered.sets (fun _ => rfl) (by decide)
    rw [stepProcess_of_find known here]
    exact running.execution rfl (executeInstruction_execution files _ p _)

theorem stepLoop (metered : os.Metered quantum) (files : FileSystem) (id : ProcessId) (steps : Nat)
    (last : ExecutionResult) : (VirtualOS.stepLoop files id steps last os).2.Metered quantum :=
  stepLoop_invariant (fun _ metered => metered.stepProcess files id) metered steps last

/-- A core makes a process ready only at the end of a turn that leaves its flags clear. -/
theorem coreMove (metered : os.Metered quantum) {files : FileSystem} {stopRequested : Bool} {state next : CoreState}
    (move : CoreMove files stopRequested os state next after)
    (scheduler : after.scheduler.quantum = os.scheduler.quantum) (consistent : state.Consistent os)
    {instructions : List ExecutionContext} (inTurn : state.InTurn quantum os instructions)
    (published : ∀ p child, state = .loading p child .emplaced →
      ∃ process, os.process? child = some process ∧ process.state = .Ready) : after.Metered quantum := by
  have runs : ∀ {p process}, os.process? p = some process → state = .holding p → process.state = .Running := by
    rintro p process found rfl
    obtain ⟨same, here, running⟩ := consistent
    obtain rfl := Option.some.inj (found.symm.trans here)
    exact running
  cases move with
  | leave | starve | look | discard | expire | keep | pass | drop | announce => exact metered.congr rfl scheduler
  | @acquire p process scheduler' found ready =>
    have running : (os.modifyProcess p (fun process =>
        (process.setState .Running).resetTimeSlice os.scheduler.quantum)).Metered quantum :=
      metered.sets (fun _ => rfl) (by decide)
    exact running.congr rfl scheduler
  | @throw p process e ctx found alive began =>
    have frame := beginInstruction_frame (os.context process)
    rw [began] at frame
    exact metered.instruction (runs found rfl) frame
  | @finish p process result ctx found alive began =>
    have frame := beginInstruction_frame (os.context process)
    rw [began] at frame
    exact metered.instruction (runs found rfl) frame
  | loadFails found alive load left =>
    exact (metered.instruction (runs found rfl) (.refl _)).congr rfl rfl
  | emplace found alive load opened accepted loaded =>
    exact (metered.instruction (runs found rfl) (.refl _)).emplaced _ _
  | publish =>
    obtain ⟨process, found, ready⟩ := published _ _ rfl
    rw [setState_eq_self found ready]
    exact metered
  | finishLoad =>
    have notified : os.notifyProcessReady.Metered quantum := metered.congr rfl rfl
    exact notified.finishLoad _
  | halt found ended => exact metered.sets (fun _ => rfl) (by decide)
  | fail found alive => exact metered.sets (fun _ => rfl) (by decide)
  | yield found alive continues =>
    refine metered.modifyProcess fun process here ready => ?_
    obtain ⟨same, here', running | ⟨halted, -⟩⟩ := consistent
    · obtain rfl := Option.some.inj (here.symm.trans here')
      exact absurd (ready.symm.trans running) (by decide)
    · obtain rfl := Option.some.inj (here.symm.trans here')
      exact absurd (ready.symm.trans halted) (by decide)
  | preempt found running scheduler' =>
    obtain ⟨same, here, -, -, clear⟩ := inTurn
    obtain rfl := Option.some.inj (found.symm.trans here)
    have ready : (os.setState _ .Ready).Metered quantum := metered.modifyProcess fun process again _ => by
      obtain rfl := Option.some.inj (found.symm.trans again)
      exact clear
    exact ready.congr rfl scheduler
  | giveBack found alive =>
    obtain ⟨same, here, -, halted⟩ := inTurn
    obtain rfl := Option.some.inj (found.symm.trans here)
    exact absurd halted alive

end Metered

end VirtualOS

end VirtualMachine
