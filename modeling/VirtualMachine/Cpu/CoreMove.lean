import VirtualMachine.Cpu.CoreLoop
import VirtualMachine.Cpu.InstructionOutcome
import VirtualMachine.Os.Loading

namespace VirtualMachine

open ProgramLoader

/-- The steps of a core by what they do: from a state of the core and a machine
to the next ones. -/
inductive CoreMove (files : FileSystem) (stopRequested : Bool) (os : VirtualOS) :
    CoreState → CoreState → VirtualOS → Prop
  /-- The core leaves its loop, without a look at the process it may hold. -/
  | leave {state} (stop : stopRequested = true) (top : state = .seeking ∨ state = .idle ∨ ∃ p, state = .holding p) :
      CoreMove files stopRequested os state .exited os
  | starve (scheduler : PreemptiveScheduler) :
    CoreMove files stopRequested os .seeking .idle { os with scheduler := scheduler }
  | acquire {p process} (scheduler : PreemptiveScheduler) (found : os.process? p = some process)
      (ready : process.state = .Ready) :
      CoreMove files stopRequested os .seeking (.holding p)
        { os.modifyProcess p (fun process => (process.setState .Running).resetTimeSlice os.scheduler.quantum) with
          scheduler := scheduler }
  | look : CoreMove files stopRequested os .idle .seeking os.notifyProcessReady
  | discard {p process} (found : os.process? p = some process)
      (halted : process.context.halted = true ∨ process.state = .Halted) :
      CoreMove files stopRequested os (.holding p) (.releasing p false) os
  | throw {p process e ctx} (found : os.process? p = some process)
      (alive : process.context.halted = false ∧ process.state ≠ .Halted)
      (began : beginInstruction (os.context process) = (.error e, ctx)) :
      CoreMove files stopRequested os (.holding p) .terminated (os.update p ctx)
  | finish {p process result ctx} (found : os.process? p = some process)
      (alive : process.context.halted = false ∧ process.state ≠ .Halted)
      (began : beginInstruction (os.context process) = (.ok (.finished result), ctx)) :
      CoreMove files stopRequested os (.holding p) (.executed p result) (os.update p ctx)
  | loadFails {p process path} (found : os.process? p = some process)
      (alive : process.context.halted = false ∧ process.state ≠ .Halted)
      (load : (os.context process).loadPath? = some path) {physical : PhysicalMemory}
      (left : VirtualOS.FailedFile files path os.physicalMemory physical) :
      CoreMove files stopRequested os (.holding p) .terminated
        { os.update p (os.context process) with physicalMemory := physical }
  | emplace {p process path source program layout physical} (found : os.process? p = some process)
      (alive : process.context.halted = false ∧ process.state ≠ .Halted)
      (load : (os.context process).loadPath? = some path) (opened : files path = some source)
      (accepted : VirtualOS.program? source = some program)
      (loaded : ProgramLoader.load os.physicalMemory program = (.ok layout, physical)) :
      CoreMove files stopRequested os (.holding p) (.loading p os.processTable.processes.length .emplaced)
        ((os.update p (os.context process)).emplaced physical layout)
  | publish {p child} : CoreMove files stopRequested os (.loading p child .emplaced) (.loading p child .ready)
      (os.setState child .Ready)
  | finishLoad {p child} :
      CoreMove files stopRequested os (.loading p child .ready) (.executed p .Continue)
        (os.notifyProcessReady.finishLoad p)
  | halt {p process result} (found : os.process? p = some process)
      (ended : result = .Halt ∨ process.context.halted = true) :
      CoreMove files stopRequested os (.executed p result) (.releasing p false) (os.setState p .Halted)
  | fail {p process} (found : os.process? p = some process) (alive : process.context.halted = false) :
      CoreMove files stopRequested os (.executed p .Error) (.releasing p false)
        (os.modifyProcess p (fun process => (process.setState .Halted).setHalted true))
  | yield {p process result} (found : os.process? p = some process) (alive : process.context.halted = false)
      (continues : result ≠ .Halt ∧ result ≠ .Error) :
      CoreMove files stopRequested os (.executed p result) (.releasing p true)
        (os.modifyProcess p (fun process => process.setShouldYield false))
  | expire {p process result} (found : os.process? p = some process) (alive : process.context.halted = false)
      (continues : result ≠ .Halt ∧ result ≠ .Error) :
        CoreMove files stopRequested os (.executed p result) (.releasing p true) os
  | keep {p process result} (found : os.process? p = some process) (alive : process.context.halted = false)
      (continues : result ≠ .Halt ∧ result ≠ .Error) :
        CoreMove files stopRequested os (.executed p result) (.holding p) os
  | preempt {p process} (found : os.process? p = some process) (running : process.state = .Running)
      (scheduler : PreemptiveScheduler) :
      CoreMove files stopRequested os (.releasing p true) .seeking { os.setState p .Ready with scheduler := scheduler }
  | pass {p process} (found : os.process? p = some process) (ready : process.state = .Ready) :
      CoreMove files stopRequested os (.releasing p true) .seeking os
  | giveBack {p process} (found : os.process? p = some process) (alive : process.state ≠ .Halted) :
      CoreMove files stopRequested os (.releasing p false) .notifying (os.setState p .Ready)
  | drop {p process preempt} (found : os.process? p = some process) (halted : process.state = .Halted) :
      CoreMove files stopRequested os (.releasing p preempt) .seeking os.notifyProcessReady
  | announce : CoreMove files stopRequested os .notifying .seeking os.notifyProcessReady

namespace CoreLoop

variable {files : FileSystem} {stopRequested : Bool} {os after : VirtualOS} {state next : CoreState}
  {p : ProcessRef} {process : ProcessControlBlock}

theorem acquire_move (taken : acquire os = some (next, after)) :
    CoreMove files stopRequested os .seeking next after := by
  unfold acquire at taken
  split at taken
  · cases taken
  · rename_i found scheduler table acquired
    dsimp only at taken
    split at taken
    · cases taken
      rw [PreemptiveScheduler.acquireProcess_none acquired]
      exact .starve scheduler
    · rename_i p
      cases taken
      obtain ⟨process, here, ready, rfl⟩ := PreemptiveScheduler.acquireProcess_some acquired
      exact .acquire scheduler here ready

theorem execute_move (found : os.process? p = some process)
    (alive : process.context.halted = false ∧ process.state ≠ .Halted) :
    CoreMove files stopRequested os (.holding p) (execute files os p process).1 (execute files os p process).2 := by
  have outcome := beginInstruction_outcome (os.context process)
  unfold execute VirtualOS.beginInstruction
  rcases began : beginInstruction (os.context process) with ⟨progress, ctx⟩
  rw [began] at outcome
  cases outcome with
  | threw fails => exact .throw found alive began
  | finished completes noLoad failed halted kept => exact .finish found alive began
  | @loading path completes load =>
    dsimp only
    unfold startLoad
    rcases VirtualOS.emplaceFile_cases files (os.update p (os.context process)) path with
      ⟨e, physical, left, failed⟩ | ⟨source, program, layout, physical, opened, accepted, loaded, emplaced⟩
    · rw [failed]
      exact .loadFails found alive load left
    · rw [emplaced]
      have length := os.length_update (p := p) (os.context process)
      rw [length]
      exact .emplace found alive load opened accepted loaded

theorem dispose_move (found : os.process? p = some process) (result : ExecutionResult) :
    CoreMove files stopRequested os (.executed p result)
    (dispose os p process result).1 (dispose os p process result).2 := by
  unfold dispose
  split
  · rename_i ended
    exact .halt found ended
  · rename_i alive
    have notHalt : result ≠ .Halt := fun same => alive (Or.inl same)
    have running : process.context.halted = false := by
      cases flag : process.context.halted
      · rfl
      · exact absurd (Or.inr flag) alive
    split
    · rename_i error
      subst error
      exact .fail found running
    · rename_i notError
      split
      · exact .yield found running ⟨notHalt, notError⟩
      · split
        · exact .expire found running ⟨notHalt, notError⟩
        · exact .keep found running ⟨notHalt, notError⟩

theorem release_move (found : os.process? p = some process) (preempt : Bool) :
    CoreMove files stopRequested os (.releasing p preempt)
    (release os p process preempt).1 (release os p process preempt).2 := by
  by_cases halted : process.state = .Halted
  · rw [release_halted preempt halted]
    exact .drop found halted
  · cases preempt with
    | false =>
      rw [release_giveBack halted]
      exact .giveBack found halted
    | true =>
      cases state : process.state with
      | Running =>
        rw [release_preempt found state]
        exact .preempt found state _
      | Ready =>
        rw [release_ready found state]
        exact .pass found state
      | Halted => exact absurd state halted

/-- Everything a core can do in one step. -/
theorem step_move (taken : step files stopRequested os state = some (next, after)) :
    CoreMove files stopRequested os state next after := by
  cases state with
  | seeking =>
    simp only [step] at taken
    split at taken
    · rename_i stop
      cases taken
      exact .leave stop (Or.inl rfl)
    · exact acquire_move taken
  | idle =>
    simp only [step] at taken
    split at taken
    · rename_i stop
      cases taken
      exact .leave stop (Or.inr (Or.inl rfl))
    · cases taken
      exact .look
  | holding p =>
    simp only [step] at taken
    split at taken
    · rename_i stop
      cases taken
      exact .leave stop (Or.inr (Or.inr ⟨p, rfl⟩))
    · obtain ⟨process, found, moved⟩ := Option.map_eq_some_iff.mp taken
      split at moved
      · rename_i halted
        cases moved
        exact .discard found halted
      · rename_i alive
        rw [not_or, Bool.not_eq_true] at alive
        obtain ⟨rfl, rfl⟩ := Prod.ext_iff.mp moved
        exact execute_move found alive
  | loading p child stage =>
    cases stage with
    | emplaced =>
      cases taken
      exact .publish
    | ready =>
      cases taken
      exact .finishLoad
  | executed p result =>
    obtain ⟨process, found, moved⟩ := Option.map_eq_some_iff.mp taken
    obtain ⟨rfl, rfl⟩ := Prod.ext_iff.mp moved
    exact dispose_move found result
  | releasing p preempt =>
    obtain ⟨process, found, moved⟩ := Option.map_eq_some_iff.mp taken
    obtain ⟨rfl, rfl⟩ := Prod.ext_iff.mp moved
    exact release_move found preempt
  | notifying =>
    cases taken
    exact .announce
  | exited => cases taken
  | terminated => cases taken

end CoreLoop

namespace CoreMove

variable {files : FileSystem} {stopRequested : Bool} {os after : VirtualOS} {state next : CoreState}

theorem finishLoad_process?_other {p q : ProcessRef} (other : q ≠ p) :
    (os.finishLoad p).process? q = os.process? q := by
  unfold VirtualOS.finishLoad
  split
  · rfl
  · exact os.process?_update_other _ other

theorem length_finishLoad (os : VirtualOS) (p : ProcessRef) :
    (os.finishLoad p).processTable.processes.length = os.processTable.processes.length := by
  unfold VirtualOS.finishLoad
  split
  · rfl
  · exact os.length_update _

/-- A step leaves alone every process but the one it holds, takes or publishes. -/
theorem process?_kept (move : CoreMove files stopRequested os state next after) {q : ProcessRef}
    (bound : q < os.processTable.processes.length) (notBefore : state.held ≠ some q) (notAfter : next.held ≠ some q)
    (notChild : ∀ p, state ≠ .loading p q .emplaced) : after.process? q = os.process? q := by
  have own : ∀ {p}, some p ≠ some q → q ≠ p := fun differ same => differ (congrArg some same.symm)
  cases move with
  | leave | starve | look | discard | expire | keep | pass | drop | announce => rfl
  | acquire scheduler found ready => exact os.process?_modifyProcess_other _ (own notAfter)
  | throw found alive began => exact os.process?_update_other _ (own notBefore)
  | finish found alive began => exact os.process?_update_other _ (own notBefore)
  | loadFails found alive load left => exact os.process?_update_other _ (own notBefore)
  | emplace found alive load opened accepted loaded =>
    rw [VirtualOS.process?_emplaced_old _ _ _ (by rwa [os.length_update])]
    exact os.process?_update_other _ (own notBefore)
  | @publish p child => exact os.process?_setState_other _ (fun same => notChild p (by rw [same]))
  | finishLoad => exact finishLoad_process?_other (own notBefore)
  | halt found ended => exact os.process?_setState_other _ (own notBefore)
  | fail found alive => exact os.process?_modifyProcess_other _ (own notBefore)
  | yield found alive continues => exact os.process?_modifyProcess_other _ (own notBefore)
  | preempt found running scheduler => exact os.process?_setState_other _ (own notBefore)
  | giveBack found alive => exact os.process?_setState_other _ (own notBefore)

/-- The table grows only when a loader emplaces a process, which is ready. -/
theorem grows (move : CoreMove files stopRequested os state next after) :
    after.processTable.processes.length = os.processTable.processes.length ∨
      after.processTable.processes.length = os.processTable.processes.length + 1 ∧
        (∃ p, next = .loading p os.processTable.processes.length .emplaced) ∧
        ∃ process, after.process? os.processTable.processes.length = some process ∧ process.state = .Ready := by
  cases move with
  | leave | starve | look | discard | expire | keep | pass | drop | announce => exact Or.inl rfl
  | acquire scheduler found ready => exact Or.inl (os.length_modifyProcess _)
  | throw found alive began => exact Or.inl (os.length_update _)
  | finish found alive began => exact Or.inl (os.length_update _)
  | loadFails found alive load left => exact Or.inl (os.length_update _)
  | @emplace p process path source program layout physical found alive load opened accepted loaded =>
    have new := (os.update p (os.context process)).process?_emplaced_new physical layout
    rw [os.length_update] at new
    refine Or.inr ⟨?_, ⟨p, rfl⟩, _, new, rfl⟩
    rw [VirtualOS.length_emplaced, os.length_update]
  | publish => exact Or.inl (os.length_setState _)
  | finishLoad => exact Or.inl (length_finishLoad os.notifyProcessReady _)
  | halt found ended => exact Or.inl (os.length_setState _)
  | fail found alive => exact Or.inl (os.length_modifyProcess _)
  | yield found alive continues => exact Or.inl (os.length_modifyProcess _)
  | preempt found running scheduler => exact Or.inl (os.length_setState _)
  | giveBack found alive => exact Or.inl (os.length_setState _)

end CoreMove

end VirtualMachine
