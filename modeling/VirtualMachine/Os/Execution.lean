import VirtualMachine.Cpu.InstructionOutcome
import VirtualMachine.Os.Loading

namespace VirtualMachine

open ProgramLoader

/-- Nothing has happened to the processes that were in the table, `p` apart, and
the processes that are new are ready. Ids stay for good. -/
structure OthersKept (p : ProcessRef) (before after : VirtualOS) : Prop where
  kept : ∀ q, q ≠ p → q < before.processTable.processes.length → after.process? q = before.process? q
  fresh : ∀ q process, q ≠ p → before.processTable.processes.length ≤ q → after.process? q = some process →
    process.state = .Ready
  ids : before.processTable.processes.map (fun process => process.id) <+:
    after.processTable.processes.map (fun process => process.id)

namespace OthersKept

variable {p : ProcessRef} {os before middle after : VirtualOS}

theorem length (others : OthersKept p before after) :
    before.processTable.processes.length ≤ after.processTable.processes.length := by
  simpa only [List.length_map] using others.ids.length_le

theorem refl (p : ProcessRef) (os : VirtualOS) : OthersKept p os os where
  kept _ _ _ := rfl
  fresh _ _ _ beyond found := absurd (VirtualOS.lt_length_of_process? found) (Nat.not_lt.mpr beyond)
  ids := List.prefix_refl _

theorem trans (first : OthersKept p before middle) (last : OthersKept p middle after) : OthersKept p before after where
  kept q other old := (last.kept q other (Nat.lt_of_lt_of_le old first.length)).trans (first.kept q other old)
  fresh q process other beyond found := by
    by_cases inMiddle : q < middle.processTable.processes.length
    · rw [last.kept q other inMiddle] at found
      exact first.fresh q process other beyond found
    · exact last.fresh q process other (Nat.le_of_not_lt inMiddle) found
  ids := first.ids.trans last.ids

/-- Only the table of processes matters. -/
theorem congr (others : OthersKept p before middle) (same : after.processTable = middle.processTable) :
    OthersKept p before after := by
  have process? : ∀ q, after.process? q = middle.process? q := fun q => by
    rw [VirtualOS.process?, VirtualOS.process?, same]
  refine ⟨fun q other old => ?_, fun q process other beyond found => ?_, ?_⟩
  · rw [process?]
    exact others.kept q other old
  · rw [process?] at found
    exact others.fresh q process other beyond found
  · rw [same]
    exact others.ids

theorem of_modifyProcess (os : VirtualOS) (p : ProcessRef) {f : ProcessControlBlock → ProcessControlBlock}
    (id : ∀ process, (f process).id = process.id) : OthersKept p os (os.modifyProcess p f) where
  kept _ other _ := os.process?_modifyProcess_other f other
  fresh q process other beyond found := by
    rw [os.process?_modifyProcess_other f other] at found
    exact absurd (VirtualOS.lt_length_of_process? found) (Nat.not_lt.mpr beyond)
  ids := by
    have same := ProcessTable.map_modify os.processTable p f (fun process => process.id) id
    exact same ▸ List.prefix_refl _

/-- The id that an instruction leaves in its process is the one it has found there. -/
theorem of_update {process : ProcessControlBlock} {ctx : ExecutionContext} (found : os.process? p = some process)
    (id : ctx.process.id = process.id) : OthersKept p os (os.update p ctx) where
  kept _ other _ := os.process?_update_other ctx other
  fresh q process other beyond found := by
    rw [os.process?_update_other ctx other] at found
    exact absurd (VirtualOS.lt_length_of_process? found) (Nat.not_lt.mpr beyond)
  ids := by
    have same := os.map_update (fun process => process.id) found id
    exact same ▸ List.prefix_refl _

theorem of_emplaced (p : ProcessRef) (os : VirtualOS) (physical : PhysicalMemory) (layout : MemoryRegionLayout) :
    OthersKept p os (os.emplaced physical layout) where
  kept _ _ old := os.process?_emplaced_old physical layout old
  fresh q process _ beyond found := by
    have bound := VirtualOS.lt_length_of_process? found
    rw [VirtualOS.length_emplaced] at bound
    obtain rfl : q = os.processTable.processes.length := Nat.le_antisymm (Nat.lt_succ_iff.mp bound) beyond
    rw [VirtualOS.process?_emplaced_new] at found
    cases found
    rfl
  ids := by
    simp only [VirtualOS.emplaced, ProcessTable.emplace, List.map_append]
    exact List.prefix_append _ _

/-- The write of `Ready` that publishes a new process. -/
theorem of_publish (p : ProcessRef) (os : VirtualOS) {child : ProcessRef} {process : ProcessControlBlock}
    (found : os.process? child = some process) (ready : process.state = .Ready) :
    OthersKept p os (os.setState child .Ready) where
  kept q _ _ := by
    by_cases same : q = child
    · subst same
      rw [VirtualOS.process?_setState_same, found, Option.map_some]
      exact congrArg some (by rw [ProcessControlBlock.setState, ← ready])
    · exact os.process?_setState_other _ same
  fresh q process _ beyond present := by
    have bound := VirtualOS.lt_length_of_process? present
    rw [VirtualOS.length_setState] at bound
    exact absurd bound (Nat.not_lt.mpr beyond)
  ids := by
    have same := ProcessTable.map_modify os.processTable child (fun process => process.setState .Ready)
      (fun process => process.id) (fun _ => rfl)
    exact same ▸ List.prefix_refl _

end OthersKept

/-- The machine with a new process that has been published. -/
def VirtualOS.published (os : VirtualOS) (physical : PhysicalMemory) (layout : MemoryRegionLayout) : VirtualOS :=
  ((os.emplaced physical layout).setState os.processTable.processes.length .Ready).notifyProcessReady

theorem OthersKept.of_published (p : ProcessRef) (os : VirtualOS) (physical : PhysicalMemory)
    (layout : MemoryRegionLayout) : OthersKept p os (os.published physical layout) := by
  have emplaced := OthersKept.of_emplaced p os physical layout
  have published := OthersKept.of_publish p (os.emplaced physical layout) (os.process?_emplaced_new physical layout) rfl
  exact (emplaced.trans published).congr rfl

/-- A call of the interface that loads a source. -/
theorem VirtualOS.loadProgramFromSource_cases (os : VirtualOS) (source : Text) :
    (∃ physical, FailedLoad source os.physicalMemory physical ∧
        (os.loadProgramFromSource source).2 = { os with physicalMemory := physical }) ∨
      ∃ program layout physical, program? source = some program ∧
        load os.physicalMemory program = (.ok layout, physical) ∧
        (os.loadProgramFromSource source).2 = os.published physical layout := by
  unfold loadProgramFromSource
  rcases os.emplaceProgram_outcome source with
    ⟨e, physical, left, failed⟩ | ⟨program, layout, physical, accepted, loaded, emplaced⟩
  · exact Or.inl ⟨physical, left, by rw [failed]; rfl⟩
  · exact Or.inr ⟨program, layout, physical, accepted, loaded, by rw [emplaced]; rfl⟩

/-- How an `executeInstruction` that runs its load callback to the end can end. -/
inductive Execution (files : FileSystem) (os : VirtualOS) (p : ProcessRef) (process : ProcessControlBlock) :
    Except Exception ExecutionResult × VirtualOS → Prop
  | threw {e ctx} (began : beginInstruction (os.context process) = (.error e, ctx))
      (fails : ¬ (os.context process).Completes) : Execution files os p process (.error e, os.update p ctx)
  | finished {result ctx} (began : beginInstruction (os.context process) = (.ok (.finished result), ctx)) :
      Execution files os p process (.ok result, os.update p ctx)
  | loadFailed {path e physical} (load : (os.context process).loadPath? = some path)
      (left : VirtualOS.FailedFile files path os.physicalMemory physical)
      (failed : (os.update p (os.context process)).emplaceFile files path =
        (.error e, { os.update p (os.context process) with physicalMemory := physical })) :
      Execution files os p process (.error e, { os.update p (os.context process) with physicalMemory := physical })
  | loaded {path source program layout physical} (completes : (os.context process).Completes)
      (load : (os.context process).loadPath? = some path) (opened : files path = some source)
      (accepted : VirtualOS.program? source = some program)
      (ran : ProgramLoader.load os.physicalMemory program = (.ok layout, physical)) :
      Execution files os p process
        (.ok .Continue, ((os.update p (os.context process)).published physical layout).finishLoad p)

namespace VirtualOS

variable {files : FileSystem} {os : VirtualOS} {p : ProcessRef} {process : ProcessControlBlock}

theorem executeInstruction_execution (files : FileSystem) (os : VirtualOS) (p : ProcessRef)
    (process : ProcessControlBlock) : Execution files os p process (os.executeInstruction files p process) := by
  have outcome := beginInstruction_outcome (os.context process)
  unfold executeInstruction beginInstruction
  rcases began : VirtualMachine.beginInstruction (os.context process) with ⟨progress, ctx⟩
  rw [began] at outcome
  cases outcome with
  | threw fails => exact .threw began fails
  | finished completes noLoad failed halted alive => exact .finished began
  | @loading path completes load =>
    dsimp only
    rcases emplaceFile_cases files (os.update p (os.context process)) path with
      ⟨e, physical, left, failed⟩ | ⟨source, program, layout, physical, opened, accepted, ran, emplaced⟩
    · rw [failed]
      exact .loadFailed load left failed
    · rw [emplaced]
      exact .loaded completes load opened accepted ran

end VirtualOS

namespace Execution

variable {files : FileSystem} {os : VirtualOS} {p : ProcessRef} {process : ProcessControlBlock}
  {outcome : Except Exception ExecutionResult × VirtualOS}

/-- The machine on which the end of a load system call works. -/
theorem published_process? (found : os.process? p = some process) (physical : PhysicalMemory)
    (layout : MemoryRegionLayout) :
    ((os.update p (os.context process)).published physical layout).process? p = some process := by
  have current := os.process?_update_same (os.context process) found
  have bound := VirtualOS.lt_length_of_process? current
  have differ : p ≠ (os.update p (os.context process)).processTable.processes.length := Nat.ne_of_lt bound
  rw [VirtualOS.published, VirtualOS.process?_notifyProcessReady, VirtualOS.process?_setState_other _ _ differ,
    VirtualOS.process?_emplaced_old _ _ _ bound]
  exact current

theorem others (execution : Execution files os p process outcome) (found : os.process? p = some process) :
    OthersKept p os outcome.2 := by
  cases execution with
  | threw began fails =>
    have frame := beginInstruction_frame (os.context process)
    rw [began] at frame
    exact .of_update found frame.id
  | finished began =>
    have frame := beginInstruction_frame (os.context process)
    rw [began] at frame
    exact .of_update found frame.id
  | loadFailed load left failed =>
    have updated : OthersKept p os (os.update p (os.context process)) := .of_update found rfl
    exact updated.congr rfl
  | @loaded path source program layout physical completes load opened accepted ran =>
    have updated : OthersKept p os (os.update p (os.context process)) := .of_update found rfl
    have current := published_process? found physical layout
    dsimp only
    rw [VirtualOS.finishLoad_eq current]
    exact (updated.trans (.of_published p _ physical layout)).trans
      (.of_update current (finishCall_frame (some .Load) _).id)

/-- The process after its instruction, wherever it ends. -/
theorem own (execution : Execution files os p process outcome) (found : os.process? p = some process) :
    ∃ current, outcome.2.process? p = some current ∧ (outcome.1 = .ok .Error → current.lastError.isSome = true) ∧
      (outcome.1 = .ok .Halt → current.context.halted = true) := by
  have instruction := beginInstruction_outcome (os.context process)
  cases execution with
  | @threw e ctx began fails =>
    exact ⟨ctx.process, os.process?_update_same ctx found, (fun error => nomatch error), fun halt => nomatch halt⟩
  | @finished result ctx began =>
    rw [began] at instruction
    cases instruction with
    | finished completes noLoad failed halted alive =>
      exact ⟨ctx.process, os.process?_update_same ctx found, fun error => failed (Except.ok.inj error),
        fun halt => halted (Except.ok.inj halt)⟩
  | loadFailed load left failed =>
    exact ⟨process, os.process?_update_same (os.context process) found, (fun error => nomatch error),
      fun halt => nomatch halt⟩
  | @loaded path source program layout physical completes load opened accepted ran =>
    have current := published_process? found physical layout
    dsimp only
    rw [VirtualOS.finishLoad_eq current]
    exact ⟨_, VirtualOS.process?_update_same _ _ current, (fun error => nomatch error), fun halt => nomatch halt⟩

end Execution

end VirtualMachine
