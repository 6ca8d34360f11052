import VirtualMachine.Os.Separation

namespace VirtualMachine

open ProgramLoader

/-- What the loader promises about the layout of any program it has loaded: the
segments follow one another and code and data end inside physical memory. The
stack can reach beyond the region, and beyond the memory. -/
structure MemoryRegionLayout.Placed (layout : MemoryRegionLayout) : Prop extends layout.Packed where
  inside : layout.base.toNat + layout.codeSize + layout.dataSize ≤ kDefaultPhysicalMemorySize
  stackSize : layout.stackSize = kStackSize

/-- SP starts one word below the end of the stack. -/
theorem MemoryRegionLayout.Placed.initialStackPointer {layout : MemoryRegionLayout} (placed : layout.Placed) :
    (VirtualOS.initialStackPointer layout).toNat = layout.stackAddress.toNat + 4092 := by
  have bounded := placed.bounded
  have stackAddress := placed.toPacked.stackAddress
  have stackSize := placed.stackSize
  have size : kStackSize = 4096 := rfl
  rw [VirtualOS.initialStackPointer, BitVec.toNat_ofNat, wordSize, Nat.mod_eq_of_lt (by omega)]
  omega

/-- The loader writes and allocates, but the memory has a fixed size. -/
theorem ProgramLoader.load_size {physical after : PhysicalMemory} {program : AssembledProgram}
    {outcome : Except Exception MemoryRegionLayout} (size : physical.size = kDefaultPhysicalMemorySize)
    (ran : load physical program = (outcome, after)) : after.size = kDefaultPhysicalMemorySize := by
  rcases load_cases size program with ⟨_, _, loaded, sizes, _⟩ | ⟨_, _, _, failed, sizes, _⟩
  · rw [ran] at loaded
    cases loaded
    exact sizes
  · rw [ran] at failed
    cases failed
    exact sizes

/-- The loader gives a placed layout to every program it accepts, also to one
that does not fit its region. -/
theorem ProgramLoader.load_placed {physical after : PhysicalMemory} {program : AssembledProgram}
    {layout : MemoryRegionLayout} (size : physical.size = kDefaultPhysicalMemorySize)
    (ran : load physical program = (.ok layout, after)) : layout.Placed := by
  rcases load_cases size program with ⟨loads, _, loaded, _⟩ | ⟨_, _, _, failed, _⟩
  · rw [ran] at loaded
    cases loaded
    have inside := loads.2
    rw [size] at inside
    have bound : kDefaultPhysicalMemorySize + kStackSize < 2 ^ 32 := by decide
    have packed : (layoutFor physical.nextFreeAddress program).Packed := layoutFor_packed (by omega)
    refine { packed with inside := ?_, stackSize := rfl }
    rw [base_layoutFor, codeSize_layoutFor, dataSize_layoutFor]
    omega
  · rw [ran] at failed
    cases failed

namespace VirtualOS

/-- Every process of the machine has a layout from the loader. -/
structure Placed (os : VirtualOS) : Prop where
  size : os.physicalMemory.size = kDefaultPhysicalMemorySize
  layouts : ∀ layout ∈ os.layouts, layout.Placed

/-- Nor does a load that fails change it. -/
theorem FailedLoad.size {source : Text} {before after : PhysicalMemory} (failed : FailedLoad source before after)
    (size : before.size = kDefaultPhysicalMemorySize) : after.size = kDefaultPhysicalMemorySize := by
  rcases failed with rfl | ⟨program, e, accepted, ran⟩
  · exact size
  · exact load_size size ran

theorem FailedFile.size {files : FileSystem} {path : List Byte} {before after : PhysicalMemory}
    (failed : FailedFile files path before after) (size : before.size = kDefaultPhysicalMemorySize) :
    after.size = kDefaultPhysicalMemorySize := by
  rcases failed with rfl | ⟨source, opened, failed⟩
  · exact size
  · exact failed.size size

namespace Placed

variable {os after : VirtualOS} {p : ProcessRef} {process : ProcessControlBlock}

/-- A machine without processes is placed. -/
theorem create (quantum : Nat) (input : List Word) : (VirtualOS.create quantum input).Placed where
  size := rfl
  layouts := by
    intro layout member
    cases member

theorem layout (placed : os.Placed) (found : os.process? p = some process) : process.layout.Placed :=
  placed.layouts process.layout (List.mem_map.mpr ⟨process, List.mem_of_getElem? found, rfl⟩)

/-- The placement of a machine depends on its layouts and on the size of its memory,
so whatever keeps both keeps it. -/
theorem congr (placed : os.Placed) (layouts : after.layouts = os.layouts)
    (size : after.physicalMemory.size = os.physicalMemory.size) : after.Placed where
  size := size.trans placed.size
  layouts := by
    rw [layouts]
    exact placed.layouts

theorem modifyProcess (placed : os.Placed) {f : ProcessControlBlock → ProcessControlBlock}
    (layout : ∀ process, (f process).layout = process.layout) : (os.modifyProcess p f).Placed :=
  placed.congr (os.processTable.map_modify p f (fun process => process.layout) layout) rfl

theorem setState (placed : os.Placed) (state : ProcessState) : (os.setState p state).Placed :=
  placed.modifyProcess (fun _ => rfl)

/-- An instruction changes no layout. -/
theorem update (placed : os.Placed) (found : os.process? p = some process) {ctx : ExecutionContext}
    (frame : InstructionFrame (os.context process) ctx) : (os.update p ctx).Placed :=
  placed.congr (os.map_update (fun process => process.layout) found frame.layout) frame.size

/-- A new process has the layout that the loader has just made. -/
theorem emplaced (placed : os.Placed) {program : AssembledProgram} {layout : MemoryRegionLayout}
    {physical : PhysicalMemory} (ran : load os.physicalMemory program = (.ok layout, physical)) :
    (os.emplaced physical layout).Placed where
  size := load_size placed.size ran
  layouts := by
    intro other member
    rw [VirtualOS.layouts, VirtualOS.emplaced, ProcessTable.emplace, List.map_append, List.mem_append] at member
    rcases member with old | new
    · exact placed.layouts other old
    · obtain rfl := List.mem_singleton.mp new
      exact load_placed placed.size ran

theorem finishLoad (placed : os.Placed) : (os.finishLoad p).Placed := by
  cases found : os.process? p with
  | none =>
    rw [VirtualOS.finishLoad, found]
    exact placed
  | some process =>
    rw [VirtualOS.finishLoad_eq found]
    exact placed.update found (finishCall_frame (some .Load) _)

theorem published (placed : os.Placed) {program : AssembledProgram} {layout : MemoryRegionLayout}
    {physical : PhysicalMemory} (ran : load os.physicalMemory program = (.ok layout, physical)) :
    (os.published physical layout).Placed :=
  ((placed.emplaced ran).setState .Ready).congr rfl rfl

/-- An instruction is executed to its end, its load callback included. -/
theorem execution (placed : os.Placed) (found : os.process? p = some process) {files : FileSystem}
    {outcome : Except Exception ExecutionResult × VirtualOS} (execution : Execution files os p process outcome) :
    outcome.2.Placed := by
  have context : (os.update p (os.context process)).Placed := placed.update found (.refl _)
  have frame := beginInstruction_frame (os.context process)
  cases execution with
  | threw began fails =>
    rw [began] at frame
    exact placed.update found frame
  | finished began =>
    rw [began] at frame
    exact placed.update found frame
  | loadFailed load left failed => exact ⟨left.size placed.size, context.layouts⟩
  | loaded completes load opened accepted ran => exact (context.published ran).finishLoad

/-- A call of `step` is one instruction after another. -/
theorem stepProcess (placed : os.Placed) (files : FileSystem) (id : ProcessId) :
    (os.stepProcess files id).2.Placed := by
  cases known : os.processTable.find id with
  | none =>
    rw [stepProcess_of_find_none known]
    exact placed
  | some p =>
    obtain ⟨process, here⟩ := process?_of_find known
    have running : (os.setState p .Running).process? p = some (process.setState .Running) := by
      rw [process?_setState_same, here]
      rfl
    rw [stepProcess_of_find known here]
    exact (placed.setState .Running).execution running (executeInstruction_execution files _ p _)

theorem stepLoop (placed : os.Placed) (files : FileSystem) (id : ProcessId) (steps : Nat) (last : ExecutionResult) :
    (VirtualOS.stepLoop files id steps last os).2.Placed :=
  stepLoop_invariant (fun _ placed => placed.stepProcess files id) placed steps last

/-- So is every step of a core, the load system call in its three parts included. -/
theorem coreMove (placed : os.Placed) {files : FileSystem} {stopRequested : Bool} {state next : CoreState}
    (move : CoreMove files stopRequested os state next after) : after.Placed := by
  cases move with
  | leave | starve | look | discard | expire | keep | pass | drop | announce => exact placed.congr rfl rfl
  | @acquire p process scheduler found ready =>
    have running : (os.modifyProcess p (fun process =>
        (process.setState .Running).resetTimeSlice os.scheduler.quantum)).Placed := placed.modifyProcess (fun _ => rfl)
    exact running.congr rfl rfl
  | @throw p process e ctx found alive began =>
    have frame := beginInstruction_frame (os.context process)
    rw [began] at frame
    exact placed.update found frame
  | @finish p process result ctx found alive began =>
    have frame := beginInstruction_frame (os.context process)
    rw [began] at frame
    exact placed.update found frame
  | loadFails found alive load left => exact ⟨left.size placed.size, (placed.update found (.refl _)).layouts⟩
  | emplace found alive load opened accepted loaded => exact (placed.update found (.refl _)).emplaced loaded
  | publish => exact placed.setState .Ready
  | finishLoad =>
    have notified : os.notifyProcessReady.Placed := placed.congr rfl rfl
    exact notified.finishLoad
  | halt found ended => exact placed.setState .Halted
  | fail found alive => exact placed.modifyProcess (fun _ => rfl)
  | yield found alive continues => exact placed.modifyProcess (fun _ => rfl)
  | preempt found running scheduler => exact (placed.setState .Ready).congr rfl rfl
  | giveBack found alive => exact placed.setState .Ready

end Placed

end VirtualOS

namespace Machine

open TransitionSystem

variable {κ : Type} [DecidableEq κ] [Fintype κ] {files : FileSystem} {machine next : Machine κ} {action : Action κ}

/-- One action of the machine, by the caller or by a core. -/
theorem placed_step (placed : machine.os.Placed) (taken : machine.step files action = some next) : next.os.Placed := by
  cases step_move taken with
  | load source idle =>
    rcases machine.os.loadProgramFromSource_cases source
      with ⟨physical, failed, same⟩ | ⟨program, layout, physical, _, ran, same⟩
    · rw [same]
      exact ⟨failed.size placed.size, placed.layouts⟩
    · rw [same]
      exact placed.published ran
  | step id steps idle => exact placed.stepLoop files id steps .Continue
  | start idle => exact placed.congr rfl rfl
  | stop waiting halted => exact placed.congr rfl rfl
  | join stopping exited => exact placed
  | core c move => exact placed.coreMove move

/-- In every run of a machine, whatever it loads, each process keeps the layout
that the loader has given it. -/
theorem placed_of_run {quantum : Nat} {input : List Word} {actions : List (Action κ)}
    (ran : run files (boot quantum input) actions = some machine) : machine.os.Placed :=
  run_invariant_of_step (fun _ _ _ placed taken => placed_step placed taken) (VirtualOS.Placed.create quantum input) ran

end Machine

end VirtualMachine
