import VirtualMachine.Cpu.Instruction
import VirtualMachine.Os.PreemptiveScheduler
import VirtualMachine.Os.ProgramLoader

namespace VirtualMachine

/-- The files that `std::ifstream` opens, with their contents. -/
abbrev FileSystem := List Byte → Option Text

/-- The operating system with its memory, its processes and its two streams: the
numbers that are still to be read, and the words printed so far with the process
that printed each. -/
structure VirtualOS where
  physicalMemory : PhysicalMemory := {}
  processTable : ProcessTable := {}
  scheduler : PreemptiveScheduler
  input : List Word := []
  output : List (ProcessId × Word) := []
  quantum : Nat
  running : Bool := false

namespace VirtualOS

/-- The constructor, on a machine whose input holds these numbers. -/
def create (quantum : Nat) (input : List Word) : VirtualOS :=
  { quantum := quantum, scheduler := { quantum := quantum }, input := input }

def process? (os : VirtualOS) (p : ProcessRef) : Option ProcessControlBlock := os.processTable.processes[p]?

def modifyProcess (os : VirtualOS) (p : ProcessRef) (f : ProcessControlBlock → ProcessControlBlock) : VirtualOS :=
  { os with processTable := os.processTable.modify p f }

def setState (os : VirtualOS) (p : ProcessRef) (state : ProcessState) : VirtualOS :=
  os.modifyProcess p (fun process => process.setState state)

def notifyProcessReady (os : VirtualOS) : VirtualOS :=
  { os with scheduler := os.scheduler.notifyProcessReady os.processTable }

/-- What an instruction of this process works on. -/
def context (os : VirtualOS) (process : ProcessControlBlock) : ExecutionContext :=
  { process := process, physical := os.physicalMemory, input := os.input, output := os.output }

/-- The machine after an instruction of process `p` has left this context. -/
def update (os : VirtualOS) (p : ProcessRef) (ctx : ExecutionContext) : VirtualOS :=
  { os.modifyProcess p (fun _ => ctx.process) with
    physicalMemory := ctx.physical, input := ctx.input, output := ctx.output }

def initialStackPointer (layout : MemoryRegionLayout) : Address :=
  BitVec.ofNat 32 (layout.stackAddress.toNat + kStackSize - wordSize)

/-- The control block `createProcess` builds for a loaded image. -/
def newProcess (os : VirtualOS) (layout : MemoryRegionLayout) (id : ProcessId) : ProcessControlBlock :=
  { id := id
    layout := layout
    context := { registers := { sp := initialStackPointer layout }, timeSliceLeft := os.quantum } }

/-- `createProcess` once the loader has returned. -/
def emplaceLoaded (os : VirtualOS) :
    Except Exception MemoryRegionLayout × PhysicalMemory → Except Exception ProcessRef × VirtualOS
  | (.error e, physical) => (.error e, { os with physicalMemory := physical })
  | (.ok layout, physical) =>
    let (p, table) := os.processTable.emplace (os.newProcess layout)
    (.ok p, { os with physicalMemory := physical, processTable := table })

def createProcess (os : VirtualOS) (program : AssembledProgram) : Except Exception ProcessRef × VirtualOS :=
  os.emplaceLoaded (ProgramLoader.load os.physicalMemory program)

/-- `createProcess` on what the assembler has returned. -/
def emplaceAssembled (os : VirtualOS) : Except Exception AssembledProgram → Except Exception ProcessRef × VirtualOS
  | .error e => (.error e, os)
  | .ok program => os.createProcess program

/-- `loadProgramFromSource` up to the moment the process is in the table. -/
def emplaceProgram (os : VirtualOS) (source : Text) : Except Exception ProcessRef × VirtualOS :=
  os.emplaceAssembled (assemble source)

/-- `loadProgramFromSource` from that moment on. -/
def finishEmplace : Except Exception ProcessRef × VirtualOS → Except Exception ProcessRef × VirtualOS
  | (.error e, os) => (.error e, os)
  | (.ok p, os) => (.ok p, (os.setState p .Ready).notifyProcessReady)

def loadProgramFromSource (os : VirtualOS) (source : Text) : Except Exception ProcessRef × VirtualOS :=
  finishEmplace (os.emplaceProgram source)

def openProgram (files : FileSystem) (path : List Byte) : Except Exception Text :=
  match files path with
  | none =>
    .error (.vmException
      ("failed to open program file: " ++ String.ofList (path.map (fun byte => Char.ofNat byte.toNat))))
  | some source => .ok source

/-- `loadProgram` up to the moment the process is in the table. -/
def emplaceFile (files : FileSystem) (os : VirtualOS) (path : List Byte) : Except Exception ProcessRef × VirtualOS :=
  match openProgram files path with
  | .error e => (.error e, os)
  | .ok source => os.emplaceProgram source

/-- The end of `executeInstruction` when the load callback has returned. -/
def finishLoad (os : VirtualOS) (p : ProcessRef) : VirtualOS :=
  match os.process? p with
  | none => os
  | some process => os.update p (finishCall (some .Load) (os.context process)).2

/-- `executeInstruction` up to its end or to the invocation of the load callback. -/
def beginInstruction (os : VirtualOS) (p : ProcessRef) (process : ProcessControlBlock) :
    Except Exception Progress × VirtualOS :=
  match VirtualMachine.beginInstruction (os.context process) with
  | (outcome, ctx) => (outcome, os.update p ctx)

/-- `executeInstruction`, with the load callback run to its end. -/
def executeInstruction (files : FileSystem) (os : VirtualOS) (p : ProcessRef) (process : ProcessControlBlock) :
    Except Exception ExecutionResult × VirtualOS :=
  match os.beginInstruction p process with
  | (.error e, os) => (.error e, os)
  | (.ok (.finished result), os) => (.ok result, os)
  | (.ok (.loading path), os) =>
    match finishEmplace (os.emplaceFile files path) with
    | (.error e, os) => (.error e, os)
    | (.ok _, os) => (.ok .Continue, os.finishLoad p)

def stepProcess (files : FileSystem) (os : VirtualOS) (id : ProcessId) : Except Exception ExecutionResult × VirtualOS :=
  match os.processTable.find id with
  | none => (.error (.vmException "process not found"), os)
  | some p =>
    let os := os.setState p .Running
    match os.process? p with
    | none => (.error (.vmException "process not found"), os)
    | some process => os.executeInstruction files p process

/-- `VirtualMachine::step`; `last` is the result of the step before. -/
def stepLoop (files : FileSystem) (id : ProcessId) :
    Nat → ExecutionResult → VirtualOS → Except Exception ExecutionResult × VirtualOS
  | 0, last, os => (.ok last, os)
  | steps + 1, _, os =>
    match os.stepProcess files id with
    | (.error e, os) => (.error e, os)
    | (.ok result, os) =>
      if result = .Halt ∨ result = .Error then (.ok result, os) else stepLoop files id steps result os

def step (files : FileSystem) (os : VirtualOS) (id : ProcessId) (steps : Nat) :
    Except Exception ExecutionResult × VirtualOS :=
  stepLoop files id steps .Continue os

section Processes

variable (os : VirtualOS) {p q : ProcessRef}

/-- What a write through the pointer of one process does to that process and to the
others. All that is said about frames above this module rests on these lemmas. -/
theorem process?_modifyProcess_same (f : ProcessControlBlock → ProcessControlBlock) :
    (os.modifyProcess p f).process? p = (os.process? p).map f :=
  os.processTable.getElem?_modify_same p f

theorem process?_modifyProcess_other (f : ProcessControlBlock → ProcessControlBlock) (other : q ≠ p) :
    (os.modifyProcess p f).process? q = os.process? q :=
  os.processTable.getElem?_modify_other f other

theorem process?_setState_same (state : ProcessState) :
    (os.setState p state).process? p = (os.process? p).map (fun process => process.setState state) :=
  os.process?_modifyProcess_same _

theorem process?_setState_other (state : ProcessState) (other : q ≠ p) :
    (os.setState p state).process? q = os.process? q :=
  os.process?_modifyProcess_other _ other

variable {os} in
/-- Writing the state a process has changes nothing. -/
theorem setState_eq_self {process : ProcessControlBlock} {state : ProcessState} (found : os.process? p = some process)
    (already : process.state = state) : os.setState p state = os := by
  have processes : os.processTable.processes.modify p (fun process => process.setState state) =
      os.processTable.processes := by
    apply List.ext_getElem?
    intro q
    show (os.setState p state).process? q = os.process? q
    by_cases same : q = p
    · subst same
      rw [process?_setState_same, found, Option.map_some, ProcessControlBlock.setState, ← already]
    · exact os.process?_setState_other state same
  rw [setState, modifyProcess, ProcessTable.modify, processes]

/-- After an instruction, the process is what the instruction has left. -/
theorem process?_update_same (ctx : ExecutionContext) {process : ProcessControlBlock}
    (found : os.process? p = some process) : (os.update p ctx).process? p = some ctx.process :=
  (os.process?_modifyProcess_same (fun _ => ctx.process)).trans (by rw [found]; rfl)

/-- And every other process is what it was. -/
theorem process?_update_other (ctx : ExecutionContext) (other : q ≠ p) :
    (os.update p ctx).process? q = os.process? q :=
  os.process?_modifyProcess_other _ other

/-- The part of a process that an instruction has left alone is the same in the table. -/
theorem map_update {β : Type} (part : ProcessControlBlock → β) {ctx : ExecutionContext} {process : ProcessControlBlock}
    (found : os.process? p = some process) (kept : part ctx.process = part process) :
    (os.update p ctx).processTable.processes.map part = os.processTable.processes.map part := by
  apply List.ext_getElem?
  intro q
  rw [List.getElem?_map, List.getElem?_map]
  show ((os.update p ctx).process? q).map _ = (os.process? q).map _
  by_cases own : q = p
  · subst own
    rw [os.process?_update_same ctx found, found, Option.map_some, Option.map_some, kept]
  · rw [os.process?_update_other ctx own]

variable {os} in
/-- The end of a load system call is that of an instruction that has changed nothing
but PC and the time slice. -/
theorem finishLoad_eq {process : ProcessControlBlock} (found : os.process? p = some process) :
    os.finishLoad p = os.update p (finishCall (some .Load) (os.context process)).2 := by
  rw [finishLoad, found]

@[simp] theorem process?_notifyProcessReady : os.notifyProcessReady.process? q = os.process? q := rfl

variable {os} in
/-- A pointer is to a process exactly if it is a position of the table. -/
theorem lt_length_of_process? {process : ProcessControlBlock} (found : os.process? p = some process) :
    p < os.processTable.processes.length :=
  (List.getElem?_eq_some_iff.mp found).1

theorem exists_process? (bound : p < os.processTable.processes.length) : ∃ process, os.process? p = some process :=
  ⟨_, List.getElem?_eq_getElem bound⟩

@[simp] theorem length_modifyProcess (f : ProcessControlBlock → ProcessControlBlock) :
    (os.modifyProcess p f).processTable.processes.length = os.processTable.processes.length :=
  os.processTable.length_modify p f

@[simp] theorem length_setState (state : ProcessState) :
    (os.setState p state).processTable.processes.length = os.processTable.processes.length :=
  os.length_modifyProcess _

@[simp] theorem length_update (ctx : ExecutionContext) :
    (os.update p ctx).processTable.processes.length = os.processTable.processes.length :=
  os.length_modifyProcess _

end Processes

end VirtualOS

end VirtualMachine
