import VirtualMachine.Cpu.RegisterFile
import VirtualMachine.Memory.ProcessMemory

namespace VirtualMachine

inductive ProcessState
  | Ready | Running | Halted
  deriving DecidableEq, Repr

@[ext]
structure ProcessControlBlock where
  id : ProcessId
  state : ProcessState := .Ready
  context : CpuContext := {}
  layout : MemoryRegionLayout
  lastError : Option String := none

namespace ProcessControlBlock

def setState (process : ProcessControlBlock) (state : ProcessState) : ProcessControlBlock :=
  { process with state := state }

def setHalted (process : ProcessControlBlock) (value : Bool) : ProcessControlBlock :=
  { process with context := { process.context with halted := value } }

def setShouldYield (process : ProcessControlBlock) (value : Bool) : ProcessControlBlock :=
  { process with context := { process.context with shouldYield := value } }

def resetTimeSlice (process : ProcessControlBlock) (quantum : Nat) : ProcessControlBlock :=
  { process with context := { process.context with timeSliceLeft := quantum } }

def setRegisters (process : ProcessControlBlock) (registers : RegisterFile) : ProcessControlBlock :=
  { process with context := { process.context with registers := registers } }

def setLastError (process : ProcessControlBlock) (message : String) : ProcessControlBlock :=
  { process with lastError := some message }

end ProcessControlBlock

/-- A `ProcessControlBlock*`: processes are never removed from the table, so a
pointer is a position in it. -/
abbrev ProcessRef := Nat

structure ProcessTable where
  processes : List ProcessControlBlock := []
  nextProcessId : ProcessId := 1

namespace ProcessTable

def find (table : ProcessTable) (id : ProcessId) : Option ProcessRef :=
  table.processes.findIdx? (fun process => process.id == id)

def allHalted (table : ProcessTable) : Bool :=
  table.processes.all (fun process => process.state == .Halted)

/-- A write through a pointer. -/
def modify (table : ProcessTable) (p : ProcessRef) (f : ProcessControlBlock → ProcessControlBlock) : ProcessTable :=
  { table with processes := table.processes.modify p f }

/-- `nextId` and `emplace`. -/
def emplace (table : ProcessTable) (process : ProcessId → ProcessControlBlock) : ProcessRef × ProcessTable :=
  (table.processes.length,
    { processes := table.processes ++ [process table.nextProcessId]
      nextProcessId := table.nextProcessId + 1 })

variable (table : ProcessTable) (p : ProcessRef) (f : ProcessControlBlock → ProcessControlBlock)

/-- A write through a pointer changes the process it points to, -/
theorem getElem?_modify_same : (table.modify p f).processes[p]? = (table.processes[p]?).map f :=
  List.getElem?_modify_eq f p table.processes

/-- and no other one. -/
theorem getElem?_modify_other {p q : ProcessRef} (other : q ≠ p) :
    (table.modify p f).processes[q]? = table.processes[q]? :=
  List.getElem?_modify_ne f table.processes (Ne.symm other)

@[simp] theorem length_modify : (table.modify p f).processes.length = table.processes.length :=
  List.length_modify f table.processes p

/-- A write that leaves some part of a process alone leaves it alone in the table. -/
theorem map_modify {β : Type} (part : ProcessControlBlock → β) (kept : ∀ process, part (f process) = part process) :
    (table.modify p f).processes.map part = table.processes.map part := by
  apply List.ext_getElem?
  intro q
  rw [List.getElem?_map, List.getElem?_map]
  by_cases same : q = p
  · subst same
    rw [getElem?_modify_same, Option.map_map]
    exact congrArg (fun g => Option.map g table.processes[q]?) (funext kept)
  · rw [getElem?_modify_other table f same]

variable {table} in
/-- `allHalted` in terms of pointers. It holds of the empty table. -/
theorem allHalted_iff :
    table.allHalted = true ↔ ∀ (p : ProcessRef) (process : ProcessControlBlock),
      table.processes[p]? = some process → process.state = .Halted := by
  rw [allHalted, List.all_eq_true]
  constructor
  · intro all p process found
    exact beq_iff_eq.mp (all process (List.mem_of_getElem? found))
  · intro all process listed
    obtain ⟨p, found⟩ := List.mem_iff_getElem?.mp listed
    exact beq_iff_eq.mpr (all p process found)

end ProcessTable

end VirtualMachine
