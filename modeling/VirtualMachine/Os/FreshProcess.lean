import VirtualMachine.Os.ImageContents
import VirtualMachine.Os.ProcessRefinement

namespace VirtualMachine

open LittleEndian ProgramLoader

/-- Nothing has been written to memory that is still free. -/
def PhysicalMemory.FreeIsZero (physical : PhysicalMemory) : Prop :=
  ∀ k, physical.nextFreeAddress.toNat ≤ k → physical.memory k = 0

/-- A program with this data, before its first command. A word of zeros is on the stack. -/
def ProcessModel.start (data : List Byte) (input : List Word) : ProcessModel :=
  { data := data, stack := [0], input := input }

namespace ProgramLoader

variable {physical after : PhysicalMemory} {program : AssembledProgram} {layout : MemoryRegionLayout}

/-- What a load leaves of the memory of its process. -/
structure Starts (physical : PhysicalMemory) (program : AssembledProgram) (layout : MemoryRegionLayout)
    (after : PhysicalMemory) : Prop where
  fitting : layout.Fitting
  layout : layout = layoutFor physical.nextFreeAddress program
  size : after.size = physical.size
  next : after.nextFreeAddress.toNat = physical.nextFreeAddress.toNat + kDefaultProcessMemorySize
  below : ∀ k, k < physical.nextFreeAddress.toNat → after.memory k = physical.memory k
  behind : ∀ k, physical.nextFreeAddress.toNat + 4 * program.code.length + program.data.length ≤ k →
    after.memory k = physical.memory k

theorem starts_of_load (size : physical.size = kDefaultPhysicalMemorySize) (fits : program.Fits)
    (loaded : load physical program = (.ok layout, after)) : Starts physical program layout after := by
  have megabyte : kDefaultPhysicalMemorySize = 1048576 := rfl
  have stack : kStackSize = 4096 := rfl
  have loads := loads_of_load (by omega) loaded
  obtain ⟨other, ran, changes⟩ := load_of_loads loads (by omega)
  cases ran.symm.trans loaded
  have room := loads.1
  have processSize : kDefaultProcessMemorySize = 65536 := rfl
  refine
    { fitting := layoutFor_fitting fits (by omega), layout := rfl
      size := changes.size.trans (PhysicalMemory.size_allocated _)
      next := ?_, below := fun k below => changes.outside k (Or.inl below)
      behind := fun k behind => changes.outside k (Or.inr behind) }
  rw [changes.nextFree]
  exact PhysicalMemory.nextFreeAddress_allocated (by omega)

namespace Starts

theorem freeIsZero (starts : Starts physical program layout after) (fits : program.Fits) (free : physical.FreeIsZero) :
    after.FreeIsZero := by
  have next := starts.next
  rw [AssembledProgram.Fits] at fits
  intro k beyond
  rw [starts.behind k (by omega)]
  exact free k (by omega)

/-- A process starts with its code, its data, and an empty frame on the stack. -/
theorem holds (starts : Starts physical program layout after) (size : physical.size = kDefaultPhysicalMemorySize)
    (fits : program.Fits) (free : physical.FreeIsZero) (loaded : load physical program = (.ok layout, after))
    {ctx : ExecutionContext} (own : ctx.process.layout = layout) (memory : ctx.physical = after)
    (sp : ctx.registers.sp = VirtualOS.initialStackPointer layout) : ctx.Holds program.code program.data [0] := by
  have megabyte : kDefaultPhysicalMemorySize = 1048576 := rfl
  have stack : kStackSize = 4096 := rfl
  have room := (loads_of_load (by omega) loaded).1
  have processSize : kDefaultProcessMemorySize = 65536 := rfl
  obtain ⟨rfl, sizes, words, bytes⟩ := load_contents (by omega) loaded
  have packed := starts.fitting.toPacked
  have dataAddress := packed.dataAddress
  have stackAddress := packed.stackAddress
  rw [AssembledProgram.Fits] at fits
  rw [base_layoutFor, codeSize_layoutFor] at dataAddress stackAddress
  rw [dataSize_layoutFor] at stackAddress
  have top : (VirtualOS.initialStackPointer (layoutFor physical.nextFreeAddress program)).toNat =
      physical.nextFreeAddress.toNat + program.code.length * 4 + program.data.length + 4092 := by
    rw [VirtualOS.initialStackPointer, BitVec.toNat_ofNat, wordSize, stackAddress, Nat.mod_eq_of_lt (by omega)]
    omega
  refine
    { packed := own ▸ packed, stackSize := own ▸ rfl, codeSize := ?_, dataSize := own ▸ rfl, inMemory := ?_
      code := ?_, data := ?_, sp := ?_, room := by decide, stack := ?_ }
  · rw [own, codeSize_layoutFor]
    omega
  · rw [own, memory, sizes, base_layoutFor, codeSize_layoutFor, dataSize_layoutFor]
    omega
  · rw [own, memory]
    exact words
  · rw [own, memory, base_layoutFor, codeSize_layoutFor, ← dataAddress]
    exact bytes
  · rw [sp, top, own, base_layoutFor, codeSize_layoutFor, dataSize_layoutFor, List.length_singleton]
    omega
  · intro i word here address place
    cases i with
    | succ i => cases here
    | zero =>
      cases here
      rw [memory]
      rw [sp, top] at place
      have clear : ∀ k, address.toNat ≤ k → after.memory k = 0 := fun k above => by
        rw [starts.behind k (by omega)]
        exact free k (by omega)
      have zeros : after.wordAt address = ofBytes 32 wordSize (fun _ => 0) :=
        ofBytes_congr (fun j _ => clear _ (Nat.le_add_right _ j))
      exact zeros

end Starts

end ProgramLoader

/-- Another memory with the same bytes in the region of the process. -/
theorem ExecutionContext.Holds.of_sameView {a b : ExecutionContext} {code : List Word} {data : List Byte}
    {stack : List Word}
    (holds : a.Holds code data stack) (same : SameView a b) (fitting : a.process.layout.Fitting) :
    b.Holds code data stack := by
  obtain ⟨packed, stackSize, codeSize, dataSize, inMemory, inCode, inData, top, room, inStack⟩ := holds
  have inRegion : ∀ k, a.process.layout.base.toNat ≤ k →
      k < a.process.layout.base.toNat + a.process.layout.codeSize + a.process.layout.dataSize + kStackSize →
      b.physical.memory k = a.physical.memory k := by
    intro k low high
    have fits := fitting.room
    have size : a.process.layout.region.size = a.process.layout.totalSize := rfl
    have start : a.process.layout.region.start = a.process.layout.base.toNat := rfl
    exact (same.bytes k ⟨by omega, by rw [Segment.finish]; omega⟩).symm
  have layout : b.process.layout = a.process.layout := same.layout.symm
  have registers : b.registers = a.registers := same.registers.symm
  have words : ∀ address : Address, a.process.layout.base.toNat ≤ address.toNat →
      address.toNat + 4 ≤ a.process.layout.base.toNat + a.process.layout.codeSize + a.process.layout.dataSize +
        kStackSize →
      b.physical.wordAt address = a.physical.wordAt address := by
    intro address low high
    exact PhysicalMemory.wordAt_congr (fun k above below => inRegion k (by omega) (by omega))
  refine
    { packed := layout ▸ packed, stackSize := layout ▸ stackSize, codeSize := layout ▸ codeSize
      dataSize := layout ▸ dataSize, inMemory := by rw [layout, ← same.size]; exact inMemory, room := room
      code := ?_, data := ?_, sp := by rw [layout, registers]; exact top, stack := ?_ }
  · intro i word here address place
    rw [layout] at place
    have bound : i < code.length := (List.getElem?_eq_some_iff.mp here).1
    rw [words address (by omega) (by omega)]
    exact inCode i word here address place
  · intro j byte here
    have bound : j < data.length := (List.getElem?_eq_some_iff.mp here).1
    rw [layout, inRegion _ (by omega) (by omega)]
    exact inData j byte here
  · intro i word here address place
    rw [registers] at place
    have bound : i < stack.length := (List.getElem?_eq_some_iff.mp here).1
    have capacity : stackCapacity = 1024 := rfl
    have bytes : kStackSize = 4096 := rfl
    rw [words address (by omega) (by omega)]
    exact inStack i word here address place

theorem Realizes.of_sameView {a b : ExecutionContext} {code : List Word} {m : ProcessModel}
    (realizes : Realizes code m a)
    (same : SameView a b) (fitting : a.process.layout.Fitting) (lastError : b.process.lastError = a.process.lastError)
    (input : b.input = a.input) (output : b.output = a.output) : Realizes code m b := by
  cases realizes with
  | @intro _ data stack holds =>
    refine (holds.of_sameView same fitting).realizes ?_
    rw [ExecutionContext.view, ExecutionContext.view, lastError, input, output, same.registers, same.id]

namespace VirtualOS

open ProgramLoader

/-- These programs have been loaded, and nothing has been executed yet. -/
structure Loaded (os : VirtualOS) (programs : List AssembledProgram) (numbers : List Word) : Prop where
  size : os.physicalMemory.size = kDefaultPhysicalMemorySize
  next : os.physicalMemory.nextFreeAddress.toNat = 65536 * programs.length
  free : os.physicalMemory.FreeIsZero
  count : os.processTable.processes.length = programs.length
  input : os.input = numbers
  output : os.output = []
  started : ∀ p program, programs[p]? = some program → ∃ process, os.process? p = some process ∧
    process.layout.Fitting ∧ process.layout.region.finish ≤ os.physicalMemory.nextFreeAddress.toNat ∧
    Realizes program.code (.start program.data numbers) (os.context process)

/-- The memory has room for this many processes. -/
def processCapacity : Nat := kDefaultPhysicalMemorySize / kDefaultProcessMemorySize

theorem assemble_of_program? {source : Text} {program : AssembledProgram} (accepted : program? source = some program) :
    assemble source = .ok program := by
  unfold program? at accepted
  cases made : assemble source with
  | error e =>
    rw [made] at accepted
    cases accepted
  | ok other =>
    rw [made] at accepted
    cases accepted
    rfl

/-- A load of a program that is accepted and for which there is room. -/
theorem loadProgramFromSource_of_load {os : VirtualOS} {source : Text} {program : AssembledProgram}
    {layout : MemoryRegionLayout} {physical : PhysicalMemory} (accepted : program? source = some program)
    (ran : load os.physicalMemory program = (.ok layout, physical)) :
    (os.loadProgramFromSource source).2 = os.published physical layout := by
  have assembled := assemble_of_program? accepted
  rw [loadProgramFromSource, emplaceProgram, assembled, emplaceAssembled, createProcess, ran]
  rfl

namespace Loaded

variable {os : VirtualOS} {programs : List AssembledProgram} {numbers : List Word} {program : AssembledProgram}
  {source : Text}

theorem create (quantum : Nat) (numbers : List Word) : (VirtualOS.create quantum numbers).Loaded [] numbers where
  size := rfl
  next := rfl
  free _ _ := rfl
  count := rfl
  input := rfl
  output := rfl
  started _ _ impossible := nomatch impossible

/-- A program that is accepted and fits is loaded as long as there is room for it. -/
theorem load (loaded : os.Loaded programs numbers) (accepted : program? source = some program) (fits : program.Fits)
    (room : programs.length < processCapacity) :
    (os.loadProgramFromSource source).2.Loaded (programs ++ [program]) numbers := by
  have megabyte : kDefaultPhysicalMemorySize = 1048576 := rfl
  have processSize : kDefaultProcessMemorySize = 65536 := rfl
  have stack : kStackSize = 4096 := rfl
  have capacity : processCapacity = 16 := rfl
  have size := loaded.size
  have next := loaded.next
  have code := fits
  rw [AssembledProgram.Fits] at code
  have loads : Loads os.physicalMemory program := ⟨by omega, by omega⟩
  obtain ⟨memory, ran, -⟩ := load_of_loads loads (by omega)
  have starts := starts_of_load size fits ran
  have nextSize := starts.next
  have longer : (programs ++ [program]).length = programs.length + 1 := List.length_append
  have found : ∀ q, (os.published memory (layoutFor os.physicalMemory.nextFreeAddress program)).process? q =
      (os.emplaced memory (layoutFor os.physicalMemory.nextFreeAddress program)).process? q := by
    intro q
    rw [process?, processTable_published]
    rfl
  rw [loadProgramFromSource_of_load accepted ran]
  refine
    { size := starts.size.trans size, next := ?_, free := starts.freeIsZero fits loaded.free, count := ?_
      input := loaded.input, output := loaded.output, started := ?_ }
  · change memory.nextFreeAddress.toNat = _
    omega
  · rw [processTable_published, length_emplaced, loaded.count, longer]
  · intro p other here
    rw [found]
    change ∃ process, _ ∧ _ ∧ _ ≤ memory.nextFreeAddress.toNat ∧ _
    rcases Nat.lt_or_ge p programs.length with old | new
    · rw [List.getElem?_append_left old] at here
      obtain ⟨process, present, fitting, below, realizes⟩ := loaded.started p other here
      refine ⟨process, ?_, fitting, by omega, ?_⟩
      · rw [os.process?_emplaced_old _ _ (by rw [loaded.count]; exact old), present]
      · refine realizes.of_sameView ⟨rfl, rfl, rfl, starts.size.symm, fun k inside => ?_⟩ fitting rfl rfl rfl
        exact (starts.below k (Nat.lt_of_lt_of_le inside.2 below)).symm
    · rw [List.getElem?_append_right new] at here
      have bound : p - programs.length < 1 := (List.getElem?_eq_some_iff.mp here).1
      have last : p = programs.length := Nat.le_antisymm (Nat.le_of_sub_eq_zero (Nat.lt_one_iff.mp bound)) new
      subst last
      rw [Nat.sub_self, List.getElem?_cons_zero, Option.some.injEq] at here
      subst here
      have process := os.process?_emplaced_new memory (layoutFor os.physicalMemory.nextFreeAddress program)
      rw [loaded.count] at process
      refine ⟨_, process, starts.fitting, ?_, ?_⟩
      · change os.physicalMemory.nextFreeAddress.toNat + kDefaultProcessMemorySize ≤ _
        omega
      · have holds : ((os.published memory (layoutFor os.physicalMemory.nextFreeAddress program)).context
            (os.newProcess (layoutFor os.physicalMemory.nextFreeAddress program) os.processTable.nextProcessId)).Holds
              program.code program.data [0] := starts.holds size fits loaded.free ran (by rfl) (by rfl) (by rfl)
        refine holds.realizes ?_
        refine ProcessModel.ext rfl rfl rfl rfl rfl rfl loaded.input ?_
        have printed : os.output = [] := loaded.output
        change (os.output.filter _).map _ = []
        rw [printed]
        rfl

/-- There is no room for another one. -/
theorem full (loaded : os.Loaded programs numbers) (accepted : program? source = some program)
    (full : processCapacity ≤ programs.length) : (os.loadProgramFromSource source).2 = os := by
  have capacity : processCapacity = 16 := rfl
  have processSize : kDefaultProcessMemorySize = 65536 := rfl
  have megabyte : kDefaultPhysicalMemorySize = 1048576 := rfl
  have size := loaded.size
  have next := loaded.next
  have refused : ProgramLoader.load os.physicalMemory program =
      (.error (.vmException "not enough physical memory to allocate region"), os.physicalMemory) := by
    rw [ProgramLoader.load, PhysicalMemory.allocateRegion_error (by omega)]
  have assembled := assemble_of_program? accepted
  rw [loadProgramFromSource, emplaceProgram, assembled, emplaceAssembled, createProcess, refused]
  rfl

/-- The sources are accepted, and each program fits the region of a process. -/
def Accepts (sources : List Text) (programs : List AssembledProgram) : Prop :=
  List.Forall₂ (fun source program => program? source = some program ∧ program.Fits) sources programs

theorem loadAll (loaded : os.Loaded programs numbers) {sources : List Text} {others : List AssembledProgram}
    (accepts : Accepts sources others) (within : programs.length ≤ processCapacity) :
    (os.loadAll sources).Loaded ((programs ++ others).take processCapacity) numbers := by
  induction accepts generalizing os programs with
  | nil =>
    rw [List.append_nil, List.take_of_length_le within]
    exact loaded
  | @cons source program sources others accepted _ ih =>
    have longer : (programs ++ [program]).length = programs.length + 1 := List.length_append
    rcases Nat.lt_or_ge programs.length processCapacity with room | full
    · have next := ih (loaded.load accepted.1 accepted.2 room) (by omega)
      rwa [List.append_assoc] at next
    · have here : (programs ++ program :: others).take processCapacity = (programs ++ others).take processCapacity := by
        rw [List.take_append_of_le_length full, List.take_append_of_le_length full]
      have same : os.loadAll (source :: sources) = os.loadAll sources :=
        congrArg (fun os : VirtualOS => os.loadAll sources) (loaded.full accepted.1 full)
      rw [here, same]
      exact ih loaded within

end Loaded

/-- What each process starts from: its program, read from its region of the memory. -/
theorem initial_realizes {sources : List Text} {programs : List AssembledProgram} {p : ProcessRef}
    {program : AssembledProgram} (accepts : Loaded.Accepts sources programs) (room : programs.length ≤ processCapacity)
    (here : programs[p]? = some program) :
    ∃ initial, initial? sources p = some initial ∧ initial.process.layout.Fitting ∧
      Realizes program.code (.start program.data []) initial := by
  have loaded := (Loaded.create kDefaultTimeSlice []).loadAll accepts (by decide)
  rw [List.nil_append, List.take_of_length_le room] at loaded
  obtain ⟨process, found, fitting, -, realizes⟩ := loaded.started p program here
  exact ⟨_, initial?_eq_some.mpr ⟨process, found, rfl⟩, fitting, realizes⟩

/-- There is nothing else on the machine. -/
theorem realizes_of_initial? {sources : List Text} {programs : List AssembledProgram} {p : ProcessRef}
    {initial : ExecutionContext} (accepts : Loaded.Accepts sources programs) (room : programs.length ≤ processCapacity)
    (start : initial? sources p = some initial) :
    ∃ program, programs[p]? = some program ∧ initial.process.layout.Fitting ∧
      Realizes program.code (.start program.data []) initial := by
  have loaded := (Loaded.create kDefaultTimeSlice []).loadAll accepts (by decide)
  rw [List.nil_append, List.take_of_length_le room] at loaded
  obtain ⟨process, found, -⟩ := initial?_eq_some.mp start
  have bound : p < programs.length := loaded.count ▸ lt_length_of_process? found
  have here := List.getElem?_eq_getElem bound
  obtain ⟨other, same, realizes⟩ := initial_realizes accepts room here
  cases start.symm.trans same
  exact ⟨_, here, realizes⟩

theorem Loaded.Accepts.sourceFits {sources : List Text} {programs : List AssembledProgram}
    (accepts : Loaded.Accepts sources programs) : ∀ source ∈ sources, SourceFits source := by
  induction accepts with
  | nil => exact fun _ member => nomatch member
  | cons first _ ih =>
    intro source member
    rcases List.mem_cons.mp member with rfl | later
    · intro program accepted
      cases first.1.symm.trans accepted
      exact first.2
    · exact ih source later

/-- Each process starts from the same, whatever the quantum and the input. -/
theorem initial?_view {quantum : Nat} {input : List Word} {sources : List Text} {p : ProcessRef}
    {process : ProcessControlBlock}
    (found : ((create quantum input).loadAll sources).process? p = some process) :
    ∃ initial, initial? sources p = some initial ∧
      SameView (((create quantum input).loadAll sources).context process) initial := by
  have booted : SameImage (create quantum input) (create kDefaultTimeSlice []) := ⟨rfl, rfl, rfl⟩
  obtain ⟨other, here, view⟩ := (booted.loadAll sources).sameView found
  exact ⟨_, initial?_eq_some.mpr ⟨other, here, rfl⟩, view⟩

end VirtualOS

end VirtualMachine
