import VirtualMachine.Cpu.InstructionOutcome

namespace VirtualMachine

/-- Two contexts in which one process sees the same: its identity, its
registers and the bytes of its region. Other processes, the time slice and the
streams may differ. -/
structure SameView (a b : ExecutionContext) : Prop where
  id : a.process.id = b.process.id
  layout : a.process.layout = b.process.layout
  registers : a.registers = b.registers
  size : a.physical.size = b.physical.size
  bytes : ∀ k, a.process.layout.region.Contains k → a.physical.memory k = b.physical.memory k

/-- What an instruction does in two such contexts: the same outcome, the same
words printed, and the same view again. -/
structure SameStep {α : Type} (a b : ExecutionContext) (first last : α × ExecutionContext) : Prop where
  outcome : first.1 = last.1
  view : SameView first.2 last.2
  output : ∃ printed : List Word,
    first.2.output = a.output ++ printed.map (fun value => (a.process.id, value)) ∧
      last.2.output = b.output ++ printed.map (fun value => (b.process.id, value))

namespace SameView

variable {a b c : ExecutionContext}

theorem refl (a : ExecutionContext) : SameView a a := ⟨rfl, rfl, rfl, rfl, fun _ _ => rfl⟩

/-- To see the same is an equivalence; what follows shows that it is kept by
everything an instruction does. -/
theorem trans (first : SameView a b) (last : SameView b c) : SameView a c :=
  ⟨first.id.trans last.id, first.layout.trans last.layout, first.registers.trans last.registers,
    first.size.trans last.size,
    fun k inside => (first.bytes k inside).trans (last.bytes k (by rw [← first.layout]; exact inside))⟩

/-- Nothing is printed and the same new registers are set. -/
theorem withRegisters (same : SameView a b) (registers : RegisterFile) :
    SameView (a.withRegisters registers) (b.withRegisters registers) :=
  ⟨same.id, same.layout, rfl, same.size, same.bytes⟩

/-- The time slice is not part of the view. -/
theorem useTimeSlice (same : SameView a b) : SameView a.useTimeSlice b.useTimeSlice :=
  ⟨same.id, same.layout, same.registers, same.size, same.bytes⟩

/-- A write at the same address of both memories. -/
theorem putWord (same : SameView a b) (address : Address) (value : Word) :
    SameView (a.withPhysical (a.physical.putWord address value))
    (b.withPhysical (b.physical.putWord address value)) := by
  refine ⟨same.id, same.layout, same.registers, same.size, fun k inside => ?_⟩
  have kept := same.bytes k inside
  simp only [ExecutionContext.withPhysical, PhysicalMemory.putWord, LittleEndian.write_apply, kept]

/-- A word of the region reads the same. -/
theorem wordAt (same : SameView a b) {address : Address}
    (inside : ∀ k, address.toNat ≤ k → k < address.toNat + 4 → a.process.layout.region.Contains k) :
    a.physical.wordAt address = b.physical.wordAt address :=
  PhysicalMemory.wordAt_congr (fun k low high => same.bytes k (inside k low high))

/-- And read with its bounds check, as both memories have one size. -/
theorem readWord (same : SameView a b) {address : Address}
    (inside : ∀ k, address.toNat ≤ k → k < address.toNat + 4 → a.process.layout.region.Contains k) :
    a.physical.readWord address = b.physical.readWord address := by
  by_cases fits : address.toNat + 4 ≤ a.physical.size
  · rw [PhysicalMemory.readWord_ok fits, PhysicalMemory.readWord_ok (by rwa [← same.size]), same.wordAt inside]
  · rw [PhysicalMemory.readWord_error (Nat.lt_of_not_le fits),
      PhysicalMemory.readWord_error (by rw [← same.size]; exact Nat.lt_of_not_le fits)]

/-- The next instruction is the same one, if it lies in the code. -/
theorem fetch? (same : SameView a b) (fitting : a.process.layout.Fitting)
    (inside : a.registers.pc.toNat * 4 + 4 ≤ a.process.layout.codeSize) : a.fetch? = b.fetch? := by
  have address : a.fetchAddress = b.fetchAddress := by
    rw [ExecutionContext.fetchAddress, ExecutionContext.fetchAddress, same.layout, same.registers]
  have start := fitting.toPacked.codeWordAddress inside
  have room := fitting.room
  have word : a.physical.wordAt a.fetchAddress = b.physical.wordAt a.fetchAddress := by
    refine same.wordAt fun k low high => ?_
    simp only [Segment.Contains, Segment.finish, MemoryRegionLayout.region, ExecutionContext.fetchAddress] at *
    omega
  rw [ExecutionContext.fetch?, ExecutionContext.fetch?, ← address, word, same.size]

theorem validateDataOffset (same : SameView a b) (offset : Address) (size : Nat) :
    b.memory.validateDataOffset offset size = a.memory.validateDataOffset offset size := by
  rw [ExecutionContext.memory, ExecutionContext.memory, same.layout]
  rfl

/-- The data of a process lie in its region, so they read the same. -/
theorem readDataWord (same : SameView a b) (fitting : a.process.layout.Fitting) (offset : Address) :
    a.memory.readDataWord offset = b.memory.readDataWord offset := by
  have checked := same.validateDataOffset offset wordSize
  rw [ProcessMemory.readDataWord, ProcessMemory.readDataWord, checked]
  by_cases inside : offset.toNat + wordSize ≤ a.memory.layout.dataSize
  · rw [ProcessMemory.validateDataOffset_ok inside]
    show a.physical.readWord (a.process.layout.dataAddress + offset) =
      b.physical.readWord (b.process.layout.dataAddress + offset)
    rw [← same.layout]
    exact same.readWord (fun k => fitting.data_region inside)
  · rw [ProcessMemory.validateDataOffset_error (Nat.lt_of_not_le inside)]
    rfl

theorem readDataByte (same : SameView a b) (fitting : a.process.layout.Fitting) (offset : Address) :
    a.memory.readDataByte offset = b.memory.readDataByte offset := by
  have checked := same.validateDataOffset offset 1
  rw [ProcessMemory.readDataByte, ProcessMemory.readDataByte, checked]
  by_cases inside : offset.toNat + 1 ≤ a.memory.layout.dataSize
  · rw [ProcessMemory.validateDataOffset_ok inside]
    show a.physical.readByte (a.process.layout.dataAddress + offset) =
      b.physical.readByte (b.process.layout.dataAddress + offset)
    have byte := same.bytes _ (fitting.data_region inside (Nat.le_refl _) (Nat.lt_succ_self _))
    rw [← same.layout, PhysicalMemory.readByte, PhysicalMemory.readByte, PhysicalMemory.validateRange,
      PhysicalMemory.validateRange, same.size, byte]
  · rw [ProcessMemory.validateDataOffset_error (Nat.lt_of_not_le inside)]
    rfl

/-- Byte for byte, the path of a load system call is the same. -/
theorem readLoadPath (same : SameView a b) (fitting : a.process.layout.Fitting) (argAddress : Word)
    (count offset : Nat) :
    SyscallHandler.readLoadPath a.memory argAddress count offset =
      SyscallHandler.readLoadPath b.memory argAddress count offset := by
  induction count generalizing offset with
  | zero => rfl
  | succ count ih => rw [SyscallHandler.readLoadPath, SyscallHandler.readLoadPath, same.readDataByte fitting, ih]

theorem loadPath? (same : SameView a b) (fitting : a.process.layout.Fitting) (fetched : a.fetch? = b.fetch?) :
    a.loadPath? = b.loadPath? := by
  simp only [ExecutionContext.loadPath?, fetched, same.readLoadPath fitting]

/-- A write is refused in both contexts, for the same reason, or in none. -/
theorem writeDataWord (same : SameView a b) (offset : Address) (value : Word) :
    (∃ e, a.memory.writeDataWord offset value = .error e ∧ b.memory.writeDataWord offset value = .error e) ∨
      ∃ first last, a.memory.writeDataWord offset value = .ok first ∧
        b.memory.writeDataWord offset value = .ok last := by
  rw [ProcessMemory.writeDataWord, ProcessMemory.writeDataWord, same.validateDataOffset offset wordSize]
  by_cases inside : offset.toNat + wordSize ≤ a.memory.layout.dataSize
  · rw [ProcessMemory.validateDataOffset_ok inside]
    show (∃ e, a.physical.writeWord (a.process.layout.dataAddress + offset) value = .error e ∧
        b.physical.writeWord (b.process.layout.dataAddress + offset) value = .error e) ∨
      ∃ first last, a.physical.writeWord (a.process.layout.dataAddress + offset) value = .ok first ∧
        b.physical.writeWord (b.process.layout.dataAddress + offset) value = .ok last
    rw [← same.layout]
    by_cases fits : (a.process.layout.dataAddress + offset).toNat + 4 ≤ a.physical.size
    · exact Or.inr ⟨_, _, PhysicalMemory.writeWord_ok value fits,
        PhysicalMemory.writeWord_ok value (by rwa [← same.size])⟩
    · exact Or.inl ⟨_, PhysicalMemory.writeWord_error value (Nat.lt_of_not_le fits),
        PhysicalMemory.writeWord_error value (by rw [← same.size]; exact Nat.lt_of_not_le fits)⟩
  · rw [ProcessMemory.validateDataOffset_error (Nat.lt_of_not_le inside)]
    exact Or.inl ⟨_, rfl, rfl⟩

theorem storeEffect (same : SameView a b) (instruction : DecodedInstruction) :
    a.storeEffect instruction = b.storeEffect instruction := by
  unfold ExecutionContext.storeEffect
  dsimp only
  rw [← same.layout, ← same.registers]
  rcases same.writeDataWord (instruction.imm.signExtend 32) (a.registers.get instruction.rd) with
    ⟨e, first, last⟩ | ⟨_, _, first, last⟩ <;> rw [first, last]

/-- The stack lies in the region, and SP is the same. -/
theorem pushEffect (same : SameView a b) (value : Word) : a.pushEffect value = b.pushEffect value := by
  have room : a.memory.canPush a.registers.sp = b.memory.canPush a.registers.sp := by
    rw [ExecutionContext.memory, ExecutionContext.memory, same.layout]
    rfl
  unfold ExecutionContext.pushEffect
  dsimp only
  rw [room, ← same.registers, ← same.size]

theorem popEffect (same : SameView a b) (fitting : a.process.layout.Fitting)
    (use : RegisterFile → Word → RegisterFile) (result : ExecutionResult) :
    a.popEffect use result = b.popEffect use result := by
  have room : a.memory.canPop a.registers.sp = b.memory.canPop a.registers.sp := by
    rw [ExecutionContext.memory, ExecutionContext.memory, same.layout]
    rfl
  unfold ExecutionContext.popEffect
  dsimp only
  rw [← same.registers, ← room, ← same.size]
  split
  · rename_i inside
    have word : a.physical.wordAt a.registers.sp = b.physical.wordAt a.registers.sp := by
      refine same.wordAt fun k low high => ?_
      obtain ⟨above, below⟩ := ProcessMemory.canPop_iff.mp inside
      have address := fitting.toPacked.stackAddress
      have fits := fitting.room
      simp only [Segment.Contains, Segment.finish, MemoryRegionLayout.region, ExecutionContext.memory] at *
      omega
    rw [word]
  · rfl

/-- One instruction has one effect, whichever of the two contexts it is executed in.
The case split is that of the instruction set. -/
theorem effect (same : SameView a b) (fitting : a.process.layout.Fitting) (instruction : DecodedInstruction) :
    VirtualMachine.effect instruction a = VirtualMachine.effect instruction b := by
  have operands : operands instruction a = operands instruction b := by
    simp only [VirtualMachine.operands, readOperand, same.registers]
  unfold VirtualMachine.effect
  rw [operands]
  cases Opcode.ofByte? instruction.opcode with
  | none => rfl
  | some opcode =>
    cases opcode
    case LOAD =>
      simp only [ExecutionContext.loadEffect, same.readDataWord fitting, ExecutionContext.result, same.registers]
    case STORE => exact same.storeEffect instruction
    case PUSH => exact same.pushEffect _
    case POP => exact same.popEffect fitting _ _
    case RET => exact same.popEffect fitting _ _
    all_goals simp only [ExecutionContext.result, ExecutionContext.jumpEffect, same.registers]

/-- An instruction that prints nothing prints the same. -/
theorem silent {first last : ExecutionContext} (unchanged : first.output = a.output) (other : last.output = b.output) :
    ∃ printed : List Word, first.output = a.output ++ printed.map (fun value => (a.process.id, value)) ∧
      last.output = b.output ++ printed.map (fun value => (b.process.id, value)) :=
  ⟨[], by simp [unchanged], by simp [other]⟩

/-- The same effect leaves the same view. -/
theorem apply (same : SameView a b) (effect : Effect) : SameStep a b (effect.apply a) (effect.apply b) := by
  cases effect with
  | registers after result => exact ⟨rfl, same.withRegisters after, silent rfl rfl⟩
  | store address value after => exact ⟨rfl, (same.putWord address value).withRegisters after, silent rfl rfl⟩
  | halt => exact ⟨rfl, ⟨same.id, same.layout, same.registers, same.size, same.bytes⟩, silent rfl rfl⟩
  | fail message sp =>
    refine ⟨rfl, ⟨same.id, same.layout, ?_, same.size, same.bytes⟩, silent rfl rfl⟩
    show a.registers.setSp sp = b.registers.setSp sp
    rw [same.registers]
  | throw e => exact ⟨rfl, same, silent rfl rfl⟩

/-- The system calls but for `scan`, whose number comes from outside. -/
theorem handle (same : SameView a b) (fitting : a.process.layout.Fitting) {id : Option SyscallId}
    (noScan : id ≠ some .Scan) (argAddress : Word) :
    SameStep a b (SyscallHandler.handle id argAddress a) (SyscallHandler.handle id argAddress b) := by
  cases id with
  | none => exact ⟨rfl, same, silent rfl rfl⟩
  | some id =>
    cases id with
    | Print =>
      simp only [SyscallHandler.handle, same.readDataWord fitting]
      cases b.memory.readDataWord argAddress with
      | error e => exact ⟨rfl, same, silent rfl rfl⟩
      | ok value => exact ⟨rfl, ⟨same.id, same.layout, same.registers, same.size, same.bytes⟩, [value], rfl, rfl⟩
    | Scan => exact absurd rfl noScan
    | Exit => exact ⟨rfl, ⟨same.id, same.layout, same.registers, same.size, same.bytes⟩, silent rfl rfl⟩
    | Yield => exact ⟨rfl, ⟨same.id, same.layout, same.registers, same.size, same.bytes⟩, silent rfl rfl⟩
    | Load =>
      simp only [SyscallHandler.handle, same.readLoadPath fitting]
      cases SyscallHandler.readLoadPath b.memory argAddress 256 0 with
      | error e => exact ⟨rfl, same, silent rfl rfl⟩
      | ok path => exact ⟨rfl, same, silent rfl rfl⟩

theorem finishCall (same : SameView a b) (syscallId : Option SyscallId) :
    (finishCall syscallId a).1 = (finishCall syscallId b).1 ∧
      SameView (finishCall syscallId a).2 (finishCall syscallId b).2 := by
  have advanced : SameView a.advancePc b.advancePc := by
    rw [ExecutionContext.advancePc, ExecutionContext.advancePc, same.registers]
    exact same.withRegisters _
  unfold VirtualMachine.finishCall
  dsimp only
  split
  · exact ⟨rfl, advanced⟩
  · split
    · exact ⟨rfl, advanced⟩
    · exact ⟨rfl, advanced.useTimeSlice⟩

/-- With the advance of PC behind it. -/
theorem executeCall (same : SameView a b) (fitting : a.process.layout.Fitting) {instruction : DecodedInstruction}
    (noScan : SyscallId.ofField? instruction.rs1 ≠ some .Scan) :
    SameStep a b (executeCall instruction a) (executeCall instruction b) := by
  have handled := same.handle fitting noScan (instruction.imm.setWidth 32)
  have quiet : ∀ (syscallId : Option SyscallId) (ctx : ExecutionContext),
      (VirtualMachine.finishCall syscallId ctx).2.output = ctx.output := by
    intro syscallId ctx
    unfold VirtualMachine.finishCall
    dsimp only
    split
    · rfl
    · split <;> rfl
  unfold VirtualMachine.executeCall
  dsimp only
  revert handled
  rcases SyscallHandler.handle (SyscallId.ofField? instruction.rs1) (instruction.imm.setWidth 32) a
    with ⟨outcome, first⟩
  rcases SyscallHandler.handle (SyscallId.ofField? instruction.rs1) (instruction.imm.setWidth 32) b with ⟨other, last⟩
  rintro ⟨rfl, view, output⟩
  dsimp only at view output
  match outcome with
  | .error e => exact ⟨rfl, view, output⟩
  | .ok (.load path) => exact ⟨rfl, view, output⟩
  | .ok .done =>
    obtain ⟨result, after⟩ := view.finishCall (SyscallId.ofField? instruction.rs1)
    exact ⟨congrArg (fun result => Except.ok (Progress.finished result)) result, after, by
      simpa only [finishHandle, quiet] using output⟩

/-- An instruction that reads no input does to a process what the process
itself determines. -/
theorem beginInstruction (same : SameView a b) (fitting : a.process.layout.Fitting) (fetched : a.fetch? = b.fetch?)
    (noScan : ¬ a.NextCalls .Scan) : SameStep a b (beginInstruction a) (beginInstruction b) := by
  cases next : a.fetch? with
  | none =>
    have address : a.fetchAddress = b.fetchAddress := by
      rw [ExecutionContext.fetchAddress, ExecutionContext.fetchAddress, same.layout, same.registers]
    rw [beginInstruction_of_fetch_none next, beginInstruction_of_fetch_none (fetched.symm.trans next), address]
    exact ⟨rfl, same, silent rfl rfl⟩
  | some instruction =>
    rw [beginInstruction_of_fetch next, beginInstruction_of_fetch (fetched.symm.trans next)]
    split
    · rename_i call
      exact same.executeCall fitting (fun scan => noScan ⟨instruction, next, call, scan⟩)
    · rw [execute_eq, execute_eq, same.effect fitting]
      obtain ⟨outcome, view, output⟩ := same.apply (VirtualMachine.effect instruction b)
      revert outcome view output
      rcases (VirtualMachine.effect instruction b).apply a with ⟨outcome, first⟩
      rcases (VirtualMachine.effect instruction b).apply b with ⟨other, last⟩
      rintro rfl view output
      cases outcome with
      | error e => exact ⟨rfl, view, output⟩
      | ok result => exact ⟨rfl, view.useTimeSlice, output⟩

end SameView

end VirtualMachine
